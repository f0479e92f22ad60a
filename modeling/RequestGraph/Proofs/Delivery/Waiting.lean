import RequestGraph.Proofs.Delivery.Latches
import RequestGraph.Proofs.Engine.Stock

/-!
# Waiting leaves one trace and loses no wake-up

However often a cell is waited for, in the thread that runs or in others, with a limit or without, the only
thing that is left behind is the latch, which the first wait registers. Waiting for a realized cell leaves nothing
behind. A thread that has come to wait either found its cell realized or stands before the latch, and the latch is
opened by the completion of the cell if the sink returns. Whoever is let through finds the outcome:

    w.isBlocked waiter = false   →   (w.cell waiter.cell).peek = some o

A wait with a limit looks for the outcome, then at the clock, and only then at the latch. So a limit that leads past
the last instant of the clock is noticed while there is no latch yet, and such a wait breaks off without a trace.
-/

namespace RequestGraph

/-- The latch of a pending cell has been made and registered with it, and nothing else has been done. -/
structure World.Latched (w w' : World) (c : CellId) : Prop where
  phase : (w'.cell c).phase = .listening
  latch : (w'.cell c).latch = .shut
  /-- The latch comes after all listeners that were registered before. -/
  listeners : (w'.cell c).listeners.toList =
    (w.cell c).listeners.toList ++ [⟨w.freshTicket, .latch c⟩]
  outcome : (w'.cell c).outcome = (w.cell c).outcome
  owner : (w'.cell c).owner = (w.cell c).owner
  revokee : (w'.cell c).revokee = (w.cell c).revokee
  label : (w'.cell c).label = (w.cell c).label
  others : ∀ d, d ≠ c → w'.cell d = w.cell d
  size : w'.cells.size = w.cells.size
  rest : { w' with cells := w.cells, freshTicket := w.freshTicket } = w

/-- What waiting for a pending cell leaves behind: the first time its latch, and from then on nothing. -/
def World.Trace (w w' : World) (c : CellId) : Prop :=
  (w.cell c).latch = .absent ∧ w.Latched w' c ∨ (w.cell c).latch ≠ .absent ∧ w' = w

/-- Notes under a name a thread that waits, or that none does any more. -/
def World.noteWaiter (w : World) (as : String) (waiter : Option Waiter) : World :=
  w.named fun n => { n with waiters := n.waiters.insert as waiter }

/-- A thread that waits found its cell realized, or stands before the latch. -/
structure Waiter.Placed (waiter : Waiter) (w : World) : Prop where
  passed : waiter.blocked = false → (w.cell waiter.cell).isRealized = true
  stands : waiter.blocked = true → (w.cell waiter.cell).latch ≠ .absent

/-- A thread is known by a name. -/
def World.Attends (w : World) (as : String) (waiter : Waiter) : Prop :=
  w.names.waiters.get? as = some (some waiter)

instance (w : World) (as : String) (waiter : Waiter) : Decidable (w.Attends as waiter) :=
  inferInstanceAs (Decidable (_ = _))

/-- The operations that wait, or have to do with threads that do. -/
def Op.waits : Op → Bool
  | .cell (.wait ..) | .cell (.waitFor ..) | .cell (.startWaiter ..) | .cell (.joinWaiter _) => true
  | _ => false

namespace Machine

/-- The outcome of a cell is waited for, as long as it takes or for a limited time. -/
inductive Waits (m : Machine) (c : CellId) : Option Duration → Prop
  | wait {cell : String} {scope : Scope} (call : m.control = .call (.op (.cell (.wait cell false)) scope))
      (named : m.world.cell? cell = .ok c) : m.Waits c none
  | waitFor {cell : String} {limit : Duration} {scope : Scope}
      (call : m.control = .call (.op (.cell (.waitFor cell limit)) scope))
      (named : m.world.cell? cell = .ok c) : m.Waits c (some limit)

/-- The outcome of a cell is waited for, provided that it is there. -/
def WaitsGuarded (m : Machine) (c : CellId) : Prop :=
  ∃ cell scope, m.control = .call (.op (.cell (.wait cell)) scope) ∧ m.world.cell? cell = .ok c

/-- A call has come to stand before the latch of a cell, as long as it takes or for a limited time. -/
def AtLatch (m : Machine) (c : CellId) (limit : Option Duration) (rest : List Frame) : Prop :=
  ∃ r, m.control = .ret r ∧ m.stack = .answer (.waited c limit) :: rest

/-- A thread is started that waits for a cell. -/
def StartsWaiter (m : Machine) (c : CellId) (as : String) : Prop :=
  ∃ cell scope, m.control = .call (.op (.cell (.startWaiter cell as)) scope) ∧ m.world.cell? cell = .ok c

/-- A thread that waits is joined. -/
def JoinsWaiter (m : Machine) (as : String) (waiter : Waiter) : Prop :=
  ∃ scope, m.control = .call (.op (.cell (.joinWaiter as)) scope) ∧ m.world.Attends as waiter

end Machine

/-- Waiting leaves one trace and loses no wake-up. -/
structure WakesWaiters (m : Machine) (past : List Machine) : Prop where
  /-- At most one latch was ever registered with a cell, and that is its own. -/
  once : ∀ c, latches c past = [] ∨ ∃ t, latches c past = [⟨t, .latch c⟩]
  /-- As long as the cell is pending, that latch is the only one among its listeners. -/
  listed : ∀ c, (m.world.cell c).isRealized = false →
    (m.world.cell c).listeners.toList.filter (·.listener.isLatch) = latches c past
  /-- A wait for a realized cell changes nothing, and gives the outcome. -/
  atOnce : ∀ c limit o, m.Waits c limit → (m.world.cell c).peek = some o →
    m.step = ⟨m.world, .ret (.reply (.outcome (m.world.reportOutcome o))), m.stack⟩
  /-- A thread that comes to wait for a realized cell is not held back, and leaves no trace either. -/
  late : ∀ c as o, m.StartsWaiter c as → (m.world.cell c).peek = some o →
    m.step = ⟨m.world.noteWaiter as (some ⟨c, false⟩), .ret (.reply .nothing), m.stack⟩
  /-- A wait for a limited time that is over says so, and leaves the trace. Apart from that, the clock was read. -/
  timesOut : ∀ c limit, m.Waits c (some limit) → (m.world.cell c).isRealized = false →
    limit ≤ m.world.clock.ahead → ∃ n ≤ 3, ∃ w', m.iterate n =
      ⟨w', .ret (.reply (.outcome (.error (.mk (.timeout limit) none none)))), m.stack⟩ ∧
        m.world.readClock.Trace w' c
  /-- A wait that would be over at no instant of the clock breaks off, and the clock was read and nothing else. -/
  beyond : ∀ c limit, m.Waits c (some limit) → (m.world.cell c).isRealized = false →
    ¬limit ≤ m.world.clock.ahead → m.step = ⟨m.world.readClock, .raise .beyondClock, m.stack⟩
  /-- A wait without a limit leaves the trace and then stands before the latch. While it does, nothing else is done in
  its thread, so that only other threads can complete the cell. -/
  blocks : ∀ c, m.Waits c none → (m.world.cell c).isRealized = false →
    ∃ n ≤ 2, ∃ w', m.world.Trace w' c ∧
      ∀ k, n ≤ k → m.iterate k = ⟨w', .ret .unit, .answer (.waited c none) :: m.stack⟩
  /-- A call that stands before an open latch gets the outcome, and is never without one. -/
  passes : ∀ c limit rest, m.AtLatch c limit rest → (m.world.cell c).latch = .opened →
    ∃ o, (m.world.cell c).peek = some o ∧
      m.step = ⟨m.world, .ret (.reply (.outcome (m.world.reportOutcome o))), rest⟩
  /-- Before a latch that is shut it is over once it has waited for its limit. -/
  expires : ∀ c limit rest, m.AtLatch c (some limit) rest → (m.world.cell c).latch ≠ .opened →
    m.step = ⟨m.world, .ret (.reply (.outcome (.error (.mk (.timeout limit) none none)))), rest⟩
  /-- Without a limit it goes on standing there. -/
  stays : ∀ c rest, m.AtLatch c none rest → (m.world.cell c).latch ≠ .opened → m.step = m
  /-- A thread that comes to wait for a pending cell leaves the same trace. -/
  started : ∀ c as, m.StartsWaiter c as → (m.world.cell c).isRealized = false →
    ∃ n ≤ 3, ∃ w', m.iterate n = ⟨w', .ret (.reply .nothing), m.stack⟩ ∧
      (m.world.noteWaiter as (some ⟨c, true⟩)).Trace w' c
  /-- A wait that is to be begun only if it would end at once changes nothing. It gives the outcome, or says that
  there is none. -/
  guarded : ∀ c, m.WaitsGuarded c → m.step = ⟨m.world, .ret (.reply
    (((m.world.cell c).peek.map fun o => .outcome (m.world.reportOutcome o)).getD .wouldBlock)), m.stack⟩
  /-- If the sink returns, a completion opens the latch before it comes back, and holds back nobody who has
  come to wait. -/
  opens : ∀ c o a, m.control = .call (.complete c o a) → m.world.refusal? c a = none → ∀ n,
    (∀ k < n, ((⟨m.world, m.control, []⟩ : Machine).iterate k).SinkReturns) →
    ((⟨m.world, m.control, []⟩ : Machine).iterate n).atRest = true →
      ∃ w' r, m.Leads ⟨w', .ret r, m.stack⟩ ∧ m.world.Wakes w' c o ∧
        ∀ as waiter, m.world.Attends as waiter → waiter.cell = c → w'.isBlocked waiter = false
  /-- If the sink has always returned and nothing is left to be done, no realized cell holds anybody back. -/
  settled : m.atRest = true → (∀ x ∈ past, x.SinkReturns) → ∀ c, (m.world.cell c).isRealized = true →
    m.world.Admits c
  /-- Whoever is joined after the cell has let pass those who wait gets what the cell held then. -/
  woken : ∀ x ∈ m :: past, ∀ as waiter o, x.world.Admits waiter.cell →
    (x.world.cell waiter.cell).peek = some o → m.JoinsWaiter as waiter →
      m.step = ⟨m.world.noteWaiter as none, .ret (.reply (.outcome (m.world.reportOutcome o))), m.stack⟩
  /-- Whoever is joined and not held back gets what the cell holds. -/
  joined : ∀ as waiter, m.JoinsWaiter as waiter → m.world.isBlocked waiter = false →
    ∃ o, (m.world.cell waiter.cell).peek = some o ∧
      m.step = ⟨m.world.noteWaiter as none, .ret (.reply (.outcome (m.world.reportOutcome o))), m.stack⟩
  /-- Whoever is held back goes on waiting. -/
  held : ∀ as waiter, m.JoinsWaiter as waiter → m.world.isBlocked waiter = true →
    m.step = ⟨m.world, .ret (.reply .wouldBlock), m.stack⟩
  /-- An outcome is there whenever it is looked for: no such operation breaks off, but for want of an instant. -/
  unbroken : ∀ op scope, m.control = .call (.op op scope) → op.waits = true → ∀ p,
    m.step.control = .raise p → p = .beyondClock ∧ ∃ c limit, m.Waits c (some limit) ∧
      (m.world.cell c).isRealized = false ∧ ¬limit ≤ m.world.clock.ahead

/-! ## Standing before the latch

The first wait makes the latch and subscribes it; any other finds it there. From then on waiting leaves no
trace, and what it waits for is told to the latch.
-/

namespace World

variable {w w' : World} {c : CellId}

theorem names_waitBefore (w : World) (c : CellId) (how : Answering) :
    (w.waitBefore c how).world.names = w.names := by
  unfold waitBefore
  split <;> rfl

theorem names_pass (w : World) (c : CellId) : (w.pass c).world.names = w.names := by
  unfold pass
  split <;> rfl

theorem latch_waitBefore (there : c < w.cells.size) (how : Answering) :
    ((w.waitBefore c how).world.cell c).latch ≠ .absent := by
  unfold waitBefore
  split
  · show ((w.setCell c _).cell c).latch ≠ _
    rw [cell_setCell_self there]
    exact nofun
  · next present => exact present

/-- The cell of which the latch has been made and then registered. -/
theorem cell_of_listened (there : c < w.cells.size)
    (hw : w' = w.setCell c { w.cell c with latch := .shut }) :
    ({ w' with freshTicket := w'.freshTicket + 1 }.setCell c
      ((w'.cell c).listened ⟨w'.freshTicket, .latch c⟩)).cell c =
        { (w.cell c).listened ⟨w.freshTicket, .latch c⟩ with latch := .shut } := by
  have there' : c < w'.cells.size := by rwa [hw, setCell, Arena.size_set]
  rw [cell_setCell, if_pos ⟨rfl, there'⟩, hw, cell_setCell_self there]
  rfl

/-- Making the latch and then registering it does nothing else. -/
theorem latched_of_listened (sound : w.Sound) (there : c < w.cells.size)
    (hw : w' = w.setCell c { w.cell c with latch := .shut }) :
    w.Latched ({ w' with freshTicket := w'.freshTicket + 1 }.setCell c
      ((w'.cell c).listened ⟨w'.freshTicket, .latch c⟩)) c where
  phase := by
    rw [cell_of_listened there hw]
    rfl
  latch := by rw [cell_of_listened there hw]
  listeners := by
    rw [cell_of_listened there hw]
    exact (sound c).toList_listened _
  outcome := by
    rw [cell_of_listened there hw]
    rfl
  owner := by
    rw [cell_of_listened there hw]
    rfl
  revokee := by
    rw [cell_of_listened there hw]
    rfl
  label := by
    rw [cell_of_listened there hw]
    rfl
  others d hd := by
    rw [cell_setCell_of_ne (Ne.symm hd)]
    show w'.cell d = _
    rw [hw, cell_setCell_of_ne (Ne.symm hd)]
  size := by
    rw [hw]
    simp [setCell]
  rest := by
    rw [hw]
    rfl

/-- Coming to wait for a pending cell leaves the trace, and then the operation is answered. -/
theorem leads_waitBefore (sound : w.Sound) (there : c < w.cells.size)
    (pending : (w.cell c).isRealized = false) (how : Answering) (stack : List Frame) :
    ∃ n ≤ 1, ∃ w', (Machine.ofMove (w.waitBefore c how) stack).iterate n =
      ⟨w', .ret .unit, .answer how :: stack⟩ ∧ w.Trace w' c := by
  unfold waitBefore
  split
  · next absent =>
    have sound₁ := sound.setCell c ((sound c).marked (w.cell c).label .shut)
    have cell₁ : (w.setCell c { w.cell c with latch := .shut }).cell c = { w.cell c with latch := .shut } := by
      rw [cell_setCell_self there]
    have hstep := subscribe_eq sound₁ c (.latch c)
    have unseen : ((w.setCell c { w.cell c with latch := .shut }).cell c).peek = none := by
      rw [cell₁]
      exact Cell.peek_of_pending pending
    rw [unseen] at hstep
    exact ⟨1, Nat.le_refl 1, _, congrArg (Machine.ofMove · (.answer how :: stack)) hstep,
      .inl ⟨absent, latched_of_listened sound there rfl⟩⟩
  · next present => exact ⟨0, Nat.zero_le 1, w, rfl, .inr ⟨present, rfl⟩⟩

/-- The latch that is left behind is not open if it was not before. -/
theorem Trace.latch_ne_opened (trace : w.Trace w' c) (unopened : (w.cell c).latch ≠ .opened) :
    (w'.cell c).latch ≠ .opened := by
  rcases trace with ⟨-, latched⟩ | ⟨-, rfl⟩
  · rw [latched.latch]
    exact nofun
  · exact unopened

/-! ## Operations that wait

What each operation does at once, before it has to wait: it answers, breaks off for want of an instant, or
comes to stand before the latch.
-/

/-- What is shown of an error does not depend on the names. -/
theorem reportError_named (w : World) (f : Names → Names) (e : Error) :
    (w.named f).reportError e = w.reportError e := by
  fun_induction w.reportError e with
  | case1 cause ih => rw [reportError, ih]
  | case2 cause ih => rw [reportError, ih]
  | case3 cause keys view ih =>
    rw [reportError, ih]
    rfl
  | case4 e notRevoked notCancelled notYank => rw [reportError] <;> assumption

theorem reportOutcome_named (w : World) (f : Names → Names) (o : Outcome) :
    (w.named f).reportOutcome o = w.reportOutcome o := by
  cases o with
  | ok value => cases value <;> rfl
  | error e => exact congrArg OutcomeReport.error (reportError_named w f e)

variable {scope : Scope} {cell as : String} {limit : Duration} {waiter : Waiter} {o : Outcome}

theorem cellOp_named {f : CellId → Lookup Move} (named : w.cell? cell = .ok c) :
    Lookup.orUnknown w (w.cell? cell >>= f) = (f c).orUnknown w := by
  rw [named]
  rfl

theorem cellOp_unknown {f : CellId → Lookup Move} {name : String} (unknown : w.cell? cell = .error name) :
    Lookup.orUnknown w (w.cell? cell >>= f) = w.reply (.unknownName name) := by
  rw [unknown]
  rfl

theorem operate_wait (named : w.cell? cell = .ok c) (guarded : Bool) :
    w.operate scope (.cell (.wait cell guarded)) =
      if guarded && (w.cell c).peek.isNone then w.reply .wouldBlock else w.block c none :=
  cellOp_named named

theorem operate_waitFor (named : w.cell? cell = .ok c) :
    w.operate scope (.cell (.waitFor cell limit)) = w.block c (some limit) := cellOp_named named

theorem operate_startWaiter (named : w.cell? cell = .ok c) :
    w.operate scope (.cell (.startWaiter cell as)) =
      match (w.cell c).peek with
      | none => (w.noteWaiter as (some ⟨c, true⟩)).waitBefore c .nothing
      | some _ => (w.noteWaiter as (some ⟨c, false⟩)).reply .nothing := by
  refine (cellOp_named named).trans ?_
  cases (w.cell c).peek <;> rfl

theorem operate_joinWaiter (known : w.Attends as waiter) : w.operate scope (.cell (.joinWaiter as)) =
    if w.isBlocked waiter then w.reply .wouldBlock else (w.noteWaiter as none).pass waiter.cell := by
  show Lookup.orUnknown w (w.cellOp scope (.joinWaiter as)) = _
  rw [cellOp, known]
  split
  · next unknown => cases unknown
  · next there found =>
    obtain rfl : waiter = there := Option.some.inj found
    cases w.isBlocked waiter <;> rfl

/-- A thread that is not known is not joined. -/
theorem operate_joinWaiter_unknown (unknown : ∀ waiter, ¬w.Attends as waiter) :
    w.operate scope (.cell (.joinWaiter as)) = w.reply .wouldBlock := by
  show Lookup.orUnknown w (w.cellOp scope (.joinWaiter as)) = _
  rw [cellOp]
  split
  · rfl
  · next waiter known =>
    exact absurd (Option.join_eq_some_iff.mp known) (unknown waiter)

/-- Whoever finds an outcome does not wait for it. -/
theorem block_of_stored (limit : Option Duration) (stored : (w.cell c).peek = some o) :
    w.block c limit = w.reply (.outcome (w.reportOutcome o)) := by
  simp only [block, stored]

theorem block_of_unlimited (pending : (w.cell c).peek = none) :
    w.block c none = w.waitBefore c (.waited c none) := by
  simp only [block, pending]

theorem block_of_reached {limit : Duration} (pending : (w.cell c).peek = none) (reached : limit ≤ w.clock.ahead) :
    w.block c (some limit) = w.readClock.waitBefore c (.waited c (some limit)) := by
  simp only [block, pending, if_pos reached]

theorem block_of_beyond {limit : Duration} (pending : (w.cell c).peek = none) (beyond : ¬limit ≤ w.clock.ahead) :
    w.block c (some limit) = w.readClock.raise .beyondClock := by
  simp only [block, pending, if_neg beyond]

theorem answer_waited (w : World) (c : CellId) (limit : Option Duration) (r : Result) :
    w.answer (.waited c limit) r = if (w.cell c).latch = .opened then w.pass c else
      match limit with
      | some after => w.reply (.outcome (w.reportOutcome (.error (.timeout after))))
      | none => ⟨w, .ret r, [.answer (.waited c none)]⟩ := by
  cases limit <;> rfl

theorem pass_of_stored (stored : (w.cell c).peek = some o) :
    w.pass c = w.reply (.outcome (w.reportOutcome o)) := by
  simp only [pass, stored]

/-- An operation that breaks off does not come to stand before the latch. -/
theorem waitBefore_ne_raise (w : World) (c : CellId) (how : Answering) (p : Panic) :
    (w.waitBefore c how).control ≠ .raise p := by
  unfold waitBefore
  split <;> exact nofun

/-- Looking a cell up does not break off. -/
theorem named_of_raise {f : CellId → Lookup Move} {p : Panic}
    (breaks : (Lookup.orUnknown w (w.cell? cell >>= f)).control = .raise p) :
    ∃ c, w.cell? cell = .ok c ∧ ((f c).orUnknown w).control = .raise p := by
  cases named : w.cell? cell with
  | error name =>
    rw [cellOp_unknown named] at breaks
    cases breaks
  | ok c => exact ⟨c, rfl, (cellOp_named named) ▸ breaks⟩

/-- A wait breaks off only if its limit leads past the last instant of the clock. -/
theorem beyond_of_block {limit : Option Duration} {p : Panic} (breaks : (w.block c limit).control = .raise p) :
    p = .beyondClock ∧ (w.cell c).peek = none ∧ ∃ span, limit = some span ∧ ¬span ≤ w.clock.ahead := by
  unfold block at breaks
  split at breaks
  · cases breaks
  · exact absurd breaks (waitBefore_ne_raise w c _ p)
  · next pending =>
    split at breaks
    · exact absurd breaks (waitBefore_ne_raise _ c _ p)
    · next span beyond =>
      cases breaks
      exact ⟨rfl, pending, span, rfl, beyond⟩

/-- A guarded wait does not break off, since it does not begin where it would have to wait. -/
theorem guarded_ne_raise (w : World) (c : CellId) (p : Panic) :
    (if true && (w.cell c).peek.isNone then w.reply .wouldBlock else w.block c none).control ≠ .raise p := by
  cases stored : (w.cell c).peek with
  | none => exact nofun
  | some o =>
    rw [block_of_stored none stored]
    exact nofun

/-- Starting to wait does not break off. -/
theorem startWaiter_ne_raise (w : World) (scope : Scope) (cell as : String) (p : Panic) :
    (w.operate scope (.cell (.startWaiter cell as))).control ≠ .raise p := by
  intro breaks
  obtain ⟨c, named, -⟩ := named_of_raise breaks
  rw [operate_startWaiter named] at breaks
  cases stored : (w.cell c).peek with
  | none =>
    rw [stored] at breaks
    exact waitBefore_ne_raise _ c _ p breaks
  | some o =>
    rw [stored] at breaks
    cases breaks

/-! ## Threads that are known

A thread that was started is known by its name until it is joined. It found its cell realized, or it stands
before the latch, which no other operation changes.
-/

theorem attends_of_noteWaiter {name : String} {noted : Option Waiter}
    (h : (w.noteWaiter name noted).Attends as waiter) : noted = some waiter ∨ w.Attends as waiter := by
  have found : (w.names.waiters.insert name noted).get? as = some (some waiter) := h
  rw [OrderedMap.get?_insert] at found
  split at found
  · exact .inl (Option.some.inj found)
  · exact .inr found

/-- Whoever is known after a thread was started was known before, or is that thread and in its place. -/
theorem attends_startWaiter (within : w.Within w.extent) {name : String}
    (h : (w.operate scope (.cell (.startWaiter cell name))).world.Attends as waiter) :
    w.Attends as waiter ∨ waiter.Placed (w.operate scope (.cell (.startWaiter cell name))).world := by
  cases named : w.cell? cell with
  | error unknown =>
    have hop : w.operate scope (.cell (.startWaiter cell name)) = w.reply (.unknownName unknown) :=
      cellOp_unknown named
    rw [hop] at h
    exact .inl h
  | ok c =>
    rw [operate_startWaiter named] at h ⊢
    cases hp : (w.cell c).peek with
    | none =>
      simp only [hp] at h ⊢
      rw [Attends, names_waitBefore] at h
      rcases attends_of_noteWaiter h with noted | known
      · cases noted
        exact .inr ⟨nofun, fun _ => latch_waitBefore (w := w.noteWaiter name _) (cell?_lt within named) _⟩
      · exact .inl known
    | some o =>
      simp only [hp] at h ⊢
      rcases attends_of_noteWaiter h with noted | known
      · cases noted
        exact .inr ⟨fun _ => Cell.isRealized_of_peek hp, nofun⟩
      · exact .inl known

/-- Joining a thread makes nobody known. -/
theorem attends_joinWaiter {name : String}
    (h : (w.operate scope (.cell (.joinWaiter name))).world.Attends as waiter) : w.Attends as waiter := by
  by_cases joined : ∃ waiter, w.Attends name waiter
  · obtain ⟨there, known⟩ := joined
    rw [operate_joinWaiter known] at h
    split at h
    · exact h
    · rw [Attends, names_pass] at h
      exact (attends_of_noteWaiter h).resolve_left nofun
  · rwa [operate_joinWaiter_unknown (not_exists.mp joined)] at h

/-- Whoever is known after a thread was started or joined was known before, or is in its place. -/
theorem attends_operate (within : w.Within w.extent) {op : Op} (attends : op.attends = true)
    (h : (w.operate scope op).world.Attends as waiter) :
    w.Attends as waiter ∨ waiter.Placed (w.operate scope op).world := by
  cases op with
  | cell op => cases op with
    | startWaiter => exact attends_startWaiter within h
    | joinWaiter => exact .inl (attends_joinWaiter h)
    | _ => cases attends
  | _ => cases attends

end World

namespace Waiter.Placed

variable {waiter : Waiter} {m : Machine} {w : World}

theorem step (h : waiter.Placed m.world) (sound : m.world.Sound) : waiter.Placed m.step.world where
  passed free := Machine.isRealized_step sound (h.passed free)
  stands blocked := Machine.latch_ne_absent_step sound (h.stands blocked)

/-- Where those who wait are let pass, so is each of them. -/
theorem not_blocked (h : waiter.Placed w) (admits : w.Admits waiter.cell) : w.isBlocked waiter = false := by
  cases blocked : waiter.blocked with
  | false => simp [World.isBlocked, blocked]
  | true => cases latch : (w.cell waiter.cell).latch with
    | absent => exact absurd latch (h.stands blocked)
    | shut => exact absurd latch admits.2
    | opened => simp [World.isBlocked, latch]

end Waiter.Placed

namespace Machine

variable {m : Machine} {w : World} {c : CellId} {as : String} {limit : Option Duration} {waiter : Waiter}
  {o : Outcome}

theorem step_op {op : Op} {scope : Scope} (call : m.control = .call (.op op scope)) :
    m.step = ofMove (m.world.operate scope op) m.stack := step_call call

/-- Waiting for a realized cell. -/
theorem Waits.step_of_stored (h : m.Waits c limit) (stored : (m.world.cell c).peek = some o) :
    m.step = ⟨m.world, .ret (.reply (.outcome (m.world.reportOutcome o))), m.stack⟩ := by
  cases h with
  | wait call named =>
    rw [step_op call, World.operate_wait named, World.block_of_stored none stored]
    rfl
  | waitFor call named =>
    rw [step_op call, World.operate_waitFor named, World.block_of_stored _ stored]
    rfl

/-- Coming to stand before the latch takes two steps at most. -/
theorem stands_of_waitBefore {how : Answering} (hstep : m.step = ofMove (w.waitBefore c how) m.stack)
    (sound : w.Sound) (there : c < w.cells.size) (pending : (w.cell c).isRealized = false) :
    ∃ n ≤ 2, ∃ w', m.iterate n = ⟨w', .ret .unit, .answer how :: m.stack⟩ ∧ w.Trace w' c := by
  obtain ⟨n, hn, w', hw', trace⟩ := World.leads_waitBefore sound there pending how m.stack
  refine ⟨n + 1, by omega, w', ?_, trace⟩
  rw [iterate, hstep, hw']

/-- A machine that a step leaves as it is stays so. -/
theorem iterate_of_fixed (fixed : m.step = m) (n : ℕ) : m.iterate n = m := by
  induction n with
  | zero => rfl
  | succ n ih => rw [iterate, fixed, ih]

theorem step_answer {r : Result} {how : Answering} {rest : List Frame} (control : m.control = .ret r)
    (stack : m.stack = .answer how :: rest) : m.step = ofMove (m.world.answer how r) rest := by
  unfold step
  rw [control, stack]
  rfl

/-- A call before a latch that is not open, when its time is over. -/
theorem AtLatch.step_of_limited {after : Duration} {rest : List Frame} (h : m.AtLatch c (some after) rest)
    (unopened : (m.world.cell c).latch ≠ .opened) :
    m.step = ⟨m.world, .ret (.reply (.outcome (.error (.mk (.timeout after) none none)))), rest⟩ := by
  obtain ⟨r, control, stack⟩ := h
  rw [step_answer control stack, World.answer_waited, if_neg unopened]
  rfl

/-- A call before a latch that is not open, when it may take as long as it takes. -/
theorem AtLatch.step_of_unlimited {rest : List Frame} (h : m.AtLatch c none rest)
    (unopened : (m.world.cell c).latch ≠ .opened) : m.step = m := by
  obtain ⟨world, control, stack⟩ := m
  obtain ⟨r, rfl, rfl⟩ := h
  rw [step_answer rfl rfl, World.answer_waited, if_neg unopened]
  rfl

/-- A call before an open latch. -/
theorem AtLatch.step_of_opened {rest : List Frame} (h : m.AtLatch c limit rest)
    (opened : (m.world.cell c).latch = .opened) (stored : (m.world.cell c).peek = some o) :
    m.step = ⟨m.world, .ret (.reply (.outcome (m.world.reportOutcome o))), rest⟩ := by
  obtain ⟨r, control, stack⟩ := h
  rw [step_answer control stack, World.answer_waited, if_pos opened, World.pass_of_stored stored]
  rfl

end Machine

namespace History

variable {capacity : ℕ} {m x : Machine} {past : List Machine} {c : CellId} {o : Outcome} {as : String}
  {waiter : Waiter}

/-- Every thread that waits found its cell realized, or stands before the latch. -/
theorem waiter_placed (h : History capacity m past) (known : m.world.Attends as waiter) :
    waiter.Placed m.world := by
  induction h with
  | start => cases known
  | @step m past before busy ih =>
    rcases m.waiters_step with same | ⟨op, scope, call, attends⟩
    · rw [World.Attends, same] at known
      exact (ih known).step before.sound
    · have hstep : m.step.world = (m.world.operate scope op).world :=
        congrArg Machine.world (Machine.step_op call)
      rw [hstep] at known
      rcases World.attends_operate before.grounded.world attends known with known | placed
      · exact (ih known).step before.sound
      · rwa [hstep]
  | enter before rest thread log outside ih => exact ⟨(ih known).passed, (ih known).stands⟩

/-- Whoever is not held back finds an outcome. -/
theorem stored_of_not_blocked (h : History capacity m past) (known : m.world.Attends as waiter)
    (free : m.world.isBlocked waiter = false) : ∃ o, (m.world.cell waiter.cell).peek = some o := by
  apply World.peek_of_isRealized h.sound
  cases blocked : waiter.blocked with
  | false => exact (h.waiter_placed known).passed blocked
  | true =>
    apply h.realized_of_opened
    simpa [World.isBlocked, blocked] using free

/-- A completion that is accepted comes back, and holds back nobody who has come to wait, as long as the sink
returns. -/
theorem opens_of_accepted (h : History capacity m past) {a : Authority}
    (call : m.control = .call (.complete c o a)) (accepted : m.world.refusal? c a = none) {n : ℕ}
    (sink : ∀ k < n, ((⟨m.world, m.control, []⟩ : Machine).iterate k).SinkReturns)
    (rest : ((⟨m.world, m.control, []⟩ : Machine).iterate n).atRest = true) :
    ∃ w' r, m.Leads ⟨w', .ret r, m.stack⟩ ∧ m.world.Wakes w' c o ∧
      ∀ as waiter, m.world.Attends as waiter → waiter.cell = c → w'.isBlocked waiter = false := by
  have wakes := h.wakes_of_accepted call accepted sink rest
  have placed {as : String} {waiter : Waiter} (known : m.world.Attends as waiter) :=
    Machine.iterate_kept (P := waiter.Placed) (m := ⟨m.world, m.control, []⟩) h.sound h.tablesSound
      (h.waiter_placed known) (fun sound _ placed => placed.step sound) n
  rw [call] at sink rest wakes placed
  -- A completion is calm, so that it breaks off only if the sink does.
  rcases Machine.eq_of_atRest rest with ⟨r, ends⟩ | ⟨p, ends⟩
  · have performs : m.world.Performs (.complete c o a) _ (.ret r) := ⟨rfl, n, ends⟩
    refine ⟨_, r, ?_, wakes, ?_⟩
    · obtain ⟨w, control, stack⟩ := m
      obtain rfl : control = _ := call
      exact performs.reaches stack
    · rintro as waiter known rfl
      exact (placed known).not_blocked wakes.admits
  · exact absurd ends (Machine.calm_not_raise h.sound rfl sink)

/-- The latch of a pending cell is not open. -/
theorem unopened_of_pending (h : History capacity m past) (pending : (m.world.cell c).isRealized = false) :
    (m.world.cell c).latch ≠ .opened := by
  intro opened
  rw [h.realized_of_opened opened] at pending
  cases pending

theorem leads_of_timeout (h : History capacity m past) {limit : Duration} (waits : m.Waits c (some limit))
    (pending : (m.world.cell c).isRealized = false) (reached : limit ≤ m.world.clock.ahead) :
    ∃ n ≤ 3, ∃ w', m.iterate n =
      ⟨w', .ret (.reply (.outcome (.error (.mk (.timeout limit) none none)))), m.stack⟩ ∧
        m.world.readClock.Trace w' c := by
  cases waits with
  | waitFor call named =>
    have there := World.cell?_lt h.grounded.world named
    have hstep := Machine.step_op call
    rw [World.operate_waitFor named, World.block_of_reached (Cell.peek_of_pending pending) reached] at hstep
    obtain ⟨n, hn, w', hw', trace⟩ :=
      Machine.stands_of_waitBefore hstep (h.sound.of_cells_eq rfl) there pending
    refine ⟨n + 1, by omega, w', ?_, trace⟩
    have stands : (m.iterate n).AtLatch c (some limit) m.stack := by
      rw [hw']
      exact ⟨.unit, rfl, rfl⟩
    have unopened : ((m.iterate n).world.cell c).latch ≠ .opened := by
      rw [hw']
      exact trace.latch_ne_opened (h.unopened_of_pending pending)
    rw [Machine.iterate_succ, stands.step_of_limited unopened, hw']

/-- A limit that leads past the last instant of the clock. -/
theorem step_of_beyond {limit : Duration} (waits : m.Waits c (some limit))
    (pending : (m.world.cell c).isRealized = false) (beyond : ¬limit ≤ m.world.clock.ahead) :
    m.step = ⟨m.world.readClock, .raise .beyondClock, m.stack⟩ := by
  cases waits with
  | waitFor call named =>
    rw [Machine.step_op call, World.operate_waitFor named,
      World.block_of_beyond (Cell.peek_of_pending pending) beyond]
    rfl

/-- A wait without a limit comes to stand before the latch, and stays there. -/
theorem blocks_of_wait (h : History capacity m past) (waits : m.Waits c none)
    (pending : (m.world.cell c).isRealized = false) : ∃ n ≤ 2, ∃ w', m.world.Trace w' c ∧
      ∀ k, n ≤ k → m.iterate k = ⟨w', .ret .unit, .answer (.waited c none) :: m.stack⟩ := by
  cases waits with
  | wait call named =>
    have there := World.cell?_lt h.grounded.world named
    have hstep := Machine.step_op call
    rw [World.operate_wait named, World.block_of_unlimited (Cell.peek_of_pending pending)] at hstep
    obtain ⟨n, hn, w', hw', trace⟩ := Machine.stands_of_waitBefore hstep h.sound there pending
    refine ⟨n, hn, w', trace, ?_⟩
    intro k hk
    have stands : (⟨w', .ret .unit, .answer (.waited c none) :: m.stack⟩ : Machine).AtLatch c none m.stack :=
      ⟨.unit, rfl, rfl⟩
    obtain ⟨k, rfl⟩ := Nat.exists_eq_add_of_le hk
    rw [Machine.iterate_add, hw']
    apply Machine.iterate_of_fixed
    exact stands.step_of_unlimited (trace.latch_ne_opened (h.unopened_of_pending pending))

theorem leads_of_startsWaiter (h : History capacity m past) (starts : m.StartsWaiter c as)
    (pending : (m.world.cell c).isRealized = false) :
    ∃ n ≤ 3, ∃ w', m.iterate n = ⟨w', .ret (.reply .nothing), m.stack⟩ ∧
      (m.world.noteWaiter as (some ⟨c, true⟩)).Trace w' c := by
  obtain ⟨cell, scope, call, named⟩ := starts
  have there := World.cell?_lt h.grounded.world named
  have hstep := Machine.step_op call
  rw [World.operate_startWaiter named, Cell.peek_of_pending pending] at hstep
  obtain ⟨n, hn, w', hw', trace⟩ :=
    Machine.stands_of_waitBefore hstep (h.sound.of_cells_eq rfl) there pending
  refine ⟨n + 1, by omega, w', ?_, trace⟩
  rw [Machine.iterate_succ, hw']
  rfl

theorem step_of_joined (h : History capacity m past) (joins : m.JoinsWaiter as waiter)
    (free : m.world.isBlocked waiter = false) : ∃ o, (m.world.cell waiter.cell).peek = some o ∧
      m.step = ⟨m.world.noteWaiter as none, .ret (.reply (.outcome (m.world.reportOutcome o))), m.stack⟩ := by
  obtain ⟨scope, call, known⟩ := joins
  obtain ⟨o, stored⟩ := h.stored_of_not_blocked known free
  refine ⟨o, stored, ?_⟩
  have stored' : ((m.world.noteWaiter as none).cell waiter.cell).peek = some o := stored
  rw [Machine.step_op call, World.operate_joinWaiter known, free, World.pass_of_stored stored',
    World.noteWaiter, World.reportOutcome_named]
  rfl

theorem step_of_held (joins : m.JoinsWaiter as waiter) (blocked : m.world.isBlocked waiter = true) :
    m.step = ⟨m.world, .ret (.reply .wouldBlock), m.stack⟩ := by
  obtain ⟨scope, call, known⟩ := joins
  rw [Machine.step_op call, World.operate_joinWaiter known, if_pos blocked]
  rfl

theorem join_ne_raise (h : History capacity m past) {scope : Scope}
    (call : m.control = .call (.op (.cell (.joinWaiter as)) scope)) (p : Panic) :
    m.step.control ≠ .raise p := by
  by_cases joined : ∃ waiter, m.world.Attends as waiter
  · obtain ⟨waiter, known⟩ := joined
    cases blocked : m.world.isBlocked waiter with
    | true =>
      rw [step_of_held ⟨scope, call, known⟩ blocked]
      exact nofun
    | false =>
      obtain ⟨o, -, hstep⟩ := h.step_of_joined ⟨scope, call, known⟩ blocked
      rw [hstep]
      exact nofun
  · rw [Machine.step_op call, World.operate_joinWaiter_unknown (not_exists.mp joined)]
    exact nofun

/-- An operation that waits breaks off only for want of an instant. -/
theorem beyond_of_raise (h : History capacity m past) {op : Op} {scope : Scope}
    (call : m.control = .call (.op op scope)) (waits : op.waits = true) {p : Panic}
    (breaks : m.step.control = .raise p) : p = .beyondClock ∧ ∃ c limit, m.Waits c (some limit) ∧
      (m.world.cell c).isRealized = false ∧ ¬limit ≤ m.world.clock.ahead := by
  have hstep := congrArg Machine.control (Machine.step_op call)
  rw [breaks] at hstep
  cases op with
  | cell op => cases op with
    | wait cell guarded =>
      obtain ⟨c, named, breaks'⟩ := World.named_of_raise hstep.symm
      cases guarded with
      | true => exact absurd breaks' (World.guarded_ne_raise _ c p)
      | false =>
        obtain ⟨-, -, span, limited, -⟩ := World.beyond_of_block breaks'
        cases limited
    | waitFor cell limit =>
      obtain ⟨c, named, breaks'⟩ := World.named_of_raise hstep.symm
      obtain ⟨rfl, unseen, span, limited, beyond⟩ := World.beyond_of_block breaks'
      cases limited
      exact ⟨rfl, c, limit, .waitFor call named, World.pending_of_peek h.sound unseen, beyond⟩
    | startWaiter cell as => exact absurd hstep.symm (World.startWaiter_ne_raise _ _ cell as p)
    | joinWaiter as => exact absurd breaks (h.join_ne_raise call p)
    | _ => cases waits
  | _ => cases waits

/-- **Waiting leaves one trace and loses no wake-up**, at every machine of every run. -/
theorem wakes_waiters (h : History capacity m past) : WakesWaiters m past where
  once c := (h.latchStands c).latches_eq
  listed c pending := by rw [h.listeners_eq pending, latches]
  atOnce c limit o waits stored := waits.step_of_stored stored
  late c as o starts stored := by
    obtain ⟨cell, scope, call, named⟩ := starts
    rw [Machine.step_op call, World.operate_startWaiter named, stored]
    rfl
  timesOut c limit := h.leads_of_timeout
  beyond c limit := step_of_beyond
  blocks c := h.blocks_of_wait
  passes c limit rest stands opened := by
    obtain ⟨o, stored⟩ := World.peek_of_isRealized h.sound (h.realized_of_opened opened)
    exact ⟨o, stored, stands.step_of_opened opened stored⟩
  expires c limit rest stands := stands.step_of_limited
  stays c rest stands := stands.step_of_unlimited
  started c as := h.leads_of_startsWaiter
  guarded c waits := by
    obtain ⟨cell, scope, call, named⟩ := waits
    rw [Machine.step_op call, World.operate_wait named]
    cases stored : (m.world.cell c).peek with
    | none => rfl
    | some o =>
      rw [World.block_of_stored none stored]
      rfl
  opens c o a call accepted n := h.opens_of_accepted call accepted
  settled rest sink c := by
    refine h.admits_of_atRest rest fun x hx s _ lost => ?_
    rw [h.lost_eq_nil sink x hx] at lost
    cases lost
  woken x hx as waiter o admits stored joins := by
    obtain ⟨scope, call, known⟩ := joins
    have free := (h.waiter_placed known).not_blocked (h.admits_later hx admits)
    obtain ⟨o', stored', hstep⟩ := h.step_of_joined ⟨scope, call, known⟩ free
    obtain rfl := Option.some.inj ((h.peek_later hx stored).symm.trans stored')
    exact hstep
  joined as waiter := h.step_of_joined
  held as waiter := step_of_held
  unbroken op scope call waits p := h.beyond_of_raise call waits

end History

/-- A run in which a thread stands before the latch of a cell, behind a listener that breaks off, after a wait that
broke off for want of an instant and one that was over, and is joined when the cell has been completed. -/
theorem wakes_waiters_of_blocked : ∃ m past, History 8 m past ∧
    (∃ x ∈ past, x.control = .raise .beyondClock) ∧
    (∃ x ∈ past, x.world.Attends "t" ⟨0, true⟩ ∧ x.world.isBlocked ⟨0, true⟩ = true) ∧
    m.JoinsWaiter "t" ⟨0, true⟩ ∧ m.world.isBlocked ⟨0, true⟩ = false ∧ WakesWaiters m past := by
  let failing : Script := [.fault (.panic .foreign)]
  have empty : History 8 _ _ := .start
  have created := (empty.enter rfl {} [] (.operate (.cell (.create "c")))).step rfl
  have listened := (created.enter rfl {} []
    (.operate (.cell (.listen "c" "heard" failing [])))).steps 3 (by decide +kernel)
  have endless := (listened.enter (by decide +kernel) {} []
    (.operate (.cell (.waitFor "c" .longest)))).step rfl
  have waited := (endless.enter (by decide +kernel) {} []
    (.operate (.cell (.waitFor "c" { nanoseconds := 0 })))).steps 3 (by decide +kernel)
  have started := (waited.enter (by decide +kernel) {} []
    (.operate (.cell (.startWaiter "c" "t")))).steps 2 (by decide +kernel)
  have completed := (started.enter (by decide +kernel) {} []
    (.operate (.cell (.complete "c" (.ok (.constant 7)))))).steps 18 (by decide +kernel)
  have joining := completed.enter (by decide +kernel) {} [] (.operate (.cell (.joinWaiter "t")))
  refine ⟨_, _, joining, ⟨_, List.mem_cons_of_mem _ (List.mem_append_right _ (List.mem_cons_of_mem _
    (List.mem_append_right _ (List.mem_cons_of_mem _ (List.mem_append_right _ List.mem_cons_self))))), rfl⟩,
    ⟨_, List.mem_cons_of_mem _ (List.mem_append_left _ (List.mem_append_right _
      (List.mem_singleton_self _))), ?known, ?blocked⟩, ⟨{}, rfl, ?there⟩, ?free, joining.wakes_waiters⟩
  case known => decide +kernel
  case blocked => decide +kernel
  case there => decide +kernel
  case free => decide +kernel

end RequestGraph
