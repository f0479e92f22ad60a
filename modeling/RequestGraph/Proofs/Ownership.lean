import RequestGraph.Proofs.Engine.Ending
import RequestGraph.Proofs.Engine.Flow
import RequestGraph.Proofs.Engine.History

/-!
# Ownership

A pending cell that is bound to a token is completed by that token only. A token reaches the call that
completes the cell along many ways: directly, or with a forward that waits for its source in the list of
some other cell, is taken out there, and is handed from frame to frame. Wherever it is on its way, an
operation that presented it, or a node that broke off under its claim, stands at the beginning:

    m carries t for c   →   some machine before m presents t to c
-/

namespace RequestGraph

/-! ## Tokens on their way

A token may rest for a long time, as part of a listener that waits with the source of a forward. So it is on
its way not only while a call hands it on, but also while some listener that has it is outstanding.
-/

/-- The cell and the token of a listener that completes a cell with a token. -/
def Listener.presents : Listener → Option (CellId × Token)
  | .forward c (some t) => some (c, t)
  | _ => none

/-- The cell and the token that a call hands on. -/
def Call.carries : Call → Option (CellId × Token)
  | .subscribe _ l | .tell l _ => l.presents
  | c => c.presents

/-- The cell and the token that are handed on next. -/
def Control.carries : Control → Option (CellId × Token)
  | .call c => c.carries
  | _ => none

namespace Machine

/-- A token is on its way to a cell: it is handed on next, or waits with an outstanding listener. -/
def Carries (m : Machine) (c : CellId) (t : Token) : Prop :=
  m.control.carries = some (c, t) ∨ ∃ s ∈ m.outstanding, s.listener.presents = some (c, t)

/-- A token is presented to a cell: by an operation, or because a node breaks off under its claim. -/
inductive Presents (m : Machine) (c : CellId) (t : Token) : Prop
  | operation {scope : Scope} {op : Op} (call : m.control = .call (.op op scope))
      (presents : m.world.Presents scope op c t) : Presents m c t
  | node {p : Panic} {frames : List Frame} (breaks : m.control = .raise p)
      (guard : m.stack = .guarding ⟨c, t⟩ :: frames) : Presents m c t

end Machine

/-! ## One step

No step makes a token up: it was on its way before, or the operation that runs presents it, or a node breaks
off under its claim.
-/

/-- Calls that an operation enters carry no token, unless it presents one. -/
theorem Call.carries_of_isEntry {c : Call} (h : c.isEntry = true) : c.carries = none := by
  cases c with
  | complete c o a =>
      cases a with
      | unowned => rfl
      | presenting p =>
          cases p with
          | none => rfl
          | some t => cases h
  | forward target source token =>
      cases token with
      | none => rfl
      | some t => cases h
  | subscribe c l => cases l <;> first | rfl | cases h
  | _ => first | rfl | cases h

theorem Control.carries_of_not_isCall {e : Control} (h : e.isCall = false) : e.carries = none := by
  cases e <;> first | rfl | cases h

/-- An operation carries a token to a cell only if it presents it. -/
theorem Operated.carries {w : World} {scope : Scope} {op : Op} {mv : Move} {c : CellId} {t : Token}
    (h : Operated w scope op mv) (hc : mv.control.carries = some (c, t)) :
    w.Presents scope op c t := by
  cases h with
  | entered _ entry =>
      have : _ = none := Call.carries_of_isEntry entry
      rw [Control.carries, this] at hc
      cases hc
  | @presented _ call _ _ _ _ grant presents =>
      have hcarries : call.carries = call.presents := by
        cases call <;> first | rfl | cases presents
      rw [Control.carries, hcarries, presents] at hc
      cases hc
      exact grant
  | answered _ ends => exact nomatch (Control.carries_of_not_isCall ends).symm.trans hc
  | interned _ ends => exact nomatch (Control.carries_of_not_isCall ends).symm.trans hc
  | froze _ ends => exact nomatch (Control.carries_of_not_isCall ends).symm.trans hc
  | _ => cases hc

namespace World

variable {w : World} {c : CellId} {t : Token}

/-- A call hands a token on that it has, that its listener has, or that is presented. -/
theorem carries_invoke (h : w.Sound) {call : Call}
    (hc : (w.invoke call).control.carries = some (c, t)) :
    call.carries = some (c, t) ∨
      (∃ s o, call = .notify s o ∧ s.listener.presents = some (c, t)) ∨
      ∃ op scope, call = .op op scope ∧ w.Presents scope op c t := by
  have hspec := invoke_spec h call
  generalize w.invoke call = mv at hspec hc
  -- Only three kinds of calls hand a token on: those that carry it already, a listener that presents its
  -- own, and an operation.
  cases hspec with
  | operated hop => exact .inr (.inr ⟨_, _, rfl, hop.carries hc⟩)
  | notifying => exact .inr (.inl ⟨_, _, rfl, hc⟩)
  | relayed =>
      rename_i target token o
      cases token with
      | none => cases hc
      | some t => exact .inl hc
  | presented => exact .inl hc
  | forwarded =>
      rename_i target source token o
      cases token with
      | none => cases hc
      | some t => exact .inl hc
  | awaitingSource =>
      rename_i target c token
      cases token with
      | none => cases hc
      | some t => exact .inl hc
  | fetchedNew _ _ _ starts => cases starts <;> cases hc
  | _ => cases hc

/-- No token is made up when a script goes on. -/
theorem carries_resume (frame : Frame) (r : Result) : (w.resume frame r).control.carries = none := by
  have hspec := w.resume_spec frame r
  generalize w.resume frame r = mv at hspec
  cases hspec <;> rfl

/-- A panic that comes through to the frame of a node offers its claim. -/
theorem carries_unwind {frame : Frame} {p : Panic}
    (hc : (w.unwind frame p).control.carries = some (c, t)) : frame = .guarding ⟨c, t⟩ := by
  cases frame with
  | guarding claim =>
      cases hc
      rfl
  | _ => cases hc

end World

namespace Machine

variable {m : Machine} {c : CellId} {t : Token}

/-- A token that is carried was carried before the step, or it is presented by it. -/
theorem Carries.of_step (h : m.world.Sound) (hc : m.step.Carries c t) :
    m.Carries c t ∨ m.Presents c t := by
  rcases hc with hcontrol | ⟨s, hs, hpresents⟩
  · obtain ⟨w, control, stack⟩ := m
    cases control with
    | call call =>
        rcases World.carries_invoke h hcontrol with hcall | ⟨s, o, rfl, hs⟩ | ⟨op, scope, rfl, hop⟩
        · exact .inl (.inl hcall)
        · refine .inl (.inr ⟨s, ?_, hs⟩)
          exact List.mem_append_right _ (List.mem_append_left _ (List.mem_singleton_self s))
        · exact .inr (.operation rfl hop)
    | ret r =>
        cases stack with
        | nil => exact nomatch hcontrol
        | cons frame stack =>
            have hnone := World.carries_resume (w := w) frame r
            exact nomatch hnone.symm.trans hcontrol
    | raise p =>
        cases stack with
        | nil => exact nomatch hcontrol
        | cons frame stack =>
            have := World.carries_unwind hcontrol
            exact .inr (.node rfl (by rw [this]))
  · -- A listener on its way was on its way before, or has just been registered.
    have hmem : s ∈ m.outstanding ++ m.registered :=
      (step_outstanding h).subset (List.mem_append_left _ hs)
    rcases List.mem_append.mp hmem with hs | hs
    · exact .inl (.inr ⟨s, hs, hpresents⟩)
    · refine .inl (.inl ?_)
      unfold registered at hs
      split at hs
      · next d l call =>
          split at hs
          · obtain rfl := List.mem_singleton.mp hs
            rw [call]
            exact hpresents
          · cases hs
      · cases hs

end Machine

/-! ## Whole runs

The induction is on the history. A history begins with no listeners and no call, so a token on its way must
have been presented somewhere.
-/

namespace History

variable {capacity : Nat} {m : Machine} {past : List Machine} {c : CellId} {t : Token}

/-- A token that is on its way was presented before. -/
theorem presented_of_carries (h : History capacity m past) (hc : m.Carries c t) :
    ∃ x ∈ past, x.Presents c t := by
  induction h with
  | start =>
      rcases hc with hc | ⟨s, hs, -⟩
      · cases hc
      · cases hs
  | @step m past before busy ih =>
      rcases hc.of_step before.sound with hc | hp
      · obtain ⟨x, hx, hpresents⟩ := ih hc
        exact ⟨x, List.mem_cons_of_mem _ hx, hpresents⟩
      · exact ⟨m, List.mem_cons_self, hp⟩
  | @enter m past before rest thread log call outside ih =>
      have hrest := (Machine.atRest_iff.mp rest).1
      have hc' : m.Carries c t := by
        rcases hc with hc | ⟨s, hs, hpresents⟩
        · cases outside <;> cases hc
        · refine .inr ⟨s, ?_, hpresents⟩
          have : s ∈ m.world.listeners := by
            rcases List.mem_append.mp hs with hs | hs
            · exact hs
            · cases outside <;> cases hs
          exact List.mem_append_left _ this
      obtain ⟨x, hx, hpresents⟩ := ih hc'
      exact ⟨x, List.mem_cons_of_mem _ hx, hpresents⟩

end History

/-! ## Completions that are refused

The other direction: whether a completion is refused, and with which answer, depends on the owner of the
cell and on what is presented, and on nothing else. A refusal leaves the world as it was.
-/

/-- How the token that a strict completion presents, or does not, disagrees with the owner. -/
inductive Disagrees : Option Token → Option Token → OwnershipError → Prop
  | superfluous {t : Token} : Disagrees none (some t) .superfluous
  | missing {t : Token} : Disagrees (some t) none .missing
  | mismatch {t u : Token} (ne : t ≠ u) : Disagrees (some t) (some u) .mismatch

/-- Presenting is a violation if the owner and what is presented disagree, in one of three ways. -/
theorem violation?_presenting {owner presented : Option Token} {e : OwnershipError} :
    Cell.violation? owner (.presenting presented) = some (some e) ↔ Disagrees owner presented e := by
  constructor
  · intro h
    cases owner with
    | none => cases presented with
      | none => cases h
      | some t => cases h; exact .superfluous
    | some o => cases presented with
      | none => cases h; exact .missing
      | some t =>
          simp only [Cell.violation?] at h
          split at h
          · cases h
          · next ne => cases h; exact .mismatch ne
  · intro h
    cases h with
    | superfluous => rfl
    | missing => rfl
    | mismatch ne => simp [Cell.violation?, ne]

/-- An owned cell is only completed by presenting its token. -/
theorem violation?_owned {t : Token} {a : Authority} (h : Cell.violation? (some t) a = none) :
    a = .presenting (some t) := by
  cases a with
  | unowned => cases h
  | presenting p => cases p with
    | none => cases h
    | some u =>
        simp only [Cell.violation?] at h
        split at h
        · next heq => rw [heq]
        · cases h

namespace World

variable {w w' : World} {c : CellId} {o : Outcome} {a : Authority}

/-- A delivery that comes back says that the completion was accepted. -/
theorem verdict_of_deliver {ls : List Subscription} {revokee : Option CellId} {r : Result}
    (h : w.Performs (.deliver ls revokee o) w' (.ret r)) : r = .verdict (.ok true) := by
  induction ls generalizing w with
  | nil =>
      cases revokee with
      | none => exact Control.ret.inj ((performs_end rfl rfl).mp h).2
      | some d =>
          obtain ⟨w₁, e₁, revokes, ends⟩ := (performs_call rfl).mp h
          cases e₁ with
          | call => exact nomatch revokes.1
          | ret r₁ =>
              have hrest := (Machine.ends_of_atRest rfl).mp (Machine.ends_iff_step.mp ends)
              exact (Control.ret.inj (congrArg Machine.control hrest)).symm
          | raise p =>
              have hrest := (Machine.ends_of_atRest rfl).mp (Machine.ends_iff_step.mp ends)
              exact nomatch congrArg Machine.control hrest
  | cons s rest ih =>
      obtain ⟨w₁, e₁, notifies, ends⟩ := (performs_call rfl).mp h
      cases e₁ with
      | call => exact nomatch notifies.1
      | ret r₁ => exact ih (Machine.ends_iff_step.mp ends)
      | raise p =>
          have hrest := (Machine.ends_of_atRest rfl).mp (Machine.ends_iff_step.mp ends)
          exact nomatch congrArg Machine.control hrest

/-- A completion that is refused has one end, which has changed nothing. -/
theorem performs_of_refusal (h : w.Sound) {v : Verdict} (hv : w.refusal? c a = some v)
    {e : Control} : w.Performs (.complete c o a) w' e ↔ w' = w ∧ e = .ret (.verdict v) :=
  performs_end (complete_of_refusal h hv) rfl

/-- A completion answers with an error only if its cell refuses it with that error. -/
theorem performs_complete_error (h : w.Sound) {e : OwnershipError} :
    w.Performs (.complete c o a) w' (.ret (.verdict (.error e))) ↔
      w' = w ∧ w.refusal? c a = some (.error e) := by
  cases hv : w.refusal? c a with
  | some v =>
      rw [performs_of_refusal h hv]
      constructor
      · rintro ⟨hw, hret⟩
        cases hret
        exact ⟨hw, rfl⟩
      · rintro ⟨hw, hret⟩
        cases hret
        exact ⟨hw, rfl⟩
  | none =>
      rw [performs_tail (complete_of_accepted h hv)]
      constructor
      · intro hp
        exact nomatch verdict_of_deliver hp
      · rintro ⟨-, hret⟩
        cases hret

/-- A realized cell refuses quietly, whatever is presented. -/
theorem refusal?_realized (hr : (w.cell c).isRealized = true) : w.refusal? c a = some (.ok false) := by
  rw [refusal?, if_pos hr]

/-- A pending cell answers with an error if owner and token disagree. -/
theorem refusal?_error {p : Option Token} {e : OwnershipError} :
    w.refusal? c (.presenting p) = some (.error e) ↔
      (w.cell c).isRealized = false ∧ Disagrees (w.cell c).owner p e := by
  rw [← violation?_presenting, refusal?]
  split
  · next hr =>
      constructor
      · intro h
        cases h
      · rintro ⟨hp, -⟩
        rw [hp] at hr
        cases hr
  · next hr =>
      have hp := Bool.eq_false_iff.mpr hr
      split
      · next heq => simp [heq]
      · next heq => simp [heq, hp]
      · next heq => simp [heq]

/-- A completion in nobody's name leaves an owned cell alone, quietly. -/
theorem refusal?_quiet (hp : (w.cell c).isRealized = false) (howned : (w.cell c).owner ≠ none) :
    w.refusal? c .unowned = some (.ok false) := by
  obtain ⟨t, ht⟩ := Option.ne_none_iff_exists'.mp howned
  simp [refusal?, hp, Cell.violation?, ht]

/-- What is realized or violates ownership is refused. -/
theorem refusal?_isSome
    (h : (w.cell c).isRealized = true ∨ Cell.violation? (w.cell c).owner a ≠ none) :
    ∃ v, w.refusal? c a = some v := by
  unfold refusal?
  split
  · exact ⟨_, rfl⟩
  · next hr =>
      split
      · exact ⟨_, rfl⟩
      · exact ⟨_, rfl⟩
      · next heq =>
          rcases h with h | h
          · exact (hr h).elim
          · exact (h heq).elim

end World

/-! ## The main result -/

/-- What it means that nobody but its owner completes a cell, at one step of a run from `m` to `m'`. -/
structure OwnershipExclusive (m : Machine) (past : List Machine) (m' : Machine) (c : CellId) :
    Prop where
  /-- A pending cell stays with its owner, and is realized only by a completion that carries the owner's
  token, which was presented to the cell before. -/
  owner : ∀ t, (m.world.cell c).isRealized = false → (m.world.cell c).owner = some t →
    (m'.world.cell c).owner = some t ∧
      ((m'.world.cell c).isRealized = true →
        (∃ o, m.control = .call (.complete c o (.presenting (some t)))) ∧
          ∃ x ∈ past, x.Presents c t)
  /-- A completion of a realized cell, or in the name of an authority that the cell does not accept, does
  nothing: it comes back at once, in the same world. -/
  refused : ∀ o a, m.control = .call (.complete c o a) →
    (m.world.cell c).isRealized = true ∨ Cell.violation? (m.world.cell c).owner a ≠ none →
      ∃ v, m' = ⟨m.world, .ret (.verdict v), m.stack⟩
  /-- A strict completion answers with an error exactly if the cell is pending and the token disagrees
  with the owner. -/
  strict : ∀ o p e w',
    m.world.Performs (.complete c o (.presenting p)) w' (.ret (.verdict (.error e))) ↔
      w' = m.world ∧ (m.world.cell c).isRealized = false ∧ Disagrees (m.world.cell c).owner p e
  /-- Every completion of a realized cell answers that it was not this one. -/
  realized : (m.world.cell c).isRealized = true → ∀ o a w' e,
    m.world.Performs (.complete c o a) w' e ↔ w' = m.world ∧ e = .ret (.verdict (.ok false))
  /-- So does a quiet completion of a pending cell that is owned. -/
  quiet : (m.world.cell c).isRealized = false → (m.world.cell c).owner ≠ none → ∀ o w' e,
    m.world.Performs (.complete c o .unowned) w' e ↔
      w' = m.world ∧ e = .ret (.verdict (.ok false))

/-- **Ownership is exclusive**, at every step of every run. -/
theorem ownership_exclusive {capacity : Nat} {m m' : Machine} {past : List Machine}
    (h : History capacity m' (m :: past)) (c : CellId) : OwnershipExclusive m past m' c := by
  have before := h.before
  have sound := before.sound
  constructor
  case owner =>
    intro t hp ht
    refine ⟨(h.later List.mem_cons_self c).owner t ht, ?_⟩
    intro hr
    -- Nothing is completed while the machine is at rest, so this is a step.
    have hstep : m' = m.step := by
      rcases h.step_or_enter with ⟨-, heq⟩ | ⟨-, thread, log, call, -, rfl⟩
      · exact heq
      · exact nomatch hp.symm.trans hr
    subst hstep
    have there : c < m.world.cells.size := by
      by_contra hc
      rw [World.cell_of_size_le (Nat.le_of_not_lt hc)] at ht
      cases ht
    obtain ⟨o, a, call, accepted, -⟩ :=
      (Machine.step_cell sound c).call_of_isRealized there hp hr
    rw [ht] at accepted
    obtain rfl := violation?_owned accepted
    refine ⟨⟨o, call⟩, before.presented_of_carries (.inl ?_)⟩
    rw [call]
    rfl
  case refused =>
    intro o a call hrefused
    obtain ⟨v, hv⟩ := World.refusal?_isSome hrefused
    refine ⟨v, ?_⟩
    rcases h.step_or_enter with ⟨-, rfl⟩ | ⟨rest, -⟩
    · obtain ⟨w, control, stack⟩ := m
      cases call
      show Machine.ofMove (w.invoke _) stack = _
      rw [World.complete_of_refusal sound hv]
      rfl
    · have := (Machine.atRest_iff.mp rest).1
      rw [call] at this
      cases this
  case strict =>
    intro o p e w'
    rw [World.performs_complete_error sound, World.refusal?_error]
  case realized =>
    intro hr o a w' e
    exact World.performs_of_refusal sound (World.refusal?_realized hr)
  case quiet =>
    intro hp howned o w' e
    exact World.performs_of_refusal sound (World.refusal?_quiet hp howned)

/-- A run in which a cell is to follow another one, is claimed, and is then completed with its token. Before that the
other cell succeeds, and what it hands on is refused. -/
theorem ownership_exclusive_of_claimed : ∃ m m' past, History 8 m' (m :: past) ∧
    (∃ x ∈ past, (∃ o, x.control = .call (.complete 0 o .unowned)) ∧
      (x.world.cell 0).owner = some 0 ∧ (x.world.cell 0).isRealized = false) ∧
    (m.world.cell 0).owner = some 0 ∧ (m.world.cell 0).isRealized = false ∧
    (m'.world.cell 0).isRealized = true ∧ OwnershipExclusive m past m' 0 := by
  have empty : History 8 _ _ := .start
  have target := (empty.enter rfl {} [] (.operate (.cell (.create "c")))).step rfl
  have source := (target.enter rfl {} [] (.operate (.cell (.create "s")))).step rfl
  have chained := (source.enter rfl {} []
    (.operate (.cell (.chain "c" (.cell "s") none)))).steps 4 (by decide +kernel)
  have claimed := (chained.enter (by decide +kernel) {} [] (.operate (.cell (.claim "c" "t")))).step rfl
  have forwarded := (claimed.enter (by decide +kernel) {} []
    (.operate (.cell (.complete "s" (.ok (.constant 3)))))).steps 6 (by decide +kernel)
  have refused := forwarded.steps 5 (by decide +kernel)
  have completed := ((refused.enter (by decide +kernel) {} []
    (.operate (.cell (.completeWith "c" (.ok (.constant 7)) (some "t"))))).step rfl).step rfl
  refine ⟨_, _, _, completed, ⟨_, List.mem_cons_of_mem _ (List.mem_cons_of_mem _
    (List.mem_append_left _ (List.mem_append_right _ (List.mem_singleton_self _)))),
    ⟨.ok (.number 3), ?call⟩, ?owned, ?kept⟩, ?owner, ?pending, ?realized, ownership_exclusive completed 0⟩
  case call => with_unfolding_all rfl
  all_goals decide +kernel

end RequestGraph
