import RequestGraph.Proofs.Engine.Grounded
import RequestGraph.Proofs.Request.Cancelling
import RequestGraph.Proofs.Request.Memoizing

/-!
# Cancelling is final

A cancellation closes the context and then visits the cells of the ledger in their order: those that are
realized or owned it leaves alone, and the others it fails. When it comes back nothing is left that could be
started or cancelled: whatever is done later, and whichever queued jobs are run, no node of the context
starts, and to cancel once more changes nothing and tells nobody.

    w.Sweeps cause ledger failed w'   :   the visits lead from w to w', and failed the cells `failed`
-/

namespace RequestGraph

/-- The visits of a cancellation to the cells of a ledger, with the world that each of them finds. -/
inductive World.Sweeps (cause : Option Error) :
    World → List (KeyIndex × CellId) → List CellId → World → Prop
  | done {w : World} : Sweeps cause w [] [] w
  /-- A realized cell is passed over. -/
  | realized {w w' : World} {index : KeyIndex} {c : CellId} {rest : List (KeyIndex × CellId)}
      {failed : List CellId} (realized : (w.cell c).isRealized = true)
      (sweeps : Sweeps cause w rest failed w') : Sweeps cause w ((index, c) :: rest) failed w'
  /-- An owned cell is spared: the next cell is visited in the same world. -/
  | owned {w w' : World} {index : KeyIndex} {c : CellId} {rest : List (KeyIndex × CellId)}
      {failed : List CellId} (pending : (w.cell c).isRealized = false)
      (owned : (w.cell c).isClaimed = true) (sweeps : Sweeps cause w rest failed w') :
      Sweeps cause w ((index, c) :: rest) failed w'
  /-- Any other cell is failed, which its listeners are told before the next cell is visited. -/
  | failed {w w₁ w' : World} {index : KeyIndex} {c : CellId} {rest : List (KeyIndex × CellId)}
      {failed : List CellId} (pending : (w.cell c).isRealized = false)
      (unowned : (w.cell c).isClaimed = false)
      (completes : w.Performs (.complete c (.error (.cancelled cause)) .unowned) w₁
        (.ret (.verdict (.ok true))))
      (carries : (w₁.cell c).peek = some (.error (.cancelled cause)))
      (sweeps : Sweeps cause w₁ rest failed w') :
      Sweeps cause w ((index, c) :: rest) (c :: failed) w'

/-- A context is closed with a ledger of cells that are realized or owned, and some cells carry the error
that cancelling it failed them with. -/
structure World.Closed (w : World) (k : ContextId) (ledger : List (KeyIndex × CellId))
    (failed : List CellId) (cause : Option Error) : Prop where
  opened : k < w.contexts.size
  frozen : (w.context k).isFrozen = true
  same : (w.context k).ledger.toList = ledger
  settled : ∀ entry ∈ ledger, w.Settled entry.2
  carries : ∀ c ∈ failed, (w.cell c).peek = some (.error (.cancelled cause))

/-- A machine gets to another one without changing the world or telling any listener. -/
inductive Machine.Idles : Machine → Machine → Prop
  | refl (m : Machine) : Idles m m
  | step {m m' : Machine} (same : m.step.world = m.world) (quiet : m.told = [])
      (idles : Idles m.step m') : Idles m m'

/-- What a cancellation leaves for good. -/
structure Machine.Final (m : Machine) (k : ContextId) (ledger : List (KeyIndex × CellId))
    (failed : List CellId) (cause : Option Error) : Prop where
  closed : m.world.Closed k ledger failed cause
  /-- No node of the context starts. -/
  quiet : ∀ claim node, ¬m.StartsNode k claim node
  /-- To cancel the context again, wherever and for whatever reason, does nothing. -/
  again : ∀ cause' stack, Machine.Idles ⟨m.world, .call (.cancel k cause'), stack⟩
    ⟨m.world, .ret .unit, stack⟩

namespace World

variable {w w' : World} {k : ContextId} {c : CellId} {r : Result} {cause : Option Error}
  {ledger : List (KeyIndex × CellId)} {failed : List CellId}

/-! ## The visits

The ledger that is visited is the one that the context was closed with. Between two visits listeners may
run, so each visit finds a world of its own.
-/

/-- A completion in nobody's name is refused if the cell is realized or owned, and changes nothing then.
Otherwise it is accepted, and the cell has the outcome. -/
theorem complete_unowned (sound : w.Sound) (tables : w.TablesSound) (there : c < w.cells.size)
    (pending : (w.cell c).isRealized = false) {o : Outcome}
    (h : w.Performs (.complete c o .unowned) w' (.ret r)) :
    ((w.cell c).isClaimed = true ∧ w' = w) ∨
      ((w.cell c).isClaimed = false ∧ r = .verdict (.ok true) ∧ (w'.cell c).peek = some o) := by
  cases owned : (w.cell c).owner with
  | some t =>
    left
    have refused := refusal?_quiet pending (owned ▸ Option.some_ne_none t)
    exact ⟨by rw [Cell.isClaimed, owned, Option.isSome_some], ((performs_of_refusal sound refused).mp h).1⟩
  | none =>
    right
    have accepted : w.refusal? c .unowned = none := by
      simp [refusal?, pending, owned, Cell.violation?]
    rw [performs_tail (complete_of_accepted sound accepted)] at h
    refine ⟨by rw [Cell.isClaimed, owned, Option.isSome_none], verdict_of_deliver h, ?_⟩
    apply h.kept (P := fun w => (w.cell c).peek = some o)
      (sound.setCell c (Cell.sound_completed _ o)) ⟨tables.keys, tables.contexts⟩
    · rw [cell_setCell_self there, Cell.peek_completed]
    · exact fun sound _ hx => (Machine.step_cell sound c).peek hx

theorem sweeps_of_performs (sound : w.Sound) (tables : w.TablesSound)
    (there : ∀ entry ∈ ledger, entry.2 < w.cells.size)
    (h : w.Performs (.sweep ledger cause) w' (.ret r)) :
    r = .unit ∧ ∃ failed, w.Sweeps cause ledger failed w' := by
  induction ledger generalizing w with
  | nil =>
    obtain ⟨rfl, hr⟩ := (performs_end rfl rfl).mp h
    exact ⟨Control.ret.inj hr, [], .done⟩
  | cons entry rest ih =>
    obtain ⟨index, c⟩ := entry
    obtain ⟨therec, thererest⟩ := List.forall_mem_cons.mp there
    cases visited : (w.cell c).isRealized with
    | true =>
      have hinvoke : w.invoke (.sweep ((index, c) :: rest) cause) = w.call (.sweep rest cause) :=
        if_pos visited
      rw [performs_tail hinvoke] at h
      obtain ⟨hr, failed, sweeps⟩ := ih sound tables thererest h
      exact ⟨hr, failed, .realized visited sweeps⟩
    -- What the sweep does next begins in the world that the listeners of this cell have left.
    | false =>
      have hinvoke : w.invoke (.sweep ((index, c) :: rest) cause) =
          w.call (.complete c (.error (.cancelled cause)) .unowned) [.sweeping rest cause] :=
        if_neg (Bool.not_eq_true _ ▸ visited)
      obtain ⟨w₁, e₁, completes, ends⟩ := (performs_call hinvoke).mp h
      rw [Machine.ends_iff_step] at ends
      cases e₁ with
      | call _ => exact nomatch completes.1
      | raise p => cases (Machine.ends_of_atRest rfl).mp ends
      | ret r₁ =>
        have hrest : w₁.Performs (.sweep rest cause) w' (.ret r) := ends
        obtain ⟨sound₁, tables₁⟩ := completes.sound sound tables
        obtain ⟨hr, failed, sweeps⟩ := ih sound₁ tables₁
          (fun entry he => completes.size_cells sound tables (thererest entry he)) hrest
        refine ⟨hr, ?_⟩
        obtain ⟨owned, rfl⟩ | ⟨unowned, rfl, carries⟩ :=
          complete_unowned sound tables therec visited completes
        · exact ⟨failed, .owned visited owned sweeps⟩
        · exact ⟨c :: failed, .failed visited unowned completes carries sweeps⟩

/-- Whatever every step keeps, the visits keep. -/
theorem Sweeps.kept {P : World → Prop} (h : w.Sweeps cause ledger failed w') (sound : w.Sound)
    (tables : w.TablesSound) (hP : P w)
    (step : ∀ {x : Machine}, x.world.Sound → x.world.TablesSound → P x.world → P x.step.world) :
    P w' := by
  induction h with
  | done => exact hP
  | realized _ _ ih | owned _ _ _ ih => exact ih sound tables hP
  | failed _ _ completes _ _ ih =>
    obtain ⟨sound₁, tables₁⟩ := completes.sound sound tables
    exact ih sound₁ tables₁ (completes.kept sound tables hP step)

/-- A cell that was failed on the way carries its error at the end. -/
theorem Sweeps.carries (h : w.Sweeps cause ledger failed w') (sound : w.Sound)
    (tables : w.TablesSound) :
    ∀ c ∈ failed, (w'.cell c).peek = some (.error (.cancelled cause)) := by
  induction h with
  | done => exact nofun
  | realized _ _ ih | owned _ _ _ ih => exact ih sound tables
  | failed _ _ completes carries sweeps ih =>
    obtain ⟨sound₁, tables₁⟩ := completes.sound sound tables
    refine List.forall_mem_cons.mpr ⟨?_, ih sound₁ tables₁⟩
    -- An outcome stays, whatever the other cells' listeners do.
    refine sweeps.kept (P := fun w => (w.cell _).peek = some _) sound₁ tables₁ carries ?_
    exact fun sound _ hx => (Machine.step_cell sound _).peek hx

/-! ## What stays

Closed contexts stay closed, ledgers stay as they are, and settled cells stay settled. Each of these is kept
by single steps.
-/

/-- A closed context stays closed, and its ledger as it is. -/
theorem Sweeps.shut (h : w.Sweeps cause ledger failed w') (sound : w.Sound) (tables : w.TablesSound)
    (opened : k < w.contexts.size) (frozen : (w.context k).isFrozen = true) :
    k < w'.contexts.size ∧ (w'.context k).isFrozen = true ∧
      (w'.context k).ledger.toList = (w.context k).ledger.toList := by
  refine h.kept (P := fun w' => k < w'.contexts.size ∧ (w'.context k).isFrozen = true ∧
    (w'.context k).ledger.toList = (w.context k).ledger.toList) sound tables ⟨opened, frozen, rfl⟩ ?_
  intro x sound tables hx
  obtain ⟨frozen, same⟩ := (Machine.step_context sound tables k).isFrozen (tables.contexts k) hx.2.1
  exact ⟨hx.1.trans_le (Machine.size_contexts_step sound tables), frozen, same.trans hx.2.2⟩

theorem Closed.step {m : Machine} (h : m.world.Closed k ledger failed cause)
    (sound : m.world.Sound) (tables : m.world.TablesSound) :
    m.step.world.Closed k ledger failed cause := by
  obtain ⟨frozen, same⟩ := (Machine.step_context sound tables k).isFrozen (tables.contexts k) h.frozen
  exact {
    opened := h.opened.trans_le (Machine.size_contexts_step sound tables)
    frozen := frozen
    same := same.trans h.same
    settled := fun entry he => Machine.step_settled sound (h.settled entry he)
    carries := fun c hc => (Machine.step_cell sound c).peek (h.carries c hc) }

/-- A closed context is closed once more as it stands. -/
theorem setContext_frozen_self (frozen : (w.context k).isFrozen = true) :
    w.setContext k (w.context k).frozen = w := by
  rw [Context.frozen_of_isFrozen frozen]
  show { w with contexts := w.contexts.set k (w.contexts.get k) } = w
  rw [Arena.set_get_self]

end World

/-! ## Cancelling again

All cells are settled by then. The visits of a second cancellation refuse to do anything, one after the
other, and no listener is told.
-/

namespace Machine

variable {w : World} {k : ContextId} {ledger : List (KeyIndex × CellId)} {failed : List CellId}
  {cause : Option Error} {stack : List Frame}

/-- Cells that are realized or owned are passed over without anybody's noticing. -/
theorem idles_sweep (sound : w.Sound) (settled : ∀ entry ∈ ledger, w.Settled entry.2) :
    Idles ⟨w, .call (.sweep ledger cause), stack⟩ ⟨w, .ret .unit, stack⟩ := by
  induction ledger with
  | nil => exact .step rfl rfl (.refl _)
  | cons entry rest ih =>
    obtain ⟨index, c⟩ := entry
    obtain ⟨hc, hrest⟩ := List.forall_mem_cons.mp settled
    have passed := ih hrest
    cases visited : (w.cell c).isRealized with
    | true =>
      have hstep : (⟨w, .call (.sweep ((index, c) :: rest) cause), stack⟩ : Machine).step =
          ⟨w, .call (.sweep rest cause), stack⟩ :=
        congrArg (ofMove · stack) (if_pos visited)
      exact .step (by rw [hstep]) rfl (hstep ▸ passed)
    | false =>
      -- The cell is owned, so that it refuses the error, and the sweep goes on.
      have owned : (w.cell c).isClaimed = true := hc.resolve_left (Bool.eq_false_iff.mp visited)
      have refused : w.refusal? c .unowned = some (.ok false) :=
        World.refusal?_quiet visited (Option.isSome_iff_ne_none.mp owned)
      have visit : (⟨w, .call (.sweep ((index, c) :: rest) cause), stack⟩ : Machine).step =
          ⟨w, .call (.complete c (.error (.cancelled cause)) .unowned),
            .sweeping rest cause :: stack⟩ :=
        congrArg (ofMove · stack) (if_neg (Bool.eq_false_iff.mp visited))
      have refuse (frames : List Frame) :
          (⟨w, .call (.complete c (.error (.cancelled cause)) .unowned), frames⟩ : Machine).step =
            ⟨w, .ret (.verdict (.ok false)), frames⟩ :=
        congrArg (ofMove · frames) (World.complete_of_refusal sound refused)
      refine .step (by rw [visit]) rfl (visit ▸ ?_)
      refine .step (by rw [refuse]) rfl (refuse _ ▸ ?_)
      exact .step rfl rfl passed

theorem idles_cancel (closed : w.Closed k ledger failed cause) (sound : w.Sound)
    (tables : w.TablesSound) (cause' : Option Error) :
    Idles ⟨w, .call (.cancel k cause'), stack⟩ ⟨w, .ret .unit, stack⟩ := by
  have hstep : (⟨w, .call (.cancel k cause'), stack⟩ : Machine).step =
      ⟨w, .call (.sweep ledger cause'), stack⟩ := by
    show ofMove (w.invoke (.cancel k cause')) stack = _
    rw [World.invoke_cancel tables, World.setContext_frozen_self closed.frozen, closed.same]
    rfl
  refine .step (by rw [hstep]) rfl (hstep ▸ ?_)
  exact idles_sweep sound closed.settled

/-! ## Nodes

A job that was queued before may still run, but its cell is settled, so that it gets no claim. A node that
is asked for later is not dispatched at all.
-/

variable {m x : Machine} {index : KeyIndex} {key : String} {c : CellId} {node : Node}

/-- A fetch that dispatches a node puts the cell of the node into the slot of its index. -/
theorem Dispatches.lookup (h : x.Dispatches k index key c node) (tables : x.world.TablesSound)
    (there : k < x.world.contexts.size) :
    (x.step.world.context k).slots.lookup index.toUInt64 = some c := by
  obtain ⟨call, pool, dispatches⟩ := h
  rw [step_call call]
  show (((x.world.invoke (.fetch k index key)).world.context k).slots.lookup _) = _
  cases hslot : (x.world.context k).slots.lookup index.toUInt64 with
  | some d =>
    rw [World.fetch_of_filled hslot] at dispatches
    cases dispatches
  | none =>
    rw [World.context_fetch tables there hslot, (tables.contexts k).lookup_registered hslot,
      if_pos rfl]
    cases hfrozen : (x.world.context k).isFrozen with
    | true =>
      rw [World.fetch_of_frozen tables hslot hfrozen] at dispatches
      cases dispatches
    | false =>
      rw [World.fetch_of_unfrozen tables hslot hfrozen] at dispatches
      simp only [World.startCell] at dispatches
      split at dispatches
      · cases dispatches
      · split at dispatches <;> cases dispatches
        rfl

end Machine

namespace History

variable {capacity : Nat} {m x : Machine} {past : List Machine} {k : ContextId} {index : KeyIndex}
  {c : CellId} {claim : Claim} {node : Node} {ledger : List (KeyIndex × CellId)}
  {failed : List CellId} {cause : Option Error} {w' : World} {r : Result}

/-- What holds of a closed context holds from then on. -/
theorem closed (h : History capacity m past) (hx : x ∈ m :: past)
    (closed : x.world.Closed k ledger failed cause) : m.world.Closed k ledger failed cause := by
  rcases List.mem_cons.mp hx with rfl | hx
  · exact closed
  · refine h.kept (P := fun w => w.Closed k ledger failed cause) hx closed ?_ ?_
    · exact fun sound tables closed => closed.step sound tables
    · exact fun _ _ closed => ⟨closed.opened, closed.frozen, closed.same, closed.settled, closed.carries⟩

/-- The cell of a node that is to start is in a slot of the context. -/
theorem lookup_of_starts (h : History capacity m past) (starts : m.StartsNode k claim node) :
    ∃ index : KeyIndex, (m.world.context k).slots.lookup index.toUInt64 = some claim.cell := by
  obtain ⟨x, hx, index, key, dispatches⟩ := h.dispatched_of_plans starts.plans
  obtain ⟨earlier, hearlier, -⟩ := h.of_mem hx
  have there : k < x.world.contexts.size := hearlier.grounded.call dispatches.1
  have hslot := dispatches.lookup hearlier.tablesSound there
  refine ⟨index, ?_⟩
  rcases h.step_of_mem hx (Machine.busy_of_call dispatches.1) with rfl | hmem
  · exact hslot
  · refine h.kept (P := fun w => (w.context k).slots.lookup _ = some _) hmem hslot ?_ fun _ _ => id
    exact fun sound tables hw => (Machine.step_context sound tables k).lookup (tables.contexts k) hw

/-- In a closed context whose cells are settled no node starts, whenever it was dispatched. -/
theorem not_starts (h : History capacity m past) (closed : m.world.Closed k ledger failed cause) :
    ¬m.StartsNode k claim node := by
  intro starts
  obtain ⟨pending, unowned⟩ := starts.free h.sound
  obtain ⟨index, hslot⟩ := h.lookup_of_starts starts
  rcases h.placed.place k index _ hslot with listed | late
  · -- The cell is in the ledger, so that it was realized or owned when the cancellation came back.
    rcases closed.settled _ (closed.same ▸ listed) with realized | owned
    · exact nomatch pending.symm.trans realized
    · rw [Cell.isClaimed, unowned] at owned
      cases owned
  · -- The cell came too late for the ledger, and fails or has failed.
    cases late with
    | failing call => cases starts.job.symm.trans call
    | failed failed => exact nomatch pending.symm.trans (Cell.isRealized_of_peek failed)

/-- A cancellation that comes back has visited the whole ledger, and left its context closed. -/
theorem closed_of_cancel (h : History capacity x past) (call : x.control = .call (.cancel k cause))
    (returns : x.world.Performs (.cancel k cause) w' (.ret r)) :
    r = .unit ∧ ∃ failed, (x.world.setContext k (x.world.context k).frozen).Sweeps cause
        (x.world.context k).ledger.toList failed w' ∧
      w'.Closed k (x.world.context k).ledger.toList failed cause := by
  obtain ⟨w, control, stack⟩ := x
  obtain rfl := call
  have tables := h.tablesSound
  have hk := tables.contexts k
  -- The context is there, and so are the cells of its ledger.
  have opened : k < w.contexts.size := h.grounded.control
  have there : ∀ entry ∈ (w.context k).ledger.toList, entry.2 < w.cells.size := fun entry he =>
    (h.grounded.world.contexts k).ledger entry.2 (List.mem_map_of_mem he)
  have hcontext := World.context_setContext_frozen opened
  have sound₀ : (w.setContext k (w.context k).frozen).Sound := h.sound.of_cells_eq rfl
  have tables₀ := tables.setContext_frozen k
  have sweeping := (World.performs_tail (World.invoke_cancel tables k cause)).mp returns
  obtain ⟨hr, failed, sweeps⟩ := World.sweeps_of_performs sound₀ tables₀ there sweeping
  obtain ⟨opened', frozen', same'⟩ := sweeps.shut (k := k) sound₀ tables₀
    (by rw [World.setContext, Arena.size_set]; exact opened)
    (by rw [hcontext]; exact hk.isFrozen_frozen)
  rw [hcontext, hk.toList_frozen] at same'
  have settled := (World.settled_of_cancel h.sound tables opened there returns).2
  exact ⟨hr, failed, sweeps, opened', frozen', same', same' ▸ settled, sweeps.carries sound₀ tables₀⟩

/-- **Cancelling is final.** A cancellation that comes back has gone through the ledger, failing the cells
that nobody owned and sparing the others; and at every machine from then on the context is closed, its
cells are realized or owned, those that the cancellation failed carry its error, no node of the context
starts, and to cancel again does nothing. -/
theorem cancel_final (h : History capacity x past) (call : x.control = .call (.cancel k cause))
    (returns : x.world.Performs (.cancel k cause) w' (.ret r)) :
    ∃ failed, (x.world.setContext k (x.world.context k).frozen).Sweeps cause
        (x.world.context k).ledger.toList failed w' ∧
      (∃ n earlier, x.iterate n = ⟨w', .ret .unit, x.stack⟩ ∧
        History capacity ⟨w', .ret .unit, x.stack⟩ earlier) ∧
      ∀ m past', History capacity m past' → ⟨w', .ret .unit, x.stack⟩ ∈ m :: past' →
        m.Final k (x.world.context k).ledger.toList failed cause := by
  obtain ⟨rfl, failed, sweeps, closed⟩ := h.closed_of_cancel call returns
  refine ⟨failed, sweeps, ?reached, ?later⟩
  case reached =>
    obtain ⟨n, hn⟩ := returns.reaches x.stack
    rw [← call] at hn
    obtain ⟨earlier, hearlier⟩ := h.iterate n
    exact ⟨n, earlier, hn, hn ▸ hearlier⟩
  case later =>
    intro m past' hm hy
    have closed' : m.world.Closed k (x.world.context k).ledger.toList failed cause :=
      hm.closed hy closed
    exact {
      closed := closed'
      quiet := fun _ _ => hm.not_starts closed'
      again := fun cause' _ => Machine.idles_cancel closed' hm.sound hm.tablesSound cause' }

end History

theorem Control.eq_cancel {e : Control} (h : (e matches .call (.cancel 0 none)) = true) :
    e = .call (.cancel 0 none) := by
  split at h
  · rfl
  · cases h

/-- A run in which one cell of a context is owned by a parked claim and the node of another one is queued
when the context is cancelled. -/
theorem cancel_final_of_queued : ∃ x past w' failed, History 8 x past ∧
    x.control = .call (.cancel 0 none) ∧
    (x.world.setContext 0 (x.world.context 0).frozen).Sweeps none
      (x.world.context 0).ledger.toList failed w' ∧
    (⟨w', .ret .unit, x.stack⟩ : Machine).Final 0 (x.world.context 0).ledger.toList failed none := by
  let nodes : List (String × Script) := [("a", []), ("b", [.claim (.park "held")])]
  have empty : History 8 _ _ := .start
  have provided := (empty.enter rfl {} [] (.operate (.context (.createProvider "p" nodes)))).step rfl
  have queued := (provided.enter rfl {} [] (.operate (.pool (.create "q" .queue none)))).step rfl
  have opened := (queued.enter rfl {} []
    (.operate (.context (.create "k" [] "p" (some "q"))))).step rfl
  have asked := (opened.enter rfl {} []
    (.operate (.context (.fetch (some "k") "b" "owned")))).steps 6 (by decide +kernel)
  have parked := (asked.enter (by decide +kernel) {} []
    (.operate (.pool (.run "q" none .oldestFirst)))).steps 16 (by decide +kernel)
  have waiting := (parked.enter (by decide +kernel) {} []
    (.operate (.context (.fetch (some "k") "a" "waiting")))).steps 6 (by decide +kernel)
  have cancelling := (waiting.enter (by decide +kernel) {} []
    (.operate (.context (.cancel (some "k") none)))).steps 1 (by decide +kernel)
  have cancels : ∃ x past, History 8 x past ∧ x.control = .call (.cancel 0 none) ∧
      ∃ w' r, x.world.Performs (.cancel 0 none) w' (.ret r) :=
    ⟨_, _, cancelling, Control.eq_cancel (by decide +kernel),
      Machine.Ends.of_rest 9 (by decide +kernel) (by decide +kernel)⟩
  obtain ⟨x, past, cancelling, call, w', r, returns⟩ := cancels
  obtain ⟨failed, sweeps, ⟨_, earlier, -, returned⟩, later⟩ := cancelling.cancel_final call returns
  exact ⟨x, past, w', failed, cancelling, call, sweeps, later _ earlier returned List.mem_cons_self⟩

end RequestGraph
