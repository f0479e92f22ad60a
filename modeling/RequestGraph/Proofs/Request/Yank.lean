import RequestGraph.Proofs.Request.Course

/-!
# What a request gives

A request gives everything or one error. Nobody else completes, claims or revokes its cell, and the sink
returns from every report. Then, whatever scripts do and in whatever order jobs are run:

    nothing is to be done   →   the request is pending iff none of its cells has failed and one is pending
    it has succeeded        →   its view has the values of the cells of all keys
    it has failed           →   its error has the cause of one of them, and a view of settled cells
-/

namespace RequestGraph

/-- A request for some keys of a context is made next, and it comes back with a cell. -/
structure Machine.Requests (x : Machine) (k : ContextId) (keys : List String) (r : CellId) : Prop where
  call : x.control = .call (.gather k keys keys [])
  opened : k < x.world.contexts.size
  returns : ∃ w, x.world.Performs (.gather k keys keys []) w (.ret (.cell r))

/-- Of the cells of some keys none has failed, and one is pending. -/
def World.Unsettled (w : World) (k : ContextId) (keys : List String) : Prop :=
  (∀ key ∈ keys, ∀ c, w.Finds k key c → ∀ e, (w.cell c).peek ≠ some (.error e)) ∧
    ∃ key ∈ keys, ∃ c, w.Finds k key c ∧ (w.cell c).isRealized = false

/-- A view has the values of the cells of some keys. -/
def World.Shows (w : World) (k : ContextId) (keys : List String) (view : View) : Prop :=
  ∀ key ∈ keys, ∃ c v, w.Finds k key c ∧ (w.cell c).value? = some v ∧
    view.get? key = some v.toNumber

/-- What holds of the cell of a request. -/
structure Machine.Answered (m : Machine) (past : List Machine) (k : ContextId) (keys : List String)
    (r : CellId) : Prop where
  /-- As long as nothing is to be done, the request is pending for a reason. -/
  pending : m.atRest = true → ((m.world.cell r).isRealized = false ↔ m.world.Unsettled k keys)
  succeeded : ∀ v, (m.world.cell r).peek = some (.ok v) → ∃ view, v = .view view ∧
    (m.world.context k).isFrozen = true ∧ m.world.Shows k keys view
  failed : ∀ e, (m.world.cell r).peek = some (.error e) → ∃ cause view, e = .yank cause keys view ∧
    e.root = cause.root ∧ (m.world.context k).isFrozen = true ∧
    (∃ key ∈ keys, ∃ c, m.world.Finds k key c ∧ (m.world.cell c).peek = some (.error cause)) ∧
    ∃ y ∈ past, y.Enriches k keys r cause ∧ y.world.snapshot? k = some view ∧
      ∀ entry ∈ (y.world.context k).ledger.toList, y.world.Settled entry.2
  /-- Whenever the view of the request is taken, the ledger can be read. -/
  read : ∀ y ∈ past, y.EndsRequest r → ∀ p, y.step.control ≠ .raise p
  /-- The same holds of every cancellation. -/
  cancelled : ∀ y ∈ past, ∀ j cause, y.control = .call (.cancel j cause) →
    ∀ p, y.step.control ≠ .raise p

/-! ## Where a request has gathered its cells

A request may be made in the middle of anything. So the run in which it gathers its cells is looked at above
the frames that it was called from.
-/

namespace Machine

variable {m x : Machine} {k : ContextId} {keys : List String} {r : CellId} {cells : List CellId}
  {past : List Machine}

/-- A run above some frames gets to every call that it gets to without them. -/
theorem iterate_above_of_call {w : World} {call : Call} {n : ℕ}
    (h : m.iterate n = ⟨w, .call call, []⟩) (frames : List Frame) :
    (m.above frames).iterate n = ⟨w, .call call, frames⟩ := by
  rcases iterate_above (m := m) frames n with habove | ⟨i, hi, hrest, -⟩
  · rw [habove, h]
    rfl
  · obtain ⟨j, rfl⟩ := Nat.exists_eq_add_of_le hi
    rw [iterate_add, iterate_of_atRest hrest] at h
    rw [h] at hrest
    cases hrest

/-- A request comes to the point where it has gathered the cells of its keys. -/
theorem Requests.gathers (h : x.Requests k keys r) (sound : x.world.Sound)
    (tables : x.world.TablesSound) : ∃ n w cells, World.Gathers k x.world keys w cells ∧
      r = w.cells.size ∧ x.iterate n = ⟨w, .call (.gather k [] keys cells), x.stack⟩ := by
  obtain ⟨call, opened, w', returns⟩ := h
  obtain ⟨w, cells, hgathers, hr⟩ := World.gathers_of_performs returns sound tables opened
  cases hr
  obtain ⟨n, hn⟩ := hgathers.iterate keys []
  refine ⟨n, w, cells, hgathers, rfl, ?_⟩
  have hx : x = (⟨x.world, .call (.gather k keys keys []), []⟩ : Machine).above x.stack := by
    obtain ⟨w, control, stack⟩ := x
    cases call
    rfl
  rw [hx]
  exact iterate_above_of_call hn x.stack

end Machine

/-! ## What a stage says

From the stage that a request is at, it can be told what its cell has come to. The stage of awaiting is not
there when nothing is left to be done.
-/

namespace Machine

variable {m : Machine} {k : ContextId} {keys : List String} {r : CellId} {cells : List CellId}
  {past : List Machine} {o : Outcome}

/-- When nothing is to be done, a request waits for a pending cell, or has come to its end. -/
theorem Stage.pending_iff (stage : m.Stage past k keys r cells)
    (gathered : m.world.Gathered k keys r cells) (sound : m.world.Sound)
    (tables : m.world.TablesSound) (rest : m.atRest = true) :
    (m.world.cell r).isRealized = false ↔ m.world.Unsettled k keys := by
  obtain ⟨hcontrol, hstack⟩ := atRest_iff.mp rest
  -- At rest nothing is being called, so the request waits at a fan-in or is done.
  have busy {call : Call} (hcall : m.control = .call call) : False := by
    rw [hcall] at hcontrol
    cases hcontrol
  have found {key : String} {c d : CellId} (hc : m.world.Finds k key c)
      (hd : m.world.Holds k key d) : c = d := hc.unique (hd.finds tables)
  cases stage with
  | pursuing pending idle pursues =>
      refine iff_of_true pending ?_
      cases pursues with
      | awaiting call => exact (busy call).elim
      | concluding call => exact (busy call).elim
      | cancelling justified cancels runs =>
          rw [runs] at hstack
          exact absurd hstack (List.append_ne_nil_of_right_ne_nil _ (List.cons_ne_nil _ _))
      | waiting awaits =>
          obtain ⟨⟨c, hc, hpending⟩, calm⟩ := awaits.of_atRest sound rest
          constructor
          · intro key hkey d hd e
            obtain ⟨i, hi, rfl⟩ := List.mem_iff_getElem.mp hkey
            have hi' : i < cells.length := gathered.holds.length_eq ▸ hi
            rw [found hd (gathered.holds.get hi hi')]
            exact calm _ (List.getElem_mem hi') e
          · obtain ⟨i, hi, rfl⟩ := List.mem_iff_getElem.mp hc
            have hi' : i < keys.length := gathered.holds.length_eq ▸ hi
            exact ⟨_, List.getElem_mem hi', _, (gathered.holds.get hi' hi).finds tables, hpending⟩
  | completing completing => exact (busy completing.call).elim
  | done stored released answers =>
      have realized := Cell.isRealized_of_peek stored
      refine iff_of_false (Bool.not_eq_false _ ▸ realized) ?_
      rintro ⟨calm, key, hkey, c, hc, hpending⟩
      cases answers with
      | view frozen has =>
          obtain ⟨d, v, hd, hvalue, -⟩ := has key hkey
          rw [← found hc hd, Cell.value?, Cell.peek_of_pending hpending] at hvalue
          cases hvalue
      | error frozen caused =>
          obtain ⟨key, hkey, d, hd, hpeek⟩ := caused
          exact calm key hkey d (hd.finds tables) _ hpeek

/-- What the cell of a request has come to. -/
theorem Stage.answers (stage : m.Stage past k keys r cells) (stored : (m.world.cell r).peek = some o) :
    m.Answers past k keys r o := by
  have realized := Cell.isRealized_of_peek stored
  cases stage with
  | pursuing pending => exact nomatch realized.symm.trans pending
  | completing completing => exact nomatch realized.symm.trans completing.pending
  | done stored' _ answers =>
      cases stored.symm.trans stored'
      exact answers

/-- A cancellation goes through the ledger of its context. -/
theorem step_cancel (tables : m.world.TablesSound) {cause : Option Error}
    (call : m.control = .call (.cancel k cause)) (p : Panic) : m.step.control ≠ .raise p := by
  rw [step_call call, World.invoke_cancel tables]
  exact nofun

end Machine

namespace History

variable {capacity : ℕ} {m x g : Machine} {past : List Machine} {k : ContextId} {keys : List String}
  {r : CellId} {cells : List CellId}

/-- What a machine of a history does without coming to rest is done in the history, or is to be done. -/
theorem iterate_mem (h : History capacity m past) (hx : x ∈ past) (n : ℕ)
    (busy : ∀ i ≤ n, (x.iterate i).atRest = false) :
    x.iterate n ∈ past ∨ ∃ j, x.iterate n = m.iterate j := by
  induction h with
  | start => cases hx
  | @step m past before _ ih =>
      rcases List.mem_cons.mp hx with rfl | hx
      · cases n with
        | zero => exact .inl List.mem_cons_self
        | succ n => exact .inr ⟨n, rfl⟩
      · rcases ih hx with hmem | ⟨j, hj⟩
        · exact .inl (List.mem_cons_of_mem _ hmem)
        · cases j with
          | zero =>
              rw [hj]
              exact .inl List.mem_cons_self
          | succ j => exact .inr ⟨j, hj⟩
  | @enter m past before rest thread log c outside ih =>
      rcases List.mem_cons.mp hx with rfl | hx
      · exact nomatch rest.symm.trans (busy 0 (Nat.zero_le n))
      · rcases ih hx with hmem | ⟨j, hj⟩
        · exact .inl (List.mem_cons_of_mem _ hmem)
        · rw [Machine.iterate_of_atRest rest] at hj
          have := busy n (Nat.le_refl n)
          rw [hj, rest] at this
          cases this

/-- A machine with fewer cells comes before. -/
theorem mem_of_size_lt (h : History capacity m past) {y : Machine} {past' : List Machine}
    (hg : g ∈ past) (hy : y :: past' <:+ m :: past)
    (lt : g.world.cells.size < y.world.cells.size) : g ∈ past' := by
  induction h with
  | start => cases hg
  | @step m past before busy ih | @enter m past before rest thread log c outside ih =>
      rcases List.suffix_cons_iff.mp hy with heq | hsuffix
      · cases heq
        exact hg
      · rcases List.mem_cons.mp hg with rfl | hg
        · have hle : y.world.cells.size ≤ g.world.cells.size := by
            rcases List.mem_cons.mp (hsuffix.subset List.mem_cons_self) with rfl | hy
            · exact Nat.le_refl _
            · exact before.size_le hy
          exact absurd lt (Nat.not_lt.mpr hle)
        · exact ih hg hsuffix

/-- The point where a request has gathered its cells is in the history once its cell is there. -/
theorem gathered (h : History capacity m past) (hx : x ∈ past) (requests : x.Requests k keys r)
    (made : m.atRest = true ∨ r < m.world.cells.size) :
    ∃ g ∈ past, ∃ cells, g.control = .call (.gather k [] keys cells) ∧ g.world.cells.size = r ∧
      k < g.world.contexts.size ∧ List.Forall₂ (g.world.Holds k) keys cells := by
  obtain ⟨past', hpast, -⟩ := h.of_mem hx
  obtain ⟨n, w, cells, hgathers, rfl, hn⟩ := requests.gathers hpast.sound hpast.tablesSound
  obtain ⟨-, -, opened, holds, -⟩ := hgathers.spec hpast.sound hpast.tablesSound requests.opened
  suffices hmem : x.iterate n ∈ past by
    refine ⟨_, hmem, cells, ?_⟩
    rw [hn]
    exact ⟨rfl, rfl, opened, holds⟩
  have busy (i : ℕ) (hi : i ≤ n) : (x.iterate i).atRest = false := by
    by_contra hrest
    obtain ⟨j, rfl⟩ := Nat.exists_eq_add_of_le hi
    rw [Machine.iterate_add, Machine.iterate_of_atRest (Bool.not_eq_false _ ▸ hrest)] at hn
    rw [hn] at hrest
    exact hrest rfl
  rcases h.iterate_mem hx n busy with hmem | ⟨j, hj⟩
  · exact hmem
  · rcases made with rest | made
    · rw [Machine.iterate_of_atRest rest] at hj
      have := busy n (Nat.le_refl n)
      rw [hj, rest] at this
      cases this
    · -- The cell of the request is made only after this point.
      have hsize := Machine.iterate_kept (P := fun w => m.world.cells.size ≤ w.cells.size) h.sound
        h.tablesSound (Nat.le_refl _) (fun sound _ hw => hw.trans (Machine.size_step sound)) j
      rw [← hj, hn] at hsize
      exact absurd made (Nat.not_lt.mpr hsize)

theorem there_of_holds (h : History capacity m past) (hg : g ∈ past)
    (holds : List.Forall₂ (g.world.Holds k) keys cells) : ∀ c ∈ cells, c < g.world.cells.size := by
  obtain ⟨past', hpast, -⟩ := h.of_mem hg
  intro c hc
  obtain ⟨i, hi, rfl⟩ := List.mem_iff_getElem.mp hc
  obtain ⟨index, -, hslot⟩ := holds.get (holds.length_eq ▸ hi) hi
  exact hpast.placed.there k index _ hslot

/-- A request is at one of its stages once its cell is there. -/
theorem stage_of_requests (h : History capacity m past) (hx : x ∈ past)
    (requests : x.Requests k keys r) (made : m.atRest = true ∨ r < m.world.cells.size)
    (sink : ∀ x ∈ past, x.SinkReturns) (alone : Undisturbed r past) :
    ∃ cells, m.Stage past k keys r cells ∧ m.world.Gathered k keys r cells := by
  obtain ⟨g, hg, cells, call, rfl, opened, holds⟩ := h.gathered hx requests made
  exact ⟨cells, h.stage hg call opened holds (h.there_of_holds hg holds) sink alone⟩

theorem answers (h : History capacity m past) (hx : x ∈ past) (requests : x.Requests k keys r)
    (sink : ∀ x ∈ past, x.SinkReturns) (alone : Undisturbed r past) {o : Outcome}
    (stored : (m.world.cell r).peek = some o) : m.Answers past k keys r o := by
  have made : r < m.world.cells.size := by
    by_contra hr
    rw [World.cell_of_size_le (Nat.le_of_not_lt hr)] at stored
    cases stored
  obtain ⟨cells, stage, -⟩ := h.stage_of_requests hx requests (.inr made) sink alone
  exact stage.answers stored

/-- The ledger can be read whenever the view of a request is taken. -/
theorem ends_call (h : History capacity m past) (hx : x ∈ past) (requests : x.Requests k keys r)
    (sink : ∀ x ∈ past, x.SinkReturns) (alone : Undisturbed r past) {y : Machine} (hy : y ∈ past)
    (ends : y.EndsRequest r) (p : Panic) : y.step.control ≠ .raise p := by
  obtain ⟨past', hpast, hsuffix⟩ := h.of_mem hy
  have made : r < y.world.cells.size := by
    by_contra hr
    have hcount := hpast.count_results_le r
    rw [if_neg hr] at hcount
    exact List.count_eq_zero.mp (Nat.le_zero.mp hcount) ends.mem_results
  -- The request was carried here already, so its stage is known.
  obtain ⟨g, hg, cells, call, rfl, opened, holds⟩ :=
    h.gathered hx requests (.inr (Nat.lt_of_lt_of_le made (h.size_le hy)))
  have hg' : g ∈ past' := h.mem_of_size_lt hg (hsuffix.trans (List.suffix_cons m past)) made
  have earlier {z : Machine} (hz : z ∈ past') : z ∈ past :=
    hsuffix.subset (List.mem_cons_of_mem _ hz)
  obtain ⟨stage, gathered⟩ := hpast.stage hg' call opened holds (h.there_of_holds hg holds)
    (fun z hz => sink z (earlier hz))
    ⟨fun z hz => alone.unowned z (earlier hz), fun z hz => alone.own z (earlier hz)⟩
  have course := hpast.course (r := g.world.cells.size)
    (hpast.orderly fun z hz => sink z (earlier hz)) (sink y hy) (alone.unowned y hy) (alone.own y hy)
  obtain ⟨o, completing⟩ := stage.ends course gathered ends
  rw [completing.call]
  exact nofun

/-- A request gives the values of all its keys or one error, and it is never lost. -/
theorem yank_answered (h : History capacity m past) (hx : x ∈ past) (requests : x.Requests k keys r)
    (sink : ∀ x ∈ past, x.SinkReturns) (alone : Undisturbed r past) :
    m.Answered past k keys r := by
  constructor
  case pending =>
      intro rest
      obtain ⟨cells, stage, gathered⟩ := h.stage_of_requests hx requests (.inl rest) sink alone
      exact stage.pending_iff gathered h.sound h.tablesSound rest
  case succeeded =>
      intro v stored
      cases h.answers hx requests sink alone stored with
      | view frozen has =>
          refine ⟨_, rfl, frozen, fun key hkey => ?_⟩
          obtain ⟨c, v, hc, hvalue, hget⟩ := has key hkey
          exact ⟨c, v, hc.finds h.tablesSound, hvalue, hget⟩
  case failed =>
      intro e stored
      cases h.answers hx requests sink alone stored with
      | error frozen caused taken =>
          obtain ⟨key, hkey, c, hc, hpeek⟩ := caused
          exact ⟨_, _, rfl, Error.root_yank _ _ _, frozen,
            ⟨key, hkey, c, hc.finds h.tablesSound, hpeek⟩, taken⟩
  case read => exact fun y hy ends p => h.ends_call hx requests sink alone hy ends p
  case cancelled =>
      intro y hy j cause call
      obtain ⟨past', hpast, -⟩ := h.of_mem hy
      exact Machine.step_cancel hpast.tablesSound call

end History

instance (e : Control) (c : CellId) : Decidable (e = .ret (.cell c)) :=
  decidable_of_iff ((match e with | .ret (.cell d) => decide (d = c) | _ => false) = true) <| by
    constructor
    · intro h
      split at h
      · next d => rw [of_decide_eq_true h]
      · cases h
    · rintro rfl
      exact decide_eq_true rfl

/-- A run in which a request for four keys, of which two are the same, is answered with an error. Its nodes are run
from a queue: the first succeeds, the second breaks off, and the third has its cell failed before it begins. -/
theorem yank_answered_of_failing_node : ∃ m past, History 8 m past ∧ m.atRest = true ∧
    ((m.world.cell 3).error?).isSome = true ∧ m.Answered past 0 ["a", "b", "c", "a"] 3 := by
  let nodes : List (String × Script) :=
    [("a", [.claim (.complete none (.ok (.constant 5)))]), ("b", [.fault (.panic .foreign)]),
      ("c", [.claim (.complete none (.ok (.constant 7)))])]
  have empty : History 8 _ _ := .start
  have provided := (empty.enter rfl {} [] (.operate (.context (.createProvider "p" nodes)))).step rfl
  have pooled := (provided.enter rfl {} [] (.operate (.pool (.create "q" .queue none)))).step rfl
  have opened := (pooled.enter rfl {} []
    (.operate (.context (.create "k" [] "p" (some "q"))))).step rfl
  have asked := (opened.enter rfl {} []
    (.operate (.view (.yank (some "k") ["a", "b", "c", "a"] "r")))).step rfl
  have waiting := (asked.step rfl).steps 39 (by decide +kernel)
  have drained := (waiting.enter (by decide +kernel) {} []
    (.operate (.pool (.run "q" none .oldestFirst)))).steps 78 (by decide +kernel)
  refine ⟨_, _, drained, ?rest, ?failed, drained.yank_answered
    (List.mem_append_right _ (List.mem_cons_of_mem _ (List.mem_append_right _ List.mem_cons_self)))
    ⟨rfl, ?opened, ?returns⟩ ?sink ⟨?unowned, ?own⟩⟩
  case returns => exact ⟨_, .of_iterate 39 rfl (by decide +kernel) (by decide +kernel)⟩
  all_goals decide +kernel

end RequestGraph
