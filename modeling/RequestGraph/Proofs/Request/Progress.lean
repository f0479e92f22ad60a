import RequestGraph.Proofs.Cell.Lifetime
import RequestGraph.Proofs.FanIn.Awaiting
import RequestGraph.Proofs.Request.Cancelling
import RequestGraph.Proofs.Request.Holding
import RequestGraph.Proofs.Request.Placement

/-!
# The course of a request

A request that has all its cells awaits them, at once or by a fan-in. Once they have succeeded it closes its
context and completes its cell with a view; as soon as one has failed it cancels the context first, and
completes its cell with the error and a view. One step leads from each stage to the next or leaves it as it
is, whatever else the step does:

    awaiting  →  waiting  →  concluding  →  completing  →  done
                                    ↘  cancelling  ↗

A request is at one stage only, because its continuation is in one place only. And as long as the sink returns,
nothing skips the rest of a stage.
-/

namespace RequestGraph

/-- The next step takes the view that goes with the error of a request. -/
def Machine.Enriches (m : Machine) (k : ContextId) (keys : List String) (r : CellId) (cause : Error) :
    Prop :=
  ∃ result frames, m.control = .ret result ∧ m.stack = .enriching k keys r cause :: frames

/-- The next step takes the view of a request, and goes on to complete its cell. -/
inductive Machine.EndsRequest (m : Machine) (r : CellId) : Prop
  | succeeded {k : ContextId} {keys : List String}
      (call : m.control = .call (.conclude (.yank k keys r) none)) : EndsRequest m r
  | failed {k : ContextId} {keys : List String} {cause : Error}
      (enriches : m.Enriches k keys r cause) : EndsRequest m r

/-! ## Telling what is done next

What a request is about to do can be computed from a machine, so that it can be tested in a concrete run.
-/

/-- Whether a completion of a cell is accepted next. -/
def Machine.completes? (m : Machine) (c : CellId) : Bool :=
  match m.control with
  | .call (.complete d _ a) => d == c && !(m.world.cell c).isRealized &&
    (Cell.violation? (m.world.cell c).owner a).isNone
  | _ => false

/-- Whether the next step completes a cell can be computed. -/
theorem Machine.completes?_iff {m : Machine} {c : CellId} :
    m.completes? c = true ↔ m.Completes c := by
  unfold completes? Completes
  split
  · next d o a call =>
      simp only [Bool.and_eq_true, beq_iff_eq, Bool.not_eq_true', Option.isNone_iff_eq_none]
      constructor
      · rintro ⟨⟨rfl, pending⟩, accepted⟩
        exact ⟨o, a, call, pending, accepted⟩
      · rintro ⟨o', a', call', pending, accepted⟩
        rw [call] at call'
        cases call'
        exact ⟨⟨rfl, pending⟩, accepted⟩
  · next other =>
      refine iff_of_false Bool.false_ne_true ?_
      rintro ⟨o, a, call, -⟩
      exact other _ _ _ call

/-- Whether a request ends next. -/
def Machine.endsRequest? (m : Machine) (r : CellId) : Bool :=
  match m.control, m.stack with
  | .call (.conclude (.yank _ _ result) none), _ => result == r
  | .ret _, .enriching _ _ result _ :: _ => result == r
  | _, _ => false

/-- Whether the next step ends a request can be computed. -/
theorem Machine.endsRequest?_iff {m : Machine} {r : CellId} :
    m.endsRequest? r = true ↔ m.EndsRequest r := by
  unfold endsRequest?
  constructor
  · intro h
    split at h
    · next k keys result call =>
        cases beq_iff_eq.mp h
        exact .succeeded call
    · next result k keys r' cause frames ret top =>
        cases beq_iff_eq.mp h
        exact .failed ⟨_, _, ret, top⟩
    · cases h
  · intro h
    cases h with
    | succeeded call =>
        rw [call]
        exact beq_self_eq_true r
    | failed enriches =>
        obtain ⟨_, _, ret, top⟩ := enriches
        rw [ret, top]
        exact beq_self_eq_true r

instance (m : Machine) (c : CellId) : Decidable (m.Completes c) :=
  decidable_of_iff _ Machine.completes?_iff

instance (m : Machine) (r : CellId) : Decidable (m.EndsRequest r) :=
  decidable_of_iff _ Machine.endsRequest?_iff

/-! ## The stages of a request

A stage says where the continuation is, and what the outcome of the request will be if it is known already.
The cell stays pending until the last stage but one.
-/

/-- Nobody but the request itself completes, claims or revokes its cell. -/
structure Undisturbed (r : CellId) (past : List Machine) : Prop where
  unowned : ∀ x ∈ past, (x.world.cell r).owner = none
  own : ∀ x ∈ past, x.step.Completes r → x.EndsRequest r

/-- A request has gathered the cells of its keys, and has a cell for its result. -/
structure World.Gathered (w : World) (k : ContextId) (keys : List String) (r : CellId)
    (cells : List CellId) : Prop where
  opened : k < w.contexts.size
  holds : List.Forall₂ (w.Holds k) keys cells
  there : ∀ c ∈ cells, c < w.cells.size
  result : r < w.cells.size

/-- What a request may come to. -/
inductive Machine.Answers (m : Machine) (past : List Machine) (k : ContextId) (keys : List String)
    (r : CellId) : Outcome → Prop
  | view {view : View} (frozen : (m.world.context k).isFrozen = true)
      (has : ∀ key ∈ keys, ∃ c v, m.world.Holds k key c ∧ (m.world.cell c).value? = some v ∧
        view.get? key = some v.toNumber) : Answers m past k keys r (.ok (.view view))
  | error {cause : Error} {view : View} (frozen : (m.world.context k).isFrozen = true)
      (caused : ∃ key ∈ keys, ∃ c, m.world.Holds k key c ∧
        (m.world.cell c).peek = some (.error cause))
      (taken : ∃ x ∈ past, x.Enriches k keys r cause ∧ x.world.snapshot? k = some view ∧
        ∀ e ∈ (x.world.context k).ledger.toList, x.world.Settled e.2) :
      Answers m past k keys r (.error (.yank cause keys view))

/-- How far a request has come. -/
inductive Machine.Pursues (m : Machine) (k : ContextId) (keys : List String) (r : CellId)
    (cells : List CellId) : Prop
  | awaiting (call : m.control = .call (.await cells (.yank k keys r))) : Pursues m k keys r cells
  | waiting {f : FanInId} (awaits : m.Awaits f cells (.yank k keys r)) : Pursues m k keys r cells
  | concluding {failure : Option Error}
      (call : m.control = .call (.conclude (.yank k keys r) failure))
      (justified : m.Justified cells failure) : Pursues m k keys r cells
  | cancelling {e : Error} {x : Machine} {frames : List Frame}
      (justified : m.Justified cells (some e)) (cancels : x.Cancelling k (some e))
      (runs : m = x.above (.enriching k keys r e :: frames)) : Pursues m k keys r cells

/-- A request comes to its end: next, its cell is completed with what it has come to. -/
structure Machine.Completing (m : Machine) (past : List Machine) (k : ContextId) (keys : List String)
    (r : CellId) (o : Outcome) : Prop where
  pending : (m.world.cell r).isRealized = false
  call : m.control = .call (.complete r o .unowned)
  released : r ∉ m.results
  answers : m.Answers past k keys r o

/-- The stages of a request: its cell is pending until the request completes it, and then the request is no
more. -/
inductive Machine.Stage (m : Machine) (past : List Machine) (k : ContextId) (keys : List String)
    (r : CellId) (cells : List CellId) : Prop
  | pursuing (pending : (m.world.cell r).isRealized = false) (idle : ¬m.Completes r)
      (pursues : m.Pursues k keys r cells) : Stage m past k keys r cells
  | completing {o : Outcome} (completing : m.Completing past k keys r o) : Stage m past k keys r cells
  | done {o : Outcome} (stored : (m.world.cell r).peek = some o) (released : r ∉ m.results)
      (answers : m.Answers past k keys r o) : Stage m past k keys r cells

namespace Machine

variable {m : Machine} {past : List Machine} {k : ContextId} {keys : List String} {r : CellId}
  {cells : List CellId} {o : Outcome}

/-! ## What stays as it is

What a stage refers to is kept by all steps: the cells of the keys, their values, and the reasons for which
a request ends.
-/

/-- Values stay. -/
theorem step_value? {c : CellId} {v : Value} (h : m.world.Sound)
    (hv : (m.world.cell c).value? = some v) : (m.step.world.cell c).value? = some v := by
  unfold Cell.value? at hv ⊢
  split at hv
  · next stored =>
      rw [(step_cell h c).peek stored]
      exact hv
  · cases hv

/-- What a request has gathered stays in its context. -/
theorem Gathered.step (h : m.world.Gathered k keys r cells) (sound : m.world.Sound)
    (tables : m.world.TablesSound) : m.step.world.Gathered k keys r cells where
  opened := Nat.lt_of_lt_of_le h.opened (size_contexts_step sound tables)
  holds := h.holds.imp fun _ _ hc => step_holds sound tables hc
  there c hc := Nat.lt_of_lt_of_le (h.there c hc) (size_step sound)
  result := Nat.lt_of_lt_of_le h.result (size_step sound)

/-- What a request has come to is still justified after any step. -/
theorem Answers.step (h : m.Answers past k keys r o) (sound : m.world.Sound)
    (tables : m.world.TablesSound) : m.step.Answers (m :: past) k keys r o := by
  have stays (frozen : (m.world.context k).isFrozen = true) :
      (m.step.world.context k).isFrozen = true :=
    ((step_context sound tables k).isFrozen (tables.contexts k) frozen).1
  cases h with
  | view frozen has =>
      refine .view (stays frozen) fun key hkey => ?_
      obtain ⟨c, v, hholds, hvalue, hget⟩ := has key hkey
      exact ⟨c, v, step_holds sound tables hholds, step_value? sound hvalue, hget⟩
  | error frozen caused taken =>
      obtain ⟨key, hkey, c, hholds, hpeek⟩ := caused
      obtain ⟨x, hx, taken⟩ := taken
      exact .error (stays frozen)
        ⟨key, hkey, c, step_holds sound tables hholds, (step_cell sound c).peek hpeek⟩
        ⟨x, List.mem_cons_of_mem _ hx, taken⟩

/-- A cell that is not completed stays pending. -/
theorem step_pending (sound : m.world.Sound) (there : r < m.world.cells.size)
    (pending : (m.world.cell r).isRealized = false) (idle : ¬m.Completes r) :
    (m.step.world.cell r).isRealized = false := by
  by_contra hr
  obtain ⟨o, a, call, accepted, -⟩ :=
    (step_cell sound r).call_of_isRealized there pending (Bool.not_eq_false _ ▸ hr)
  exact idle ⟨o, a, call, pending, accepted⟩

/-- The failure of a request is that of a cell of one of its keys. -/
theorem Justified.caused (h : m.world.Gathered k keys r cells) {e : Error}
    (justified : m.Justified cells (some e)) : ∃ key ∈ keys, ∃ c, m.world.Holds k key c ∧
      (m.world.cell c).peek = some (.error e) := by
  obtain ⟨c, hc, hpeek⟩ := justified
  obtain ⟨i, hi, rfl⟩ := List.mem_iff_getElem.mp hc
  have hi' : i < keys.length := by
    rw [h.holds.length_eq]
    exact hi
  exact ⟨keys[i], List.getElem_mem hi', cells[i], h.holds.get hi' hi, hpeek⟩

/-- What justifies the end of an await stays. -/
theorem Justified.step {failure : Option Error} (h : m.Justified cells failure)
    (sound : m.world.Sound) : m.step.Justified cells failure := by
  cases failure with
  | none => exact fun c hc => step_hasSucceeded sound (h c hc)
  | some e =>
      obtain ⟨c, hc, hpeek⟩ := h
      exact ⟨c, hc, (step_cell sound c).peek hpeek⟩

/-! ## What a request carries

As the continuation is in one place, a step that does not touch this place leaves the stage alone. This is
what excludes all other steps.
-/

/-- What a step needs to know of the run it belongs to. -/
structure Course (m : Machine) (r : CellId) : Prop where
  sound : m.world.Sound
  tables : m.world.TablesSound
  placed : m.Placed
  orderly : m.Orderly
  fresh : m.Fresh
  sink : m.SinkReturns
  carried : m.results.count r ≤ 1
  unowned : (m.world.cell r).owner = none
  own : m.step.Completes r → m.EndsRequest r

/-- A request that comes to its end has been carried until now. -/
theorem EndsRequest.mem_results (h : m.EndsRequest r) : r ∈ m.results := by
  cases h with
  | succeeded call =>
      apply List.mem_append_left
      rw [call]
      exact List.mem_cons_self
  | failed enriches =>
      obtain ⟨_, _, -, top⟩ := enriches
      apply List.mem_append_right
      apply List.mem_append_left
      rw [top]
      exact List.mem_append_left _ List.mem_cons_self

/-- Where a request may be carried. -/
theorem count_results (m : Machine) (r : CellId) : m.results.count r =
    m.control.results.count r + (m.stack.flatMap Frame.results).count r +
      m.world.results.count r := by
  rw [results, List.count_append, List.count_append, Nat.add_assoc]

/-- What ends a request is done next, or is on top of the stack. -/
theorem EndsRequest.count_pos (h : m.EndsRequest r) :
    0 < m.control.results.count r ∨ m.control.isCall = false ∧
      ∃ frame rest, m.stack = frame :: rest ∧ 0 < frame.results.count r := by
  cases h with
  | succeeded call =>
      left
      rw [call]
      exact List.count_pos_iff.mpr List.mem_cons_self
  | failed enriches =>
      obtain ⟨_, _, ret, top⟩ := enriches
      right
      rw [ret]
      exact ⟨rfl, _, _, top, List.count_pos_iff.mpr List.mem_cons_self⟩

/-- A request does not end at a call other than the one that concludes it. -/
theorem not_ends_of_call {c : Call} (call : m.control = .call c)
    (other : ∀ k keys, c ≠ .conclude (.yank k keys r) none) : ¬m.EndsRequest r := by
  rintro (concludes | enriches)
  · exact other _ _ (Control.call.inj (call.symm.trans concludes))
  · obtain ⟨_, _, ret, -⟩ := enriches
    exact nomatch call.symm.trans ret

/-- A request that a fan-in carries does not end yet. -/
theorem Course.not_ends_of_fanIn (h : m.Course r) {f : FanInId} {k : Continuation}
    (there : f < m.world.fanIns.size) (left : (m.world.fanIn f).continuation = some k)
    (hr : r ∈ k.results) : ¬m.EndsRequest r := by
  intro ends
  have hfanIn : 0 < m.world.results.count r := by
    obtain ⟨rest, hbefore, -⟩ := m.world.fanIns.perm_flatMap_set there FanIn.results
    apply List.count_pos_iff.mpr
    refine hbefore.mem_iff.mpr (List.mem_append_left _ ?_)
    show r ∈ (m.world.fanIn f).results
    rw [FanIn.results, left]
    exact hr
  have hcarried := h.carried
  rw [count_results] at hcarried
  rcases ends.count_pos with hcontrol | ⟨-, frame, rest, top, hframe⟩
  · omega
  · rw [top, List.flatMap_cons, List.count_append] at hcarried
    omega

/-- A request that a frame carries does not end as long as something is to be done above it. -/
theorem Course.not_ends_of_frame (h : m.Course r) {above frames : List Frame} {frame : Frame}
    (stack : m.stack = above ++ frame :: frames) (hr : r ∈ frame.results)
    (busy : m.control.isCall = true ∨ above ≠ []) : ¬m.EndsRequest r := by
  intro ends
  have hframe : 0 < frame.results.count r := List.count_pos_iff.mpr hr
  have hcarried := h.carried
  rw [count_results, stack, List.flatMap_append, List.flatMap_cons, List.count_append,
    List.count_append] at hcarried
  rcases ends.count_pos with hcontrol | ⟨hcall, first, rest, top, hfirst⟩
  · omega
  · have hne : above ≠ [] := busy.resolve_left (Bool.not_eq_true _ ▸ hcall)
    obtain ⟨first', above', rfl⟩ := List.exists_cons_of_ne_nil hne
    rw [stack, List.cons_append, List.cons.injEq] at top
    obtain ⟨rfl, -⟩ := top
    rw [List.flatMap_cons, List.count_append] at hcarried
    omega

/-- A request whose cell is completed at its end is carried no more. -/
theorem Course.released (h : m.Course r) {w : World} {frames : List Frame} {a : Authority}
    (world : w.results = m.world.results)
    (one : m.control.results.count r + (m.stack.flatMap Frame.results).count r =
      1 + (frames.flatMap Frame.results).count r) :
    r ∉ results ⟨w, .call (.complete r o a), frames⟩ := by
  have hcarried := h.carried
  rw [count_results] at hcarried
  apply List.count_eq_zero.mp
  rw [count_results]
  show 0 + (frames.flatMap Frame.results).count r + w.results.count r = 0
  rw [world]
  omega

/-- A request that is carried no more is never carried again. -/
theorem not_mem_results_step (sound : m.world.Sound) (there : r < m.world.cells.size)
    (released : r ∉ m.results) : r ∉ m.step.results := by
  have unmade : ¬m.Makes r := by
    rintro ⟨k, keys, found, -, rfl⟩
    exact Nat.lt_irrefl _ there
  have hstep := count_results_step sound unmade
  rw [List.count_eq_zero.mpr released] at hstep
  exact List.count_eq_zero.mp (Nat.le_zero.mp hstep)

/-! ## The end of a request that succeeds

The context was closed when the last cell had succeeded, so the view that is taken has the values of all of
them.
-/

/-- The cell of a key that has succeeded stands in the ledger. -/
theorem Placed.mem_ledger (h : m.Placed) {index : KeyIndex} {c : CellId}
    (hslot : (m.world.context k).slots.lookup index.toUInt64 = some c)
    (succeeded : m.world.hasSucceeded c = true) (idle : ¬m.Completes c) :
    (index, c) ∈ (m.world.context k).ledger.toList := by
  rcases h.place k index c hslot with hmem | late
  · exact hmem
  · cases late with
    | failing call _ pending unowned =>
        exact absurd ⟨_, _, call, pending, by rw [unowned]; rfl⟩ idle
    | failed failed =>
        rw [World.hasSucceeded, Cell.value?, failed] at succeeded
        cases succeeded

/-- A request that succeeds completes its cell with the view of its context. -/
theorem completing_of_succeeded (h : m.Course r) (gathered : m.world.Gathered k keys r cells)
    (pending : (m.world.cell r).isRealized = false)
    (call : m.control = .call (.conclude (.yank k keys r) none))
    (justified : m.Justified cells none) : ∃ o, m.step.Completing (m :: past) k keys r o := by
  have tables' := h.tables.setContext_frozen k
  have hcontext := World.context_setContext_frozen gathered.opened
  have frozen : ((m.world.setContext k (m.world.context k).frozen).context k).isFrozen = true := by
    rw [hcontext]
    exact (h.tables.contexts k).isFrozen_frozen
  obtain ⟨view, seen⟩ : ∃ view,
      (m.world.setContext k (m.world.context k).frozen).snapshot? k = some view :=
    ⟨_, World.snapshot?_of_isFrozen tables' frozen⟩
  have hstep : m.step = ⟨m.world.setContext k (m.world.context k).frozen,
      .call (.complete r (.ok (.view view)) .unowned), m.stack⟩ := by
    rw [step_call call]
    show ofMove ((m.world.setContext k _).succeedYank k r) m.stack = _
    rw [World.succeedYank, seen]
    rfl
  rw [hstep]
  have released : r ∉ results ⟨m.world.setContext k (m.world.context k).frozen,
      .call (.complete r (.ok (.view view)) .unowned), m.stack⟩ := by
    apply h.released rfl
    rw [call]
    show [r].count r + _ = _
    rw [List.count_singleton_self]
  refine ⟨_, pending, rfl, released, .view frozen fun key hkey => ?_⟩
  -- The cell of the key has succeeded, so its value is in the view.
  obtain ⟨i, hi, rfl⟩ := List.mem_iff_getElem.mp hkey
  have hi' : i < cells.length := by
    rw [← gathered.holds.length_eq]
    exact hi
  obtain ⟨index, hregistry, hslot⟩ : m.world.Holds k keys[i] cells[i] := gathered.holds.get hi hi'
  have succeeded := justified cells[i] (List.getElem_mem hi')
  obtain ⟨v, hv⟩ := Option.isSome_iff_exists.mp succeeded
  have idle : ¬m.Completes cells[i] := by
    rintro ⟨o, a, hcall, -⟩
    rw [call] at hcall
    cases hcall
  have hmem := h.placed.mem_ledger hslot succeeded idle
  refine ⟨cells[i], v, ⟨index, hregistry, ?_⟩, hv, ?_⟩
  · rw [hcontext, Context.slots_frozen]
    exact hslot
  · refine World.get?_of_snapshot? tables' frozen seen hregistry ?_ hv
    rw [hcontext, (h.tables.contexts k).toList_frozen]
    exact hmem

/-! ## The end of a request that fails

The error is enriched with a view after the cancellation has come back. All cells of the ledger are settled
by then.
-/

/-- The end of a request that fails. -/
theorem completing_of_cancelled (h : m.Course r) (gathered : m.world.Gathered k keys r cells)
    (pending : (m.world.cell r).isRealized = false) {e : Error} {x : Machine} {frames : List Frame}
    (justified : m.Justified cells (some e)) (cancels : x.Cancelling k (some e))
    (rest : x.atRest = true) (runs : m = x.above (.enriching k keys r e :: frames)) :
    ∃ o, m.step.Completing (m :: past) k keys r o := by
  obtain ⟨⟨result, hx⟩, frozen, settled⟩ := cancels.of_atRest rest
  have hm : m = ⟨x.world, .ret result, .enriching k keys r e :: frames⟩ := by
    rw [runs, hx]
    rfl
  generalize x.world = w at hm frozen settled
  subst hm
  have tables : w.TablesSound := h.tables
  obtain ⟨view, seen⟩ : ∃ view, w.snapshot? k = some view :=
    ⟨_, World.snapshot?_of_isFrozen tables frozen⟩
  have hstep : (⟨w, .ret result, .enriching k keys r e :: frames⟩ : Machine).step =
      ⟨w, .call (.complete r (.error (.yank e keys view)) .unowned), frames⟩ := by
    show ofMove (w.failYank k keys r e) frames = _
    rw [World.failYank, seen]
    rfl
  rw [hstep]
  refine ⟨_, pending, rfl, ?_, .error frozen (justified.caused gathered)
    ⟨_, List.mem_cons_self, ⟨_, _, rfl, rfl⟩, seen, settled⟩⟩
  apply h.released rfl
  show 0 + ([r] ++ frames.flatMap Frame.results).count r = _
  rw [List.count_append, List.count_singleton_self, Nat.zero_add]

/-! ## One step

One lemma for each stage, and then all together. The cases are those of the constructors of `Stage`.
-/

/-- After the completion the request is done. -/
theorem stage_of_completing (h : m.Course r) (there : r < m.world.cells.size)
    (completing : m.Completing past k keys r o) : m.step.Stage (m :: past) k keys r cells := by
  have hrefusal : m.world.refusal? r .unowned = none := by
    simp [World.refusal?, completing.pending, h.unowned, Cell.violation?]
  refine .done ?_ (not_mem_results_step h.sound there completing.released)
    (completing.answers.step h.sound h.tables)
  rw [step_call completing.call, World.complete_of_accepted h.sound hrefusal]
  show ((m.world.setCell r _).cell r).peek = _
  rw [World.cell_setCell_self there, Cell.peek_completed]

/-- What stands above the frame of a request that is cancelling has not come back yet. -/
theorem busy_of_cancelling {x : Machine} {frame : Frame} {frames : List Frame}
    (runs : m = x.above (frame :: frames)) (rest : x.atRest = false) :
    m.control.isCall = true ∨ x.stack ≠ [] := by
  rw [runs]
  cases hcontrol : x.control with
  | call _ => exact .inl (congrArg Control.isCall hcontrol)
  | _ =>
      right
      intro hstack
      have := atRest_iff.mpr ⟨congrArg Control.isCall hcontrol, hstack⟩
      exact nomatch rest.symm.trans this

/-- A cancellation goes on, or it has ended and the cause is enriched. -/
theorem stage_of_cancelling (h : m.Course r) (gathered : m.world.Gathered k keys r cells)
    (pending : (m.world.cell r).isRealized = false) (idle : ¬m.Completes r) {e : Error} {x : Machine}
    {frames : List Frame} (justified : m.Justified cells (some e)) (cancels : x.Cancelling k (some e))
    (runs : m = x.above (.enriching k keys r e :: frames)) :
    m.step.Stage (m :: past) k keys r cells := by
  cases rest : x.atRest with
  | true =>
      obtain ⟨o, completing⟩ := completing_of_cancelled h gathered pending justified cancels rest runs
      exact .completing completing
  | false =>
      have hstep : m.step = x.step.above (.enriching k keys r e :: frames) := by
        rw [runs, step_above rest]
      have hstack : m.stack = x.stack ++ .enriching k keys r e :: frames := by
        rw [runs]
        rfl
      have hends := h.not_ends_of_frame hstack (List.mem_singleton.mpr rfl)
        (busy_of_cancelling runs rest)
      have sink : x.SinkReturns := by
        have hsink := h.sink
        rw [runs] at hsink
        exact hsink
      refine .pursuing (step_pending h.sound gathered.result pending idle) (fun hc => hends (h.own hc))
        ?_
      exact .cancelling (justified.step h.sound) (cancels.step sink) hstep

/-- A request that has not begun to come to its end stays so unless it concludes. -/
theorem stage_of_not_ends (h : m.Course r) (gathered : m.world.Gathered k keys r cells)
    (pending : (m.world.cell r).isRealized = false) (idle : ¬m.Completes r)
    (busy : ¬m.EndsRequest r) (pursues : m.step.Pursues k keys r cells) :
    m.step.Stage (m :: past) k keys r cells :=
  .pursuing (step_pending h.sound gathered.result pending idle) (fun hc => busy (h.own hc)) pursues

/-- An await concludes at once, or it makes a fan-in. -/
theorem stage_of_awaiting (h : m.Course r) (gathered : m.world.Gathered k keys r cells)
    (pending : (m.world.cell r).isRealized = false) (idle : ¬m.Completes r)
    (call : m.control = .call (.await cells (.yank k keys r))) :
    m.step.Stage (m :: past) k keys r cells := by
  refine stage_of_not_ends h gathered pending idle (not_ends_of_call call nofun) ?_
  have hstep := step_call call
  cases failed : m.world.firstFailure cells.reverse with
  | some e =>
      have hmove : m.step = ⟨m.world, .call (.conclude (.yank k keys r) (some e)), m.stack⟩ := by
        rw [hstep]
        show ofMove (m.world.await cells _) m.stack = _
        rw [World.await, failed]
        rfl
      rw [hmove]
      obtain ⟨c, hc, herror⟩ := List.exists_of_findSome?_eq_some failed
      refine .concluding rfl ⟨c, List.mem_reverse.mp hc, ?_⟩
      show (m.world.cell c).peek = _
      unfold Cell.error? at herror
      split at herror
      · next stored =>
          cases herror
          exact stored
      · cases herror
  | none => cases done : cells.all m.world.hasSucceeded with
    | true =>
        have hmove : m.step = ⟨m.world, .call (.conclude (.yank k keys r) none), m.stack⟩ := by
          rw [hstep]
          show ofMove (m.world.await cells _) m.stack = _
          rw [World.await, failed, done]
          rfl
        rw [hmove]
        exact .concluding rfl (List.all_eq_true.mp done)
    | false => exact .waiting (Starts.awaits ⟨call, failed, done⟩ h.fresh h.sound)

/-- A fan-in goes on waiting, or it runs the continuation of the request. -/
theorem stage_of_waiting (h : m.Course r) (gathered : m.world.Gathered k keys r cells)
    (pending : (m.world.cell r).isRealized = false) (idle : ¬m.Completes r) {f : FanInId}
    (awaits : m.Awaits f cells (.yank k keys r)) : m.step.Stage (m :: past) k keys r cells := by
  refine .pursuing (step_pending h.sound gathered.result pending idle)
    (fun completes => h.not_ends_of_fanIn awaits.there awaits.left (List.mem_singleton.mpr rfl)
      (h.own completes)) ?_
  rcases awaits.step h.sound h.orderly gathered.there with awaits | ⟨failure, call, justified⟩
  · exact .waiting awaits
  · exact .concluding call justified

/-- A request that fails cancels its context first. -/
theorem stage_of_failed (h : m.Course r) (gathered : m.world.Gathered k keys r cells)
    (pending : (m.world.cell r).isRealized = false) (idle : ¬m.Completes r) {e : Error}
    (call : m.control = .call (.conclude (.yank k keys r) (some e)))
    (justified : m.Justified cells (some e)) : m.step.Stage (m :: past) k keys r cells := by
  refine stage_of_not_ends h gathered pending idle (not_ends_of_call call nofun) ?_
  have hstep : m.step = ⟨m.world, .call (.cancel k (some e)), .enriching k keys r e :: m.stack⟩ := by
    rw [step_call call]
    rfl
  rw [hstep]
  refine .cancelling (x := ⟨m.world, .call (.cancel k (some e)), []⟩) justified ?_ rfl
  refine .mk (n := 0) h.sound h.tables gathered.opened ?_ nofun
  intro entry hentry
  exact h.placed.there k entry.1 entry.2 ((h.tables.contexts k).agree entry hentry)

/-- One step leads a request on. -/
theorem Stage.step (stage : m.Stage past k keys r cells) (h : m.Course r)
    (gathered : m.world.Gathered k keys r cells) : m.step.Stage (m :: past) k keys r cells := by
  cases stage with
  | pursuing pending idle pursues => cases pursues with
    | awaiting call => exact stage_of_awaiting h gathered pending idle call
    | waiting awaits => exact stage_of_waiting h gathered pending idle awaits
    | @concluding failure call justified => cases failure with
      | none =>
          obtain ⟨o, completing⟩ := completing_of_succeeded h gathered pending call justified
          exact .completing completing
      | some e => exact stage_of_failed h gathered pending idle call justified
    | cancelling justified cancels runs =>
        exact stage_of_cancelling h gathered pending idle justified cancels runs
  | completing completing => exact stage_of_completing h gathered.result completing
  | done stored released answers =>
      exact .done ((step_cell h.sound r).peek stored)
        (not_mem_results_step h.sound gathered.result released) (answers.step h.sound h.tables)

/-- A request that ends takes its view, and goes on to complete its cell. -/
theorem Stage.ends (stage : m.Stage past k keys r cells) (h : m.Course r)
    (gathered : m.world.Gathered k keys r cells) (ends : m.EndsRequest r) :
    ∃ o, m.step.Completing (m :: past) k keys r o := by
  have carried := ends.mem_results
  cases stage with
  | pursuing pending idle pursues => cases pursues with
    | awaiting call =>
        rcases ends with hcall | ⟨_, _, ret, -⟩
        · exact nomatch call.symm.trans hcall
        · exact nomatch call.symm.trans ret
    | waiting awaits =>
        exact absurd ends (h.not_ends_of_fanIn awaits.there awaits.left (List.mem_singleton.mpr rfl))
    | @concluding failure call justified => cases failure with
      | none => exact completing_of_succeeded h gathered pending call justified
      | some e =>
          rcases ends with hcall | ⟨_, _, ret, -⟩
          · exact nomatch call.symm.trans hcall
          · exact nomatch call.symm.trans ret
    | @cancelling e x frames justified cancels runs => cases rest : x.atRest with
      | true => exact completing_of_cancelled h gathered pending justified cancels rest runs
      | false =>
          have hstack : m.stack = x.stack ++ .enriching k keys r e :: frames := by
            rw [runs]
            rfl
          exact absurd ends (h.not_ends_of_frame hstack (List.mem_singleton.mpr rfl)
            (busy_of_cancelling runs rest))
  | completing completing => exact absurd carried completing.released
  | done _ released => exact absurd carried released

end Machine

end RequestGraph
