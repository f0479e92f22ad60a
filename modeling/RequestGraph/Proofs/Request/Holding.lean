import RequestGraph.Proofs.Engine.Flow
import RequestGraph.Proofs.Engine.History

/-!
# Who completes the cell of a request

The cell of a request is completed by the continuation that carries it. There is one such continuation at
most: it is made with the cell, and after that it is handed on, from the call that awaits the cells of the
request to a fan-in, to the call that runs it, and to the frame that enriches its error.
-/

namespace RequestGraph

/-- The cell that a continuation completes at the end of a request. -/
def Continuation.results : Continuation → List CellId
  | .user .. => []
  | .yank _ _ result => [result]

/-- The cells of requests that are carried by what is done next. -/
def Control.results : Control → List CellId
  | .call (.await _ k) | .call (.conclude k _) => k.results
  | _ => []

/-- The cells of requests that are carried by a frame. -/
def Frame.results : Frame → List CellId
  | .enriching _ _ result _ => [result]
  | _ => []

/-- The cells of requests that are carried by a fan-in. -/
def FanIn.results (f : FanIn Continuation) : List CellId :=
  (f.continuation.map Continuation.results).getD []

/-- The cells of requests that are carried by fan-ins. -/
def World.results (w : World) : List CellId := w.fanIns.items.toList.flatMap FanIn.results

/-- The cells of requests that are carried by a move. -/
def Move.results (mv : Move) : List CellId :=
  mv.control.results ++ (mv.frames.flatMap Frame.results ++ mv.world.results)

namespace Machine

/-- The cells of all requests that have not come to their end. -/
def results (m : Machine) : List CellId :=
  m.control.results ++ (m.stack.flatMap Frame.results ++ m.world.results)

/-- The next step makes a request with its cell. -/
def Makes (m : Machine) (r : CellId) : Prop :=
  ∃ k keys found, m.control = .call (.gather k [] keys found) ∧ r = m.world.cells.size

end Machine

/-! ## Fan-ins

A fan-in carries what its continuation does, as long as it has one. Taking the continuation out takes the
request with it.
-/

namespace World

variable {w : World} (r : CellId)

/-- Requests are carried in the core. -/
theorem results_eq {w' : World} (h : w'.core = w.core) : w'.results = w.results := by
  have hfanIns : w'.fanIns = w.fanIns := congrArg Core.fanIns h
  rw [results, results, hfanIns]

/-- A fan-in that is set up carries what its continuation does. -/
theorem count_results_push (k : Continuation) :
    World.results { w with fanIns := w.fanIns.push (.start k) } = w.results ++ k.results := by
  simp [results, Arena.push, FanIn.results, FanIn.start]

/-- A change of a fan-in puts what it carries then in the place of what it carried before. -/
theorem count_results_setFanIn (f : FanInId) (x : FanIn Continuation) :
    (w.setFanIn f x).results.count r + (w.fanIn f).results.count r ≤
      w.results.count r + x.results.count r := by
  by_cases hf : f < w.fanIns.size
  · obtain ⟨rest, hbefore, hafter⟩ := w.fanIns.perm_flatMap_set hf FanIn.results
    have hbefore : w.results.count r = _ := hbefore.count_eq r
    have hafter : (w.setFanIn f x).results.count r = _ := (hafter x).count_eq r
    rw [List.count_append] at hbefore hafter
    have hfanIn : w.fanIns.get f = w.fanIn f := rfl
    rw [hfanIn] at hbefore
    omega
  · have hsame : w.setFanIn f x = w := by
      rw [setFanIn, Arena.set_of_size_le _ (Nat.le_of_not_lt hf)]
    have hnone : (w.fanIn f).results = [] := by
      rw [fanIn, Arena.get_of_size_le _ (Nat.le_of_not_lt hf)]
      rfl
    rw [hsame, hnone, List.count_nil]
    omega

/-- A fan-in that only counts carries no more than before. -/
theorem count_results_kept (w : World) (r : CellId) (f : FanInId) (fanIn : FanIn Continuation)
    (kept : fanIn.results = (w.fanIn f).results) :
    (w.setFanIn f fanIn).results.count r ≤ w.results.count r := by
  have hset := w.count_results_setFanIn r f fanIn
  rw [kept] at hset
  omega

end World

/-! ## Moves

Every move hands on what it was given, to one place only. Only the call that makes a request adds one.
-/

/-- Frames that only note where they are carry no request. -/
theorem Frame.results_of_isOuter {frames : List Frame} (h : frames.all Frame.isOuter = true) :
    frames.flatMap Frame.results = [] := by
  refine flatMap_eq_nil_of_isOuter (fun frame outer => ?_) h
  cases frame <;> first | rfl | cases outer

theorem Control.results_of_not_isCall {e : Control} (h : e.isCall = false) : e.results = [] := by
  cases e <;> first | rfl | cases h

/-- Operations carry no request. -/
theorem Operated.results {w : World} {scope : Scope} {op : Op} {mv : Move}
    (h : Operated w scope op mv) : mv.results = w.results := by
  have outer {w' : World} {control : Control} {frames : List Frame} {core : Core}
      (hcore : w'.core = core) (hfanIns : core.fanIns = w.fanIns)
      (hcontrol : control.results = []) (hframes : frames.all Frame.isOuter = true) :
      Move.results ⟨w', control, frames⟩ = w.results := by
    have hw : w'.fanIns = w.fanIns := (congrArg Core.fanIns hcore).trans hfanIns
    rw [Move.results, hcontrol, Frame.results_of_isOuter hframes, World.results, World.results, hw]
    rfl
  cases h with
  | answered core ends hframes => exact outer core rfl (Control.results_of_not_isCall ends) hframes
  | @entered _ c _ core entry hframes =>
      refine outer core rfl ?_ hframes
      cases c with
      | await cells k => cases k <;> first | rfl | cases entry
      | _ => first | rfl | cases entry
  | @presented _ c _ _ _ core _ presents hframes =>
      refine outer core rfl ?_ hframes
      cases c <;> first | rfl | cases presents
  | allocated _ core => exact outer core rfl rfl rfl
  | claimed _ _ core => exact outer core rfl rfl rfl
  | labelled core => exact outer core rfl rfl rfl
  | latched _ core hframes => exact outer core rfl rfl hframes
  | interned core ends => exact outer core rfl (Control.results_of_not_isCall ends) rfl
  | resolved core => exact outer core rfl rfl rfl
  | fetching core hframes => exact outer core rfl rfl hframes
  | opened _ _ core => exact outer core rfl rfl rfl
  | froze _ ends core => exact outer core rfl (Control.results_of_not_isCall ends) rfl

namespace World

variable {w : World} {r : CellId}

/-- A call hands on what it carries, or makes a request. -/
theorem count_results_invoke (h : w.Sound) {call : Call}
    (unmade : ∀ k keys found, call = .gather k [] keys found → r ≠ w.cells.size) :
    (w.invoke call).results.count r ≤
      (Control.call call).results.count r + w.results.count r := by
  have hspec := invoke_spec h call
  generalize w.invoke call = mv at hspec
  -- Most calls carry no request and leave the fan-ins alone.
  have idle {w' : World} {control : Control} {frames : List Frame} {core : Core}
      (hcore : w'.core = core) (hfanIns : core.fanIns = w.fanIns) (hcontrol : control.results = [])
      (hframes : frames.flatMap Frame.results = []) :
      (Move.results ⟨w', control, frames⟩).count r ≤
        (Control.call call).results.count r + w.results.count r := by
    have hw : w'.fanIns = w.fanIns := (congrArg Core.fanIns hcore).trans hfanIns
    have hresults : Move.results ⟨w', control, frames⟩ = w.results := by
      rw [Move.results, hcontrol, hframes, World.results, World.results, hw]
      rfl
    rw [hresults]
    exact Nat.le_add_left _ _
  -- The others hand over what they carry, from the call to a fan-in or back.
  have handed {w' : World} {control : Control} {frames : List Frame}
      (hw : w'.results.count r + (control.results.count r + (frames.flatMap Frame.results).count r) ≤
        (Control.call call).results.count r + w.results.count r) :
      (Move.results ⟨w', control, frames⟩).count r ≤
        (Control.call call).results.count r + w.results.count r := by
    rw [Move.results, List.count_append, List.count_append]
    show control.results.count r +
      ((frames.flatMap Frame.results).count r + w'.results.count r) ≤ _
    omega
  cases hspec with
  | operated hop =>
      rw [hop.results]
      exact Nat.le_add_left _ _
  | @gathered k keys found =>
      apply handed
      have hne : w.cells.size ≠ r := (unmade k keys found rfl).symm
      have hcount : [w.cells.size].count r = 0 := by simp [hne]
      show w.results.count r + ([w.cells.size].count r + 0) ≤ _
      omega
  | @awaiting cells k =>
      apply handed
      rw [count_results_push, List.count_append]
      show _ + (0 + 0) ≤ k.results.count r + _
      omega
  | awaitFailed =>
      apply handed
      exact Nat.le_of_eq (Nat.add_comm _ _)
  | awaitDone =>
      apply handed
      exact Nat.le_of_eq (Nat.add_comm _ _)
  | @fired f failure k calm last left =>
      apply handed
      have hset := w.count_results_setFanIn r f ((w.fanIn f).firedBy failure)
      have hold : (w.fanIn f).results = k.results := by rw [FanIn.results, left]; rfl
      have hnew : ((w.fanIn f).firedBy failure).results = [] := rfl
      rw [hold, hnew] at hset
      show _ + (k.results.count r + 0) ≤ 0 + _
      rw [List.count_nil] at hset
      omega
  | @firedTwice f failure calm last gone =>
      apply handed
      have hset := w.count_results_setFanIn r f ((w.fanIn f).firedBy failure)
      have hnew : ((w.fanIn f).firedBy failure).results = [] := rfl
      rw [hnew, List.count_nil] at hset
      show _ + (0 + 0) ≤ 0 + _
      omega
  | @watchStopped f | @watching f =>
      apply handed
      have kept := w.count_results_kept r f (w.fanIn f).await rfl
      show _ + (0 + 0) ≤ 0 + _
      omega
  | @counted f =>
      apply handed
      have kept := w.count_results_kept r f { w.fanIn f with remaining := (w.fanIn f).remaining - 1 } rfl
      show _ + (0 + 0) ≤ 0 + _
      omega
  | @yankFailed k keys result e =>
      apply handed
      show w.results.count r + (0 + [result].count r) ≤ [result].count r + w.results.count r
      omega
  | fetchedNew _ _ _ starts core => cases starts <;> exact idle core rfl rfl rfl
  | nodeStarted _ _ core => exact idle core rfl rfl rfl
  | returned _ core | heard core | sunk _ core | joined core | performed core
  | performedQueued core | jobStarted core | drained core | worked core => exact idle core rfl rfl rfl
  | _ => exact idle rfl rfl rfl rfl

/-- Going on hands over what the frame has carried. -/
theorem count_results_resume (frame : Frame) (result : Result) :
    (w.resume frame result).results.count r ≤ frame.results.count r + w.results.count r := by
  have hcore := w.core_resume frame result
  have hspec := w.resume_spec frame result
  generalize w.resume frame result = mv at hspec hcore
  have hresults : mv.results = mv.world.results := by cases hspec <;> rfl
  rw [hresults, results_eq hcore]
  exact Nat.le_add_left _ _

/-- A panic hands over nothing. -/
theorem count_results_unwind (frame : Frame) (p : Panic) :
    (w.unwind frame p).results.count r ≤ frame.results.count r + w.results.count r := by
  have hcore := w.core_unwind frame p
  have hspec := w.unwind_spec frame p
  generalize w.unwind frame p = mv at hspec hcore
  have hresults : mv.results = mv.world.results := by cases hspec <;> rfl
  rw [hresults, results_eq hcore]
  exact Nat.le_add_left _ _

end World

/-! ## Machines and histories

A request is added when its cell is allocated, so it cannot have been carried before. By induction no
request is carried twice.
-/

namespace Machine

variable {m : Machine} {r : CellId}

/-- No step doubles a request, and only the one that makes it adds it. -/
theorem count_results_step (h : m.world.Sound) (unmade : ¬m.Makes r) :
    m.step.results.count r ≤ m.results.count r := by
  have below (mv : Move) (stack : List Frame) : (ofMove mv stack).results.count r =
      mv.results.count r + (stack.flatMap Frame.results).count r := by
    simp only [results, ofMove, Move.results, List.flatMap_append, List.count_append]
    omega
  obtain ⟨w, control, stack⟩ := m
  have hresults (control : Control) (stack : List Frame) : (results ⟨w, control, stack⟩).count r =
      control.results.count r + ((stack.flatMap Frame.results).count r + w.results.count r) := by
    rw [results, List.count_append, List.count_append]
  rw [hresults]
  cases control with
  | call call =>
      have hinvoke := World.count_results_invoke (w := w) (r := r) h fun k keys found hcall hr =>
        unmade ⟨k, keys, found, congrArg Control.call hcall, hr⟩
      show (ofMove (w.invoke call) stack).results.count r ≤ _
      rw [below]
      omega
  | ret result => cases stack with
    | nil =>
        rw [← hresults]
        exact Nat.le_refl _
    | cons frame stack =>
        have hresume := w.count_results_resume (r := r) frame result
        show (ofMove (w.resume frame result) stack).results.count r ≤ _
        rw [below, List.flatMap_cons, List.count_append]
        omega
  | raise p => cases stack with
    | nil =>
        rw [← hresults]
        exact Nat.le_refl _
    | cons frame stack =>
        have hunwind := w.count_results_unwind (r := r) frame p
        show (ofMove (w.unwind frame p) stack).results.count r ≤ _
        rw [below, List.flatMap_cons, List.count_append]
        omega

/-- A step that makes a request adds its cell. -/
theorem count_results_make (h : m.Makes r) :
    m.step.results.count r ≤ m.results.count r + 1 ∧ m.step.world.cells.size = r + 1 := by
  obtain ⟨k, keys, found, call, rfl⟩ := h
  rw [step_call call]
  constructor
  · show (results ⟨m.world.addCell default, .call (.await found (.yank k keys m.world.cells.size)),
      .made m.world.cells.size :: m.stack⟩).count _ ≤ _
    rw [results, results, call]
    show ([m.world.cells.size] ++ (m.stack.flatMap Frame.results ++ m.world.results)).count _ ≤
      ([] ++ (m.stack.flatMap Frame.results ++ m.world.results)).count _ + 1
    rw [List.count_append, List.nil_append, List.count_singleton_self]
    omega
  · exact Arena.size_push _ _

end Machine

namespace History

variable {capacity : Nat} {m : Machine} {past : List Machine} {r : CellId}

/-- Every request is carried in one place at most, and its cell is there. -/
theorem count_results_le (h : History capacity m past) (r : CellId) :
    m.results.count r ≤ if r < m.world.cells.size then 1 else 0 := by
  induction h with
  | start => exact Nat.zero_le _
  | @step m past before busy ih =>
      have hsize := Machine.size_step before.sound
      -- A request is made with a new cell, which nothing can have carried before.
      by_cases makes : m.Makes r
      · obtain ⟨hcount, hsize'⟩ := Machine.count_results_make makes
        obtain ⟨-, -, -, -, rfl⟩ := makes
        rw [if_neg (Nat.lt_irrefl _)] at ih
        rw [if_pos (hsize' ▸ Nat.lt_succ_self _)]
        omega
      · have hcount := Machine.count_results_step before.sound makes
        refine hcount.trans (ih.trans ?_)
        split
        · next hr => rw [if_pos (Nat.lt_of_lt_of_le hr hsize)]
        · exact Nat.zero_le _
  | @enter m past before rest thread log call outside ih =>
      have hcount : (m.world.results).count r ≤ m.results.count r := by
        rw [Machine.results, List.count_append, List.count_append]
        omega
      have hentered : Machine.results ⟨{ m.world with thread, log }, .call call, []⟩ =
          m.world.results := by
        cases outside <;> rfl
      rw [hentered]
      exact hcount.trans ih

end History

end RequestGraph
