import RequestGraph.Proofs.FanIn.Settling
import RequestGraph.Proofs.Request.Gathering
import RequestGraph.Proofs.Request.Progress

/-!
# Requests along histories

From the moment when a request has gathered its cells, it is at one of its stages all the time, whatever is
done meanwhile and from wherever it is begun.
-/

namespace RequestGraph

namespace Machine

variable {m : Machine} {k : ContextId} {keys : List String} {r : CellId} {cells : List CellId}
  {past : List Machine} {thread : Thread} {log : List Event} {c : Call}

/-! ## What is begun from the outside

At rest a request is waiting or done. To begin a call changes no cell and no fan-in, so the stage is the
same afterwards.
-/

theorem Answers.enter {o : Outcome} (h : m.Answers past k keys r o) :
    (m.enter thread log c).Answers (m :: past) k keys r o := by
  cases h with
  | view frozen has => exact .view frozen has
  | error frozen caused taken =>
      obtain ⟨x, hx, taken⟩ := taken
      exact .error frozen caused ⟨x, List.mem_cons_of_mem _ hx, taken⟩

theorem Stage.enter (stage : m.Stage past k keys r cells) (rest : m.atRest = true)
    (outside : c.Outside) : (m.enter thread log c).Stage (m :: past) k keys r cells := by
  obtain ⟨hcontrol, hstack⟩ := atRest_iff.mp rest
  have busy {call : Call} (hcall : m.control = .call call) : False := by
    rw [hcall] at hcontrol
    cases hcontrol
  cases stage with
  | pursuing pending idle pursues => cases pursues with
    | awaiting call => exact (busy call).elim
    | waiting awaits =>
        refine .pursuing pending ?_ (.waiting (awaits.enter rest outside))
        rintro ⟨o, a, hcall, -⟩
        cases hcall
        cases outside
    | concluding call => exact (busy call).elim
    | cancelling justified cancels runs =>
        rw [runs] at hstack
        exact absurd hstack (List.append_ne_nil_of_right_ne_nil _ (List.cons_ne_nil _ _))
  | completing completing => exact (busy completing.call).elim
  | done stored released answers =>
      refine .done stored (fun hr => released ?_) answers.enter
      have hworld : r ∈ m.world.results := by
        rcases List.mem_append.mp hr with hr | hr
        · cases outside <;> cases hr
        · exact hr
      exact List.mem_append_right _ (List.mem_append_right _ hworld)

/-- A request that has gathered its cells is at its first stage. -/
theorem stage_of_gathered (sound : m.world.Sound) (tables : m.world.TablesSound)
    (call : m.control = .call (.gather k [] keys cells)) (opened : k < m.world.contexts.size)
    (holds : List.Forall₂ (m.world.Holds k) keys cells)
    (there : ∀ c ∈ cells, c < m.world.cells.size) :
    m.step.Stage (m :: past) k keys m.world.cells.size cells ∧
      m.step.world.Gathered k keys m.world.cells.size cells := by
  have hstep : m.step = ⟨m.world.addCell default,
      .call (.await cells (.yank k keys m.world.cells.size)), .made m.world.cells.size :: m.stack⟩ := by
    rw [step_call call]
    rfl
  have hsize : m.step.world.cells.size = m.world.cells.size + 1 := by
    rw [hstep]
    exact Arena.size_push _ _
  constructor
  · refine .pursuing ?_ ?_ (.awaiting (by rw [hstep]))
    · rw [hstep]
      show ((m.world.addCell default).cell _).isRealized = false
      rw [World.cell, World.addCell, Arena.get_push_size]
      rfl
    · rintro ⟨o, a, hcall, -⟩
      rw [hstep] at hcall
      cases hcall
  · refine ⟨Nat.lt_of_lt_of_le opened (size_contexts_step sound tables),
      holds.imp fun _ _ hc => step_holds sound tables hc, fun c hc => ?_, ?_⟩
    · rw [hsize]
      exact Nat.lt_succ_of_lt (there c hc)
    · rw [hsize]
      exact Nat.lt_succ_self _

end Machine

namespace History

variable {capacity : ℕ} {m g x : Machine} {past : List Machine} {k : ContextId} {keys : List String}
  {r : CellId} {cells : List CellId}

/-- What a step of a history needs to know of the run, if nobody interferes with a request. -/
theorem course (h : History capacity m past) (orderly : m.Orderly) (sink : m.SinkReturns)
    (unowned : (m.world.cell r).owner = none) (own : m.step.Completes r → m.EndsRequest r) :
    m.Course r where
  sound := h.sound
  tables := h.tablesSound
  placed := h.placed
  orderly := orderly
  fresh := h.fresh
  sink := sink
  carried := by
    refine (h.count_results_le r).trans ?_
    split
    · exact Nat.le_refl _
    · exact Nat.zero_le _
  unowned := unowned
  own := own

/-- A request that has gathered its cells is at one of its stages from then on. -/
theorem stage (h : History capacity m past) (hg : g ∈ past)
    (call : g.control = .call (.gather k [] keys cells)) (opened : k < g.world.contexts.size)
    (holds : List.Forall₂ (g.world.Holds k) keys cells)
    (there : ∀ c ∈ cells, c < g.world.cells.size) (sink : ∀ x ∈ past, x.SinkReturns)
    (alone : Undisturbed g.world.cells.size past) :
    m.Stage past k keys g.world.cells.size cells ∧
      m.world.Gathered k keys g.world.cells.size cells := by
  -- By induction on the history, from the step that makes the request on.
  induction h with
  | start => cases hg
  | @step m past before busy ih =>
      have sink' : ∀ x ∈ past, x.SinkReturns := fun x hx => sink x (List.mem_cons_of_mem _ hx)
      rcases List.mem_cons.mp hg with rfl | hg
      · exact Machine.stage_of_gathered before.sound before.tablesSound call opened holds there
      · obtain ⟨hstage, hgathered⟩ := ih hg sink'
          ⟨fun x hx => alone.unowned x (List.mem_cons_of_mem _ hx),
            fun x hx => alone.own x (List.mem_cons_of_mem _ hx)⟩
        have hcourse := before.course (r := g.world.cells.size) (before.orderly sink')
          (sink m List.mem_cons_self) (alone.unowned m List.mem_cons_self)
          (alone.own m List.mem_cons_self)
        exact ⟨hstage.step hcourse hgathered,
          Machine.Gathered.step hgathered before.sound before.tablesSound⟩
  | @enter m past before rest thread log c outside ih =>
      rcases List.mem_cons.mp hg with rfl | hg
      · cases rest.symm.trans (Machine.busy_of_call call)
      · obtain ⟨hstage, hgathered⟩ := ih hg (fun x hx => sink x (List.mem_cons_of_mem _ hx))
          ⟨fun x hx => alone.unowned x (List.mem_cons_of_mem _ hx),
            fun x hx => alone.own x (List.mem_cons_of_mem _ hx)⟩
        exact ⟨hstage.enter rest outside,
          ⟨hgathered.opened, hgathered.holds, hgathered.there, hgathered.result⟩⟩

end History

end RequestGraph
