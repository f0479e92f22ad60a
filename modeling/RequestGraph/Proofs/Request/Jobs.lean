import RequestGraph.Proofs.Engine.Grounded

/-!
# Where the jobs of nodes come from

A job is on its way from the moment when it is dispatched until it is run: it is called, or waits in a queue.
Scripts can dispatch jobs of their own only. So the job of a node was dispatched by the first fetch of a key:

    the job of a node is on its way at m   →   some machine before m fetches a key, and dispatches it
-/

namespace RequestGraph

/-- The job that a call hands on. -/
def Call.job? : Call → Option Job
  | .dispatch _ j | .perform _ j | .job j => some j
  | .performQueued _ s => some s.job
  | _ => none

/-- The job that is handed on next. -/
def Control.job? : Control → Option Job
  | .call c => c.job?
  | _ => none

/-- Whether a job is one that a script may have dispatched. -/
def Job.isUser : Job → Bool
  | .user .. => true
  | .node .. => false

/-- A job waits in a queue, or for the worker. -/
def World.Queued (w : World) (j : Job) : Prop :=
  (∃ e, ∃ s ∈ w.executors.get e, s.job = j) ∨
    (∃ s ∈ w.worker.stack, s.job = j) ∨ ∃ s ∈ w.worker.injected, s.job = j

/-- The world after the cell of a node was claimed, and its start noted. -/
def World.starting (w : World) (c : CellId) (key : String) : World :=
  ({ w with freshToken := w.freshToken + 1 }.setCell c
    { w.cell c with phase := .listening, owner := some w.freshToken }).note (.node key)

namespace Machine

/-- A job is on its way. -/
def Plans (m : Machine) (j : Job) : Prop := m.control.job? = some j ∨ m.world.Queued j

/-- A fetch dispatches the node of a key. -/
def Dispatches (m : Machine) (k : ContextId) (index : KeyIndex) (key : String) (c : CellId)
    (node : Node) : Prop :=
  m.control = .call (.fetch k index key) ∧
    ∃ pool, (m.world.invoke (.fetch k index key)).control = .call (.dispatch pool (.node k c node))

end Machine

/-! ## Jobs that wait

Of the queues it only matters here which jobs are in them, and neither how many times nor in which order.
-/

theorem Arena.exists_get_iff {α : Type} [Inhabited α] (a : Arena α) {P : α → Prop} (blank : ¬P default) :
    (∃ i, P (a.get i)) ↔ ∃ x ∈ a.items.toList, P x := by
  constructor
  · rintro ⟨i, hi⟩
    have there : i < a.items.size := by
      by_contra out
      rw [a.get_of_size_le (Nat.le_of_not_lt out)] at hi
      exact blank hi
    refine ⟨a.items[i], Array.mem_toList_iff.mpr (Array.getElem_mem there), ?_⟩
    rwa [Arena.get, Array.getElem?_eq_getElem there] at hi
  · rintro ⟨x, hx, hP⟩
    obtain ⟨i, there, rfl⟩ := Array.mem_iff_getElem.mp (Array.mem_toList_iff.mp hx)
    refine ⟨i, ?_⟩
    rwa [Arena.get, Array.getElem?_eq_getElem there]

namespace World

variable {w : World} {j : Job}

theorem queued_iff : w.Queued j ↔ ∃ s ∈ w.waiting, s.job = j := by
  have executors := w.executors.exists_get_iff (P := fun queue => ∃ s ∈ queue, s.job = j) nofun
  rw [Queued, executors]
  simp only [waiting, List.mem_append, List.mem_flatMap, id, or_and_right, exists_or]
  grind

/-! ## Calls that hand jobs on

A job of a node enters a run at a fetch, and in no other way: scripts hand in jobs of their own, and
whatever else hands a job on has been given it.
-/

variable {k : ContextId} {c : CellId} {node : Node}

theorem isUser_of_isEntry {c : Call} (h : c.isEntry = true) (hj : c.job? = some j) :
    j.isUser = true := by
  cases c with
  | dispatch pool job => cases job with
    | user =>
      cases hj
      rfl
    | node => cases h
  | perform | performQueued | job => cases h
  | _ => cases hj

theorem job?_of_not_isCall {e : Control} (h : e.isCall = false) : e.job? = none := by
  cases e with
  | call => cases h
  | ret | raise => rfl

/-- An operation hands on jobs of scripts only. -/
theorem job?_operated {scope : Scope} {op : Op} {mv : Move} (hop : Operated w scope op mv) :
    mv.control.job? ≠ some (.node k c node) := by
  intro h
  cases hop with
  | answered _ ends | interned _ ends | froze _ ends =>
    exact nomatch (job?_of_not_isCall ends).symm.trans h
  | entered _ entry => exact nomatch isUser_of_isEntry entry h
  | @presented _ call _ _ _ _ _ presents => cases call <;> first | cases presents | cases h
  | _ => cases h

/-- A fetch hands on the job of a node of its own context only. -/
theorem job?_fetch {k' : ContextId} {index : KeyIndex} {key : String}
    (h : (w.fetch k' index key).control.job? = some (.node k c node)) :
    k' = k ∧ ∃ pool,
      (w.fetch k' index key).control = .call (.dispatch pool (.node k c node)) := by
  simp only [fetch] at h ⊢
  split at h
  · next won =>
    rw [if_pos won]
    split at h
    · next hpush =>
      simp only [startCell] at h ⊢
      split at h
      · cases h
      · split at h
        · cases h
        · cases h
          exact ⟨rfl, _, rfl⟩
    · cases h
  · cases h

/-- The job of a node that is handed on after a call was handed on before, or is taken up, or is dispatched by
a fetch. -/
theorem job?_invoke {call : Call} (sound : w.Sound)
    (h : (w.invoke call).control.job? = some (.node k c node)) :
    call.job? = some (.node k c node) ∨
      (∃ s ∈ (w.invoke call).control.jobs Call.takesUp, s.job = .node k c node) ∨
      ∃ index key, call = .fetch k index key ∧ ∃ pool,
        (w.invoke call).control = .call (.dispatch pool (.node k c node)) := by
  have hspec := invoke_spec sound call
  generalize hmv : w.invoke call = mv at hspec
  rw [hmv] at h
  -- Calls that only pass the job on, calls that take it out of a queue, and fetches.
  cases hspec with
  | operated hop => exact absurd h (job?_operated hop)
  | performing | performed | performedQueued => exact .inl h
  | drained | worked => exact .inr (.inl ⟨_, List.mem_singleton_self _, Option.some.inj h⟩)
  | fetchedNew =>
    rw [← hmv] at h
    obtain ⟨rfl, hdispatch⟩ := job?_fetch h
    rw [← hmv]
    exact .inr (.inr ⟨_, _, rfl, hdispatch⟩)
  | _ => cases h

/-! ## Running the job of a node

When its turn comes, the job of a node tries to claim the cell. It comes too late if somebody has completed
or claimed that by then.
-/

/-- The job of a node does nothing if the cell is claimed or completed by then. -/
theorem job_of_taken (sound : w.Sound)
    (taken : (w.cell c).isRealized = true ∨ (w.cell c).owner ≠ none) :
    w.invoke (.job (.node k c node)) = w.ret .unit := by
  have htaken : ((w.cell c).isRealized || (w.cell c).isClaimed) = true := by
    rw [Bool.or_eq_true, Cell.isClaimed, Option.isSome_iff_ne_none]
    exact taken
  show w.job (.node k c node) = _
  simp only [job, tryClaim_eq sound, htaken, if_true]

/-- Otherwise it claims the cell, and runs the node. -/
theorem job_of_free (sound : w.Sound) (pending : (w.cell c).isRealized = false)
    (unowned : (w.cell c).owner = none) :
    w.invoke (.job (.node k c node)) = (w.starting c node.key).call
      (.script node.body { context := some k, claim := some ⟨c, w.freshToken⟩ })
      [.guarding ⟨c, w.freshToken⟩] := by
  have hfree : ((w.cell c).isRealized || (w.cell c).isClaimed) = false := by
    rw [pending, Cell.isClaimed, unowned]
    rfl
  show w.job (.node k c node) = _
  simp only [job, tryClaim_eq sound, hfree, Bool.false_eq_true, if_false]
  rfl

end World

/-! ## Jobs on their way

The induction goes backwards along a history, until the fetch is found that has dispatched the job.
-/

namespace Machine

variable {m : Machine} {k : ContextId} {c : CellId} {node : Node} {thread : Thread}
  {log : List Event} {call : Call}

/-- A job that is handed in, or is to begin, is on its way. -/
theorem plans_of_mem {s : Submission Job} (h : s ∈ m.handsIn ++ m.pending) : m.Plans s.job := by
  obtain ⟨w, control, stack⟩ := m
  have waits (hs : s ∈ w.waiting) : w.Queued s.job := World.queued_iff.mpr ⟨s, hs, rfl⟩
  cases control with
  | ret | raise => exact .inr (waits h)
  | call c => cases c with
    | dispatch pool j =>
      rcases List.mem_cons.mp h with rfl | h
      · exact .inl rfl
      · exact .inr (waits h)
    | perform | performQueued =>
      rcases List.mem_cons.mp h with rfl | h
      · exact .inl rfl
      · exact .inr (waits h)
    | _ => exact .inr (waits h)

/-- The job of a node that is on its way was on its way before, or has just been dispatched. -/
theorem Plans.of_step (h : m.step.Plans (.node k c node)) (sound : m.world.Sound) (grounded : m.Grounded) :
    m.Plans (.node k c node) ∨ ∃ index key, m.Dispatches k index key c node := by
  -- Jobs are not made up, so one that is planned after the step was there before, or it was dispatched by
  -- it.
  have before {s : Submission Job} (hs : s ∈ m.step.pending) : m.Plans s.job :=
    plans_of_mem ((perm_step sound grounded).mem_iff.mpr (List.mem_append_right _ hs))
  rcases h with h | h
  · obtain ⟨w, control, stack⟩ := m
    cases control with
    | call call =>
      rcases World.job?_invoke sound h with h | ⟨s, hs, hj⟩ | ⟨index, key, rfl, dispatched⟩
      · exact .inl (.inl h)
      · exact .inl (hj ▸ before (List.mem_append_left _ hs))
      · exact .inr ⟨index, key, rfl, dispatched⟩
    | ret r => cases stack with
      | nil => exact .inl (.inl h)
      | cons frame stack =>
        have hspec := w.resume_spec frame r
        have h : (w.resume frame r).control.job? = some (.node k c node) := h
        generalize w.resume frame r = mv at hspec h
        cases hspec <;> cases h
    | raise p => cases stack with
      | nil => exact .inl (.inl h)
      | cons frame stack =>
        have h : (w.unwind frame p).control.job? = some (.node k c node) := h
        cases frame <;> cases h
  · obtain ⟨s, hs, hj⟩ := World.queued_iff.mp h
    exact .inl (hj ▸ before (List.mem_append_right _ hs))

/-- What is begun from the outside hands on no job. -/
theorem Plans.of_enter {j : Job} (outside : call.Outside)
    (h : (⟨{ m.world with thread, log }, .call call, []⟩ : Machine).Plans j) : m.world.Queued j := by
  rcases h with h | h
  · cases outside <;> cases h
  · exact h

end Machine

namespace History

variable {capacity : Nat} {m : Machine} {past : List Machine} {k : ContextId} {c : CellId}
  {node : Node}

/-- The job of a node that is on its way was dispatched by a fetch. -/
theorem dispatched_of_plans (h : History capacity m past) (hj : m.Plans (.node k c node)) :
    ∃ x ∈ past, ∃ index key, x.Dispatches k index key c node := by
  induction h with
  | start =>
      rcases hj with hj | hj
      · cases hj
      · obtain ⟨s, hs, -⟩ := World.queued_iff.mp hj
        cases hs
  | @step m past before _ ih =>
      rcases hj.of_step before.sound before.grounded with hj | ⟨index, key, hdispatches⟩
      · obtain ⟨x, hx, hdispatched⟩ := ih hj
        exact ⟨x, List.mem_cons_of_mem _ hx, hdispatched⟩
      · exact ⟨m, List.mem_cons_self, index, key, hdispatches⟩
  | enter _ _ _ _ outside ih =>
      obtain ⟨x, hx, hdispatched⟩ := ih (.inr (hj.of_enter outside))
      exact ⟨x, List.mem_cons_of_mem _ hx, hdispatched⟩

end History

end RequestGraph
