import RequestGraph.Proofs.Engine.Grounded

/-!
# Executors that run jobs at once

What an executor does with a job that is submitted to it is its own affair: it queues the job, or it runs it
before it comes back. A *free history* is one in which executors decide that anew with each job. Histories in
which all jobs are queued are among them, and all that holds of machines whatever is queued holds in each.
-/

namespace RequestGraph

/-- Hands a job to a pool whose executor runs at once what is submitted to it. -/
def World.dispatchAtOnce (w : World) (pool : Pool) (j : Job) : Move :=
  match pool.strategy with
  | .executor e =>
    if w.thread.inside = some e then w.dispatch pool j
    else w.call (.performQueued e ⟨pool.ambient, j⟩)
  | _ => w.dispatch pool j

namespace Machine

/-- One step, where an executor runs at once what is submitted to it. -/
def stepAtOnce (m : Machine) : Machine :=
  match m.control with
  | .call (.dispatch pool j) => ofMove (m.world.dispatchAtOnce pool j) m.stack
  | _ => m.step

/-- One step, whatever an executor does with what is submitted to it. -/
inductive Goes (m : Machine) : Machine → Prop
  | queueing : Goes m m.step
  | atOnce : Goes m m.stepAtOnce

/-- A job is submitted to an executor, which is not the one whose job is running already. -/
structure Submits (m : Machine) (e : ExecutorId) (s : Submission Job) : Prop where
  call : ∃ pool, m.control = .call (.dispatch pool s.job) ∧ pool.strategy = .executor e ∧
    pool.ambient = s.ambient
  outside : m.world.thread.inside ≠ some e

end Machine

/-- The runs so far, newest machine first, where executors are free to run jobs at once. What is begun from the
outside is begun by a thread that is not running a job of an executor. -/
inductive FreeHistory (capacity : ℕ) : Machine → List Machine → Prop
  | start (clock : Clock := {}) : FreeHistory capacity ⟨World.start capacity clock, .ret .unit, []⟩ []
  | go {m m' : Machine} {past : List Machine} (before : FreeHistory capacity m past)
      (busy : m.atRest = false) (goes : m.Goes m') : FreeHistory capacity m' (m :: past)
  | enter {m : Machine} {past : List Machine} (before : FreeHistory capacity m past)
      (rest : m.atRest = true) (thread : Thread) (unmarked : thread.inside = none) (log : List Event)
      {c : Call} (outside : c.Outside) :
      FreeHistory capacity ⟨{ m.world with thread, log }, .call c, []⟩ (m :: past)

namespace Machine

open scoped List

variable {m m' : Machine} {pool : Pool} {j : Job}

theorem stepAtOnce_of_not_submits (h : ∀ e s, ¬m.Submits e s) : m.stepAtOnce = m.step := by
  obtain ⟨w, control, stack⟩ := m
  unfold stepAtOnce
  split
  · next pool j call =>
    cases call
    show ofMove (w.dispatchAtOnce pool j) stack = ofMove (w.dispatch pool j) stack
    unfold World.dispatchAtOnce
    split
    · next e strategy =>
      split
      · rfl
      · next outside => exact absurd ⟨⟨pool, rfl, strategy, rfl⟩, outside⟩ (h e ⟨pool.ambient, j⟩)
    · rfl
  · rfl

/-- What an executor that runs jobs at once does with one that is submitted to it. -/
theorem Submits.stepAtOnce_eq {e : ExecutorId} {s : Submission Job} (h : m.Submits e s) :
    m.stepAtOnce = ⟨m.world, .call (.performQueued e s), m.stack⟩ := by
  obtain ⟨⟨pool, call, strategy, ambient⟩, outside⟩ := h
  simp only [stepAtOnce, call, World.dispatchAtOnce, strategy, if_neg outside, ambient]
  rfl

/-- What an executor that queues jobs does with it. -/
theorem Submits.step_eq {e : ExecutorId} {s : Submission Job} (h : m.Submits e s) :
    m.step = ⟨{ m.world with executors := m.world.executors.modify e (· ++ [s]) }, .ret .unit, m.stack⟩ := by
  obtain ⟨⟨pool, call, strategy, ambient⟩, outside⟩ := h
  rw [step_call call]
  simp only [World.invoke, World.dispatch, strategy, if_neg outside, ambient]
  rfl

/-- Apart from running a job at once, a free step is a step. -/
theorem Goes.cases (h : m.Goes m') : m' = m.step ∨
    ∃ e s, m.Submits e s ∧ m' = ⟨m.world, .call (.performQueued e s), m.stack⟩ := by
  cases h with
  | queueing => exact .inl rfl
  | atOnce =>
    by_cases submits : ∃ e s, m.Submits e s
    · obtain ⟨e, s, submits⟩ := submits
      exact .inr ⟨e, s, submits, submits.stepAtOnce_eq⟩
    · exact .inl (stepAtOnce_of_not_submits fun e s h => submits ⟨e, s, h⟩)

/-- What holds of the jobs of one step holds of those of all steps so far. -/
theorem perm_flatMap_cons {past : List Machine}
    (before : past.flatMap handsIn ~ past.flatMap begins ++ m.pending)
    (step : m.handsIn ++ m.pending ~ m.begins ++ m'.pending) :
    (m :: past).flatMap handsIn ~ (m :: past).flatMap begins ++ m'.pending := by
  simp only [List.flatMap_cons]
  calc m.handsIn ++ past.flatMap handsIn
      ~ m.handsIn ++ (past.flatMap begins ++ m.pending) := before.append_left _
    _ ~ past.flatMap begins ++ (m.handsIn ++ m.pending) := List.perm_append_comm_assoc ..
    _ ~ past.flatMap begins ++ (m.begins ++ m'.pending) := step.append_left _
    _ ~ m.begins ++ (past.flatMap begins ++ m'.pending) := List.perm_append_comm_assoc ..
    _ ~ m.begins ++ past.flatMap begins ++ m'.pending := by rw [List.append_assoc]

end Machine

/-! ## What holds along a free history

An executor may take a job at any time and in any order, or the machine goes on by itself. Whatever is kept
by both is kept along such a history.
-/

/-- A history that queues all jobs is a free one, if no thread is marked on which nothing runs. -/
theorem History.free {capacity : ℕ} {m : Machine} {past : List Machine} (h : History capacity m past)
    (unmarked : ∀ x ∈ m :: past, x.stack = [] → x.world.thread.inside = none) :
    FreeHistory capacity m past := by
  induction h with
  | start clock => exact .start clock
  | step _ busy ih =>
    exact .go (ih fun x hx => unmarked x (List.mem_cons_of_mem _ hx)) busy .queueing
  | enter _ rest thread log outside ih =>
    exact .enter (ih fun x hx => unmarked x (List.mem_cons_of_mem _ hx)) rest thread
      (unmarked _ List.mem_cons_self rfl) log outside

namespace FreeHistory

variable {capacity : ℕ} {m : Machine} {past : List Machine}

theorem wellFormed (h : FreeHistory capacity m past) :
    m.world.Sound ∧ m.world.TablesSound ∧ m.Grounded := by
  induction h with
  | start clock =>
    have start : History capacity _ _ := .start clock
    exact ⟨start.sound, start.tablesSound, start.grounded⟩
  | @go m m' past _ _ goes ih =>
    obtain ⟨sound, tables, grounded⟩ := ih
    rcases goes.cases with rfl | ⟨e, s, submits, rfl⟩
    · exact ⟨Machine.step_sound sound, Machine.step_tablesSound sound tables,
        (grounded.advance sound tables).1⟩
    · obtain ⟨pool, call, -, -⟩ := submits.call
      exact ⟨sound, tables, grounded.world, (grounded.call call).2, grounded.stack⟩
  | enter _ _ _ _ _ outside ih =>
    obtain ⟨sound, tables, grounded⟩ := ih
    refine ⟨sound.of_cells_eq rfl, ⟨tables.keys, tables.contexts⟩, grounded.world, ?_, Frame.within_nil⟩
    cases outside with
    | operate op => exact ⟨nofun, nofun⟩
    | work => trivial

/-- **Every job begins once, or waits.** The jobs that were handed in, each with the ambient that it is to run
under, are those that have begun and those that are to begin. -/
theorem perm_handsIn (h : FreeHistory capacity m past) :
    (past.flatMap Machine.handsIn).Perm (past.flatMap Machine.begins ++ m.pending) := by
  induction h with
  | start => exact .refl _
  | @go m m' past before _ goes ih =>
    obtain ⟨sound, -, grounded⟩ := before.wellFormed
    refine Machine.perm_flatMap_cons ih ?_
    rcases goes.cases with rfl | ⟨e, s, submits, rfl⟩
    · exact Machine.perm_step sound grounded
    · obtain ⟨pool, call, -, ambient⟩ := submits.call
      rw [Machine.handsIn, Machine.begins, Machine.pending, call]
      simp only [Control.jobs, Call.handsIn, Call.takesUp, Call.begins, ambient]
      exact .refl _
  | @enter m past _ rest thread _ log c outside ih =>
    refine Machine.perm_flatMap_cons ih ?_
    obtain ⟨w, control, stack⟩ := m
    cases control with
    | call => cases rest
    | ret | raise => cases outside <;> exact .refl _

/-- A job that has begun, or is to begin, was handed in under its ambient. -/
theorem exists_dispatch (h : FreeHistory capacity m past) {s : Submission Job}
    (hs : s ∈ past.flatMap Machine.begins ++ m.pending) :
    ∃ x ∈ past, ∃ pool, x.control = .call (.dispatch pool s.job) ∧ pool.ambient = s.ambient := by
  obtain ⟨x, hx, handsIn⟩ := List.mem_flatMap.mp (h.perm_handsIn.mem_iff.mpr hs)
  refine ⟨x, hx, ?_⟩
  unfold Machine.handsIn Control.jobs at handsIn
  split at handsIn
  · next c call =>
    cases c with
    | dispatch pool j =>
      obtain rfl := List.mem_singleton.mp handsIn
      exact ⟨pool, call, rfl⟩
    | _ => cases handsIn
  · cases handsIn

end FreeHistory

end RequestGraph
