import RequestGraph.Proofs.Engine.Flow
import RequestGraph.Proofs.Engine.Stock
import RequestGraph.Proofs.Engine.Within

/-!
# Where jobs wait

A job is handed in with the ambient that it is to run under. From then on it waits in the queue of an executor
or for the worker, or it is taken up, until it begins. Jobs are neither made up, nor doubled, nor lost on the
way:

    those begun by a step, with those waiting after it
      =  those handed in by the step, with those waiting before        up to order
-/

namespace RequestGraph

/-- The jobs that wait with executors and for the worker. -/
def World.waiting (w : World) : List (Submission Job) :=
  w.executors.items.toList.flatMap id ++ (w.worker.stack ++ w.worker.injected)

namespace Call

/-- The job that a call hands in. -/
def handsIn : Call → List (Submission Job)
  | .dispatch pool j => [⟨pool.ambient, j⟩]
  | _ => []

/-- The job that a call has taken up. -/
def takesUp : Call → List (Submission Job)
  | .perform a j => [⟨a, j⟩]
  | .performQueued _ s => [s]
  | _ => []

/-- The job that a call begins. -/
def begins : Call → List (Submission Job)
  | .perform a j => [⟨a, j⟩]
  | _ => []

end Call

/-- What holds of the call that is next, or else is empty. -/
def Control.jobs (of : Call → List (Submission Job)) : Control → List (Submission Job)
  | .call c => of c
  | _ => []

namespace Machine

/-- The job that the next step hands in. -/
def handsIn (m : Machine) : List (Submission Job) := m.control.jobs Call.handsIn

/-- The job that the next step begins. -/
def begins (m : Machine) : List (Submission Job) := m.control.jobs Call.begins

/-- The jobs that are to begin. -/
def pending (m : Machine) : List (Submission Job) := m.control.jobs Call.takesUp ++ m.world.waiting

end Machine

/-! ## Queues

The jobs that wait, as a list up to order, after each change of a queue. In which order an executor takes
them is left to the schedule.
-/

/-- A change in place is a replacement. -/
theorem Arena.modify_eq_set {α : Type} [Inhabited α] (a : Arena α) (i : ℕ) (f : α → α) :
    a.modify i f = a.set i (f (a.get i)) := by
  obtain ⟨items⟩ := a
  simp only [set, modify, get, mk.injEq]
  apply Array.ext (by simp)
  intro j hj hj'
  rw [Array.getElem_modify, Array.getElem_modify]
  split
  · next h =>
    subst h
    rw [Array.size_modify] at hj
    simp [hj]
  · rfl

/-- Whatever the order, taking from a queue takes one job and keeps the others. -/
theorem perm_of_take? {α : Type} {order : QueueOrder} {queue rest : List α} {a : α}
    (h : order.take? queue = some (a, rest)) : queue.Perm (a :: rest) := by
  cases order with
  | oldestFirst => cases queue with
    | nil => cases h
    | cons b queue =>
      cases h
      exact .refl _
  | newestFirst =>
    simp only [QueueOrder.take?] at h
    split at h
    · cases h
    · next last =>
      cases h
      have perm := List.perm_append_singleton a queue.dropLast
      rwa [List.dropLast_append_getLast? a last] at perm

/-- The worker takes one job and keeps the others. -/
theorem Worker.perm_of_next? {κ : Type} {worker rest : Worker κ} {s : Submission κ}
    (h : worker.next? = some (s, rest)) :
    (worker.stack ++ worker.injected).Perm (s :: (rest.stack ++ rest.injected)) := by
  obtain ⟨injected, stack⟩ := worker
  cases stack with
  | cons s stack =>
    cases h
    exact .refl _
  | nil => cases injected with
    | cons s injected =>
      cases h
      exact .refl _
    | nil => cases h

/-- The worker gets one job and keeps those that it has. -/
theorem Worker.perm_add {κ : Type} (worker : Worker κ) (byWorker : Bool) (s : Submission κ) :
    ((worker.add byWorker s).stack ++ (worker.add byWorker s).injected).Perm
      (s :: (worker.stack ++ worker.injected)) := by
  cases byWorker with
  | true => exact .refl _
  | false =>
    show (worker.stack ++ (worker.injected ++ [s])).Perm _
    rw [← List.append_assoc]
    exact List.perm_append_singleton _ _

namespace World

variable {w : World} {e : ExecutorId} {s : Submission Job}

/-- Jobs wait in the stock of a world. -/
theorem waiting_of_stock {w' : World} (stock : w'.stock = w.stock) : w'.waiting = w.waiting := by
  have executors : w'.executors = w.executors := congrArg Stock.executors stock
  have worker : w'.worker = w.worker := congrArg Stock.worker stock
  rw [waiting, executors, worker, waiting]

/-- A job that is added to a queue waits from then on. -/
theorem perm_waiting_append (there : e < w.executors.size) :
    ({ w with executors := w.executors.modify e (· ++ [s]) } : World).waiting.Perm (s :: w.waiting) := by
  obtain ⟨rest, before, after⟩ := w.executors.perm_flatMap_set there id
  have middle : (w.executors.get e ++ [s] ++ rest).Perm (s :: (w.executors.get e ++ rest)) := by
    rw [List.append_assoc]
    exact List.perm_middle
  have queues : ((w.executors.modify e (· ++ [s])).items.toList.flatMap id).Perm
      (s :: w.executors.items.toList.flatMap id) := by
    rw [Arena.modify_eq_set]
    exact ((after _).trans middle).trans (before.symm.cons s)
  exact queues.append_right _

/-- A job that is taken out of a queue waits no longer. -/
theorem perm_waiting_take {order : QueueOrder} {rest : List (Submission Job)}
    (h : order.take? (w.executors.get e) = some (s, rest)) :
    w.waiting.Perm (s :: ({ w with executors := w.executors.set e rest } : World).waiting) := by
  have taken := perm_of_take? h
  have there : e < w.executors.size := by
    by_contra out
    rw [Arena.get_of_size_le _ (Nat.le_of_not_lt out)] at taken
    cases taken.nil_eq
  obtain ⟨others, before, after⟩ := w.executors.perm_flatMap_set there id
  have queues : (w.executors.items.toList.flatMap id).Perm
      (s :: (w.executors.set e rest).items.toList.flatMap id) :=
    (before.trans (taken.append_right others)).trans ((after rest).symm.cons s)
  exact queues.append_right _

/-- A new queue is empty. -/
theorem waiting_makePool (as : String) (kind : PoolKind) (ambient : Ambient) :
    (w.makePool as kind ambient).waiting = w.waiting := by
  cases kind with
  | inline | worker => rfl
  | queue =>
    have queues : (w.executors.push []).items.toList.flatMap id = w.executors.items.toList.flatMap id := by
      simp [Arena.push]
    exact congrArg (· ++ (w.worker.stack ++ w.worker.injected)) queues

/-- An operation hands no job in by itself. -/
theorem waiting_operate {scope : Scope} {op : Op} : (w.operate scope op).world.waiting = w.waiting := by
  cases stocks : op.stocks with
  | false => exact waiting_of_stock (stock_operate stocks)
  | true =>
    have stocked := stocked_operate w scope stocks
    generalize w.operate scope op = mv at stocked
    cases stocked with
    | pooled => exact waiting_makePool ..
    | _ => rfl

/-- Fetching hands in jobs by a call of its own. -/
theorem waiting_fetch {k : ContextId} {index : KeyIndex} {key : String} :
    (w.fetch k index key).world.waiting = w.waiting := by
  simp only [fetch]
  split
  · split
    · simp only [startCell]
      split
      · rfl
      · split <;> rfl
    · rfl
  · rfl

/-- Most calls leave the jobs that wait alone. -/
theorem waiting_invoke {c : Call} (h : c.queues = false) : (w.invoke c).world.waiting = w.waiting := by
  cases stocks : c.stocks with
  | false => exact waiting_of_stock (stock_invoke stocks)
  | true => cases c with
    | op op scope => exact waiting_operate
    | fetch k index key => exact waiting_fetch
    | dispatch | drain | work => cases h
    | _ => cases stocks

/-! ## Steps

A job is handed in by one call, and begun by a later one. In between it waits, or is in the hands of the
call that has taken it up.
-/

/-- What a dispatch hands in is taken up at once, or waits. -/
theorem perm_dispatch {pool : Pool} {j : Job} (within : pool.Within w.extent) :
    (⟨pool.ambient, j⟩ :: w.waiting).Perm
      ((w.dispatch pool j).control.jobs Call.takesUp ++ (w.dispatch pool j).world.waiting) := by
  simp only [dispatch]
  split
  · exact .refl _
  · next e strategy =>
    split
    · exact .refl _
    · exact (perm_waiting_append (within e strategy)).symm
  · refine (List.perm_middle.symm.trans ?_ : List.Perm (_ :: (_ ++ _)) _)
    exact ((w.worker.perm_add w.thread.isWorker ⟨pool.ambient, j⟩).symm.append_left _)

/-- Draining takes up the jobs that it takes from the queue. -/
theorem perm_drain {limit : Option ℕ} {order : QueueOrder} {ran : ℕ} :
    w.waiting.Perm ((w.drain e limit order ran).control.jobs Call.takesUp ++
      (w.drain e limit order ran).world.waiting) := by
  simp only [drain]
  split
  · exact .refl _
  · exact .refl _
  · next taken => exact perm_waiting_take taken

/-- Working takes up the jobs that it takes from the worker. -/
theorem perm_work :
    w.waiting.Perm (w.work.control.jobs Call.takesUp ++ w.work.world.waiting) := by
  simp only [work]
  split
  · exact .refl _
  · next s worker next =>
    exact ((Worker.perm_of_next? next).append_left _).trans List.perm_middle

/-- Operations take up no jobs. -/
theorem takesUp_of_isEntry {c : Call} (h : c.isEntry = true) : c.takesUp = [] := by
  cases c with
  | perform | performQueued => cases h
  | _ => rfl

/-- Completions take up no jobs. -/
theorem takesUp_of_presents {c : Call} {cell : CellId} {t : Token} (h : c.presents = some (cell, t)) :
    c.takesUp = [] := by
  cases c with
  | perform | performQueued => cases h
  | _ => rfl

theorem takesUp_of_not_isCall {e : Control} (h : e.isCall = false) : e.jobs Call.takesUp = [] := by
  cases e with
  | call => cases h
  | ret | raise => rfl

/-- Calls that do not have to do with jobs take none up. -/
theorem takesUp_invoke (sound : w.Sound) {c : Call} (none : c.takesUp = []) (h : c.queues = false)
    (noDispatch : c.handsIn = []) : (w.invoke c).control.jobs Call.takesUp = [] := by
  have hspec := invoke_spec sound c
  generalize w.invoke c = mv at hspec
  cases hspec with
  | operated hop => cases hop with
    | answered _ ends | interned _ ends | froze _ ends => exact takesUp_of_not_isCall ends
    | entered _ entry => exact takesUp_of_isEntry entry
    | presented _ _ presents => exact takesUp_of_presents presents
    | _ => rfl
  | performing => cases noDispatch
  | performed | performedQueued => cases none
  | drained | worked => cases h
  | fetchedNew _ _ _ starts => cases starts <;> rfl
  | _ => rfl

/-- Whatever is called, no job is made up, doubled or lost. -/
theorem perm_invoke (sound : w.Sound) {c : Call} (within : c.Within w.extent) :
    (c.handsIn ++ (c.takesUp ++ w.waiting)).Perm
      (c.begins ++ ((w.invoke c).control.jobs Call.takesUp ++ (w.invoke c).world.waiting)) := by
  have quiet (handsIn : c.handsIn = []) (takesUp : c.takesUp = []) (begins : c.begins = [])
      (queues : c.queues = false) : (c.handsIn ++ (c.takesUp ++ w.waiting)).Perm
        (c.begins ++ ((w.invoke c).control.jobs Call.takesUp ++ (w.invoke c).world.waiting)) := by
    rw [handsIn, takesUp, begins, takesUp_invoke sound takesUp queues handsIn, waiting_invoke queues]
  cases c with
  | dispatch pool j => exact perm_dispatch within.1
  | drain => exact perm_drain
  | work => exact perm_work
  | perform | performQueued => exact .refl _
  | _ => exact quiet rfl rfl rfl rfl

end World

/-- **Jobs are kept.** The jobs that a step begins, and those that are to begin after it, are those that it hands
in, and those that were to begin before it. -/
theorem Machine.perm_step {m : Machine} (sound : m.world.Sound) (grounded : m.Grounded) :
    (m.handsIn ++ m.pending).Perm (m.begins ++ m.step.pending) := by
  have within := grounded.control
  obtain ⟨w, control, stack⟩ := m
  cases control with
  | call c => exact World.perm_invoke sound within
  | ret r => cases stack with
    | nil => exact .refl _
    | cons frame stack =>
      have waiting : (w.resume frame r).world.waiting = w.waiting :=
        World.waiting_of_stock (World.kept_resume frame r).1
      have hspec := w.resume_spec frame r
      show w.waiting.Perm ((w.resume frame r).control.jobs Call.takesUp ++ (w.resume frame r).world.waiting)
      rw [waiting]
      generalize w.resume frame r = mv at hspec
      cases hspec <;> exact .refl _
  | raise p => cases stack with
    | nil => exact .refl _
    | cons frame stack => cases frame <;> exact .refl _

end RequestGraph
