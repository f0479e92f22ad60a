import RequestGraph.Ambient

/-!
# Pools

A pool says where jobs run, and under which ambient: at once, on an executor that queues them, or on
the worker thread. A thread that is running a job of an executor runs further jobs for that executor
at once.
-/

namespace RequestGraph

/-- The number of an executor. -/
abbrev ExecutorId := Nat

/-- Where the jobs of a pool run. -/
inductive Strategy where
  /-- On the dispatching thread, at once. -/
  | inline
  /-- Queued with an executor. -/
  | executor (id : ExecutorId)
  /-- On the worker thread. -/
  | worker
deriving Repr, DecidableEq

/-- The name of a strategy. -/
def Strategy.name : Strategy → String
  | .inline => "inline"
  | .executor _ => "executor"
  | .worker => "rayon"

/-- Where jobs run, and the bindings they see. -/
structure Pool where
  strategy : Strategy := .inline
  ambient : Ambient := {}
deriving Repr, DecidableEq

instance : Inhabited Pool := ⟨{}⟩

/-- The text that shows a pool. -/
def Pool.render (p : Pool) : String :=
  Text.record "Pool" [("strategy", Text.quoted p.strategy.name), ("ambient", p.ambient.render)]

/-- A job that waits for its turn, with the ambient it runs under. -/
structure Submission (κ : Type) where
  ambient : Ambient
  job : κ

/-- What the running thread knows: the bindings in force, the executor whose job is the innermost one
running, and whether it is the worker. -/
structure Thread where
  ambient : Ambient := {}
  inside : Option ExecutorId := none
  isWorker : Bool := false
deriving Repr, DecidableEq

/-- The jobs of the worker thread: those handed in from outside, first come first, and its own stack,
which holds what its jobs have dispatched. -/
structure Worker (κ : Type) where
  injected : List (Submission κ) := []
  stack : List (Submission κ) := []

namespace Worker

variable {κ : Type}

/-- The job that is next: the newest of the stack, else the oldest of those handed in. -/
def next? (w : Worker κ) : Option (Submission κ × Worker κ) :=
  match w.stack, w.injected with
  | s :: rest, _ => some (s, { w with stack := rest })
  | [], s :: rest => some (s, { w with injected := rest })
  | [], [] => none

/-- The worker after a job was dispatched to it, by itself or by another thread. -/
def add (w : Worker κ) (byWorker : Bool) (s : Submission κ) : Worker κ :=
  if byWorker then { w with stack := s :: w.stack }
  else { w with injected := w.injected ++ [s] }

end Worker

/-- From which end of a queue jobs are taken. -/
inductive QueueOrder where
  | oldestFirst
  | newestFirst
deriving Repr, DecidableEq

/-- Takes one job out of a queue, whose oldest job comes first. -/
def QueueOrder.take? {α : Type} (order : QueueOrder) (queue : List α) : Option (α × List α) :=
  match order with
  | .oldestFirst =>
    match queue with
    | [] => none
    | a :: rest => some (a, rest)
  | .newestFirst =>
    match queue.getLast? with
    | none => none
    | some a => some (a, queue.dropLast)

end RequestGraph
