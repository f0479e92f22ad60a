import RequestGraph.Engine.Machine

/-!
# Sessions

A session runs the operations of a script from the outside, one after another, each until nothing is
left to do. After each of them the worker thread runs the jobs that were dispatched to it; what it does
belongs to the events of the operation, but comes after its answer was made.

A panic that nobody keeps in ends the operation, and not the session.
-/

namespace RequestGraph

/-- How an operation of a session ended. -/
inductive Ending where
  | replied (r : Reply)
  | panicked (p : Panic)
  /-- It was given up, because it went on for too many steps. -/
  | unfinished

/-- What one operation of a session came to, and what happened meanwhile. -/
structure Turn where
  ending : Ending
  events : List Event

/-- What a session came to: its turns, and the cells that have names, first named first. -/
structure Transcript where
  turns : List Turn
  cells : List (String × CellReport)

namespace Session

/-- The number of steps after which an operation is given up. -/
def patience : Nat := 1000000000

/-- How a run has ended. -/
def ending (m : Machine) : Ending :=
  match m.control, m.stack with
  | .ret (.reply r), [] => .replied r
  | .ret _, [] => .replied .nothing
  | .raise p, [] => .panicked p
  | _, _ => .unfinished

/-- The machine that runs one operation in a world. -/
def begin (w : World) (op : Op) : Machine := ⟨w, .call (.op op {}), []⟩

/-- Lets the worker thread run its jobs. -/
def runWorker (w : World) : World :=
  let worker : Machine := ⟨{ w with thread := { isWorker := true } }, .call .work, []⟩
  { (worker.run patience).world with thread := w.thread }

/-- Runs one operation and then the worker; the log is handed out with the turn. -/
def turn (w : World) (op : Op) : World × Turn :=
  let main := (begin w op).run patience
  let after := runWorker main.world
  ({ after with log := [] }, ⟨ending main, after.log.reverse⟩)

/-- Runs the operations one after another. -/
def turns (w : World) : Script → World × List Turn
  | [] => (w, [])
  | op :: rest =>
    let (w', t) := turn w op
    let (w'', ts) := turns w' rest
    (w'', t :: ts)

/-- The cells that have names, as they stand. -/
def namedCells (w : World) : List (String × CellReport) :=
  w.names.cells.entries.map fun (name, c) => (name, w.reportCell c)

/-- Runs a session from the start, with a cache of the given size for interned keys. -/
def run (capacity : Option Nat) (script : Script) : Transcript :=
  let (w, turns) := turns (World.start (capacity.getD Interner.defaultCapacity)) script
  ⟨turns, namedCells w⟩

end Session

end RequestGraph
