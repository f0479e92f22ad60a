import RequestGraph.Arena
import RequestGraph.Engine.Report
import RequestGraph.Text.Hash

/-!
# The world

Everything that lasts from one operation to the next: cells and fan-ins, contexts and their providers,
queues of jobs, the interner that all contexts share, the state of the running thread, what the clock
will show, and the names that scripts have given.
-/

namespace RequestGraph

/-- A thread that waits for a cell. -/
structure Waiter where
  cell : CellId
  /-- Whether it stands before the latch, or found the cell completed when it came. -/
  blocked : Bool
deriving Repr, DecidableEq

/-- The names that scripts have given, by what they name. -/
structure Names where
  cells : OrderedMap String CellId := {}
  tokens : OrderedMap String Token := {}
  claims : OrderedMap String Claim := {}
  contexts : OrderedMap String ContextId := {}
  providers : OrderedMap String ProviderId := {}
  views : OrderedMap String CellId := {}
  pools : OrderedMap String Pool := {}
  /-- The executors of queues. A queue keeps its name until another queue is given it, also when a
  pool of another kind is. -/
  queues : OrderedMap String ExecutorId := {}
  ambients : OrderedMap String Ambient := {}
  /-- The waiters, until they are joined. -/
  waiters : OrderedMap String (Option Waiter) := {}

/-- Everything that lasts. -/
structure World where
  cells : Arena (Cell Subscription) := {}
  fanIns : Arena (FanIn Continuation) := {}
  contexts : Arena Context := {}
  providers : Arena (Provider Node) := {}
  /-- The queues of the executors, oldest job first. -/
  executors : Arena (List (Submission Job)) := {}
  worker : Worker Job := {}
  keys : Interner String
  thread : Thread := {}
  clock : Clock := {}
  sink : SinkMode := .log
  /-- The token that is next. -/
  freshToken : Token := 0
  /-- The ticket that is next. -/
  freshTicket : Nat := 0
  names : Names := {}
  /-- The events so far, newest first. -/
  log : List Event := []

/-- What trying to claim a cell gives. -/
inductive ClaimAttempt where
  | granted (w : World) (claim : Claim)
  /-- The cell is owned or realized. -/
  | refused (w : World)
  | busy

namespace World

/-- A world in which nothing has happened, with an interner of the given cache size and a clock. -/
def start (capacity : Nat) (clock : Clock := {}) : World :=
  { keys := Interner.withCapacity Text.hash capacity, clock }

/-- The cell of a number. -/
def cell (w : World) (c : CellId) : Cell Subscription := w.cells.get c

/-- Puts a cell in the place of the one of that number. -/
def setCell (w : World) (c : CellId) (cell : Cell Subscription) : World :=
  { w with cells := w.cells.set c cell }

/-- Allocates a cell; its number is the number of cells before. -/
def addCell (w : World) (cell : Cell Subscription) : World :=
  { w with cells := w.cells.push cell }

/-- Tries to claim a cell with a fresh token. -/
def tryClaim (w : World) (c : CellId) : ClaimAttempt :=
  match (w.cell c).claim w.freshToken with
  | .busy => .busy
  | .refused cell => .refused (w.setCell c cell)
  | .claimed cell =>
    .granted ({ w with freshToken := w.freshToken + 1 }.setCell c cell) ⟨c, w.freshToken⟩

/-- The fan-in of a number. -/
def fanIn (w : World) (f : FanInId) : FanIn Continuation := w.fanIns.get f

/-- Puts a fan-in in the place of the one of that number. -/
def setFanIn (w : World) (f : FanInId) (fanIn : FanIn Continuation) : World :=
  { w with fanIns := w.fanIns.set f fanIn }

/-- The context of a number. -/
def context (w : World) (k : ContextId) : Context := w.contexts.get k

/-- Puts a context in the place of the one of that number. -/
def setContext (w : World) (k : ContextId) (context : Context) : World :=
  { w with contexts := w.contexts.set k context }

/-- Adds an event to the log. -/
def note (w : World) (e : Event) : World := { w with log := e :: w.log }

/-- Reads the clock. -/
def readClock (w : World) : World := { w with clock := w.clock.read }

/-- Changes the names. -/
def named (w : World) (f : Names → Names) : World := { w with names := f w.names }

/-- Names a cell. -/
def nameCell (w : World) (as : String) (c : CellId) : World :=
  w.named fun n => { n with cells := n.cells.insert as c }

/-! ### Inputs and views -/

/-- The number of a source, if it is there by now. -/
def sourceValue (w : World) : Source → Option Int64
  | .value n => some n
  | .cell c => (w.cell c).value?.map Value.toNumber

/-- The entries that the inputs of a context contribute to a view: those that are there by now. -/
def inputEntries (w : World) (context : Context) : List (String × Int64) :=
  context.inputs.entries.filterMap fun (key, source) => (w.sourceValue source).map fun n => (key, n)

/-- The entries that a ledger contributes to a view: its cells that have succeeded. -/
def ledgerEntries (w : World) (ledger : List (KeyIndex × CellId)) : List (String × Int64) :=
  ledger.filterMap fun (index, c) =>
    match (w.cell c).value?, w.keys.key? index with
    | some v, some key => some (key, v.toNumber)
    | _, _ => none

/-- What a context has produced: its inputs, and then the cells of its ledger, of which each replaces
an input of the same key. There is none while the ledger cannot be read. -/
def snapshot? (w : World) (k : ContextId) : Option View :=
  (w.context k).ledger.read?.map fun ledger =>
    ⟨k, OrderedMap.ofList (w.inputEntries (w.context k) ++ w.ledgerEntries ledger)⟩

/-! ### Reports -/

/-- The inputs of a context, as they stand. -/
def reportInputs (w : World) (k : ContextId) : List InputReport :=
  (w.context k).inputs.entries.map fun (key, source) =>
    { key, isCell := source matches .cell _, value := w.sourceValue source }

/-- A view, with the inputs of its context as they stand. -/
def reportView (w : World) (v : View) : ViewReport :=
  { entries := v.entries.entries, size := v.size, isEmpty := v.isEmpty
    inputs := w.reportInputs v.context }

/-- An error, with the inputs of the requests that failed as they stand. -/
def reportError (w : World) : Error → ErrorReport
  | .revoked (some cause) => .mk (.revoked (some cause)) (some (w.reportError cause)) none
  | .cancelled (some cause) => .mk (.cancelled (some cause)) (some (w.reportError cause)) none
  | .yank cause keys view =>
    .mk (.yank cause keys view) (some (w.reportError cause)) (some (w.reportView view))
  | e => .mk e none none

/-- An outcome, as it stands. -/
def reportOutcome (w : World) : Outcome → OutcomeReport
  | .ok (.number n) => .number n
  | .ok (.view v) => .view (w.reportView v)
  | .error e => .error (w.reportError e)

/-- A cell, as it stands. -/
def reportCell (w : World) (c : CellId) : CellReport :=
  let cell := w.cell c
  { phase := cell.phase, isClaimed := cell.isClaimed, outcome := cell.peek.map w.reportOutcome }

end World

end RequestGraph
