import RequestGraph.Engine.Listener

/-!
# Reports

What is told to the outside: the answers of operations, and the events in between. A report is a
snapshot: a view in it shows the inputs of its context as they stood when the report was made.
-/

namespace RequestGraph

/-- An input, as it stood. -/
structure InputReport where
  key : String
  /-- Whether the input is a cell. -/
  isCell : Bool
  value : Option Int64
deriving Repr, DecidableEq

/-- A view, and the inputs of its context as they stood. -/
structure ViewReport where
  entries : List (String × Int64)
  size : Nat
  isEmpty : Bool
  inputs : List InputReport
deriving Repr, DecidableEq

/-- An error, its cause if it has one, and the view it carries if it carries one. -/
inductive ErrorReport where
  | mk (error : Error) (cause : Option ErrorReport) (snapshot : Option ViewReport)
deriving Repr

/-- What a cell was completed with. -/
inductive OutcomeReport where
  | number (n : Int64)
  | view (v : ViewReport)
  | error (e : ErrorReport)
deriving Repr

/-- A cell, as it stood. -/
structure CellReport where
  phase : Phase
  isClaimed : Bool
  outcome : Option OutcomeReport
deriving Repr

/-- An entry of a ledger, as it stood. -/
structure LedgerReport where
  index : KeyIndex
  key : Option String
  cell : CellReport
deriving Repr

/-- What an operation is answered with. -/
inductive Reply where
  | nothing
  | flag (b : Bool)
  | count (n : Nat)
  | number (n : Int64)
  | text (s : String)
  | texts (ss : List String)
  | binding (b : Binding)
  | cell (c : CellReport)
  | phase (p : Phase)
  | outcome (o : OutcomeReport)
  /-- Waiting would last for ever, as far as one thread can tell. -/
  | wouldBlock
  | ownership (e : OwnershipError)
  | frozenBefore (e : ContextError)
  /-- The provider is used by a context. -/
  | shared
  | interned (size : Nat) (index : Option KeyIndex)
  | provider (size : Nat) (isEmpty : Bool) (text : String)
  /-- The outcome of a request, and the text that shows it. -/
  | viewed (o : OutcomeReport) (text : String)
  | entry (value : Option Int64) (isThere : Bool)
  | ledger (entries : List LedgerReport)
  | inputs (inputs : List (String × Option Int64))
  /-- There is nothing of that name. -/
  | unknownName (name : String)
deriving Repr

/-- What happens between the start of an operation and its answer. -/
inductive Event where
  /-- An operation of a script has been answered. -/
  | did (op : Op) (reply : Reply)
  /-- A listener is told. -/
  | heard (tag : String) (o : OutcomeReport)
  /-- A fan-in has settled, with an error unless all of its cells succeeded. -/
  | joined (tag : String) (e : Option ErrorReport)
  /-- A node starts. -/
  | node (key : String)
  /-- A job starts. -/
  | job (tag : String)
  /-- An error was reported to the sink. -/
  | sunk (e : ErrorReport)

end RequestGraph
