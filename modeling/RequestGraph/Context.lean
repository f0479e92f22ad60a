import RequestGraph.AppendList.Cursor
import RequestGraph.Cell.Basic
import RequestGraph.Pool
import RequestGraph.Provider

/-!
# Request contexts

A context belongs to one request. It gives every key one cell, keeps the cells it has handed out in a
ledger, in the order in which they were first asked for, and knows the inputs of the request and where
to find nodes for all other keys. Freezing the context closes the ledger.
-/

namespace RequestGraph

/-- The number of a provider. -/
abbrev ProviderId := Nat

/-- A value that is there already, or the cell that will produce it. -/
inductive Source where
  | value (n : Int64)
  | cell (id : CellId)
deriving Repr, DecidableEq

/-- What a request works with. -/
structure Context where
  /-- The cells by the dense index of their key. -/
  slots : SlotTable CellId := {}
  inputs : OrderedMap String Source := {}
  /-- The registered cells, with the index of their key. -/
  ledger : AppendList (KeyIndex × CellId) := {}
  provider : ProviderId := 0
  pool : Pool := {}

namespace Context

instance : Inhabited Context := ⟨{}⟩

/-- Whether the ledger is closed. -/
def isFrozen (c : Context) : Bool := c.ledger.frozen

/-- Closes the ledger, once. -/
def freeze (c : Context) : Except ContextError Context :=
  match c.ledger.freeze with
  | .ok ledger => .ok { c with ledger }
  | .error .alreadyFrozen => .error .alreadyFrozen

/-- The context with its ledger closed, whether or not it was before. -/
def frozen (c : Context) : Context :=
  match c.freeze with
  | .ok c' => c'
  | .error _ => c

/-- The text that shows a context. -/
def render (c : Context) : String :=
  Text.openRecord "Context"
    [("inputs", Text.sequence (c.inputs.keys.map Text.quoted)), ("frozen", Text.flag c.isFrozen),
      ("pool", c.pool.render)]

end Context

end RequestGraph
