import RequestGraph.Engine.Call

/-!
# Names and expressions

What the names and expressions of an operation stand for in a scope. A name that nobody has given makes
the whole operation come to nothing, and its answer says which name it was.
-/

namespace RequestGraph

/-- Something looked up by name, or the name for which there is nothing. -/
abbrev Lookup (α : Type) := Except String α

/-- What a map holds under a name. -/
def Lookup.ofMap {α : Type} (m : OrderedMap String α) (name : String) : Lookup α :=
  match m.get? name with
  | some a => .ok a
  | none => .error name

namespace World

/-- The cell of a name. -/
def cell? (w : World) (name : String) : Lookup CellId := .ofMap w.names.cells name

/-- The token of a name. -/
def token? (w : World) (name : String) : Lookup Token := .ofMap w.names.tokens name

/-- The cell of the request of a name. -/
def view? (w : World) (name : String) : Lookup CellId := .ofMap w.names.views name

/-- The pool of a name. -/
def pool? (w : World) (name : String) : Lookup Pool := .ofMap w.names.pools name

/-- The executor of the queue of a name. -/
def queue? (w : World) (name : String) : Lookup ExecutorId := .ofMap w.names.queues name

/-- The ambient of a name. -/
def ambient? (w : World) (name : String) : Lookup Ambient := .ofMap w.names.ambients name

/-- The provider of a name. -/
def provider? (w : World) (name : String) : Lookup ProviderId := .ofMap w.names.providers name

/-- The claim of a name, or that of the scope. -/
def claim? (w : World) (scope : Scope) : Option String → Lookup Claim
  | some name => .ofMap w.names.claims name
  | none =>
    match scope.claim with
    | some claim => .ok claim
    | none => .error "claim"

/-- The context of a name, or that of the scope. -/
def context? (w : World) (scope : Scope) : Option String → Lookup ContextId
  | some name => .ofMap w.names.contexts name
  | none =>
    match scope.context with
    | some k => .ok k
    | none => .error "ctx"

/-- The cell of something awaited. -/
def awaited? (w : World) : Awaited → Lookup CellId
  | .cell name => w.cell? name
  | .view name => w.view? name

/-- The number of an expression. -/
def number? (w : World) (scope : Scope) : Expr → Lookup Int64
  | .constant n => .ok n
  | .current => .ok (scope.value.getD 0)
  | .combine f names => do
    let cells ← names.mapM w.cell?
    return f (cells.filterMap fun c => (w.cell c).value?.map Value.toNumber)

/-- The source of an expression. -/
def source? (w : World) (scope : Scope) : SourceExpr → Lookup Source
  | .value e => do return .value (← w.number? scope e)
  | .cell name => do return .cell (← w.cell? name)

/-- The error of an expression. -/
def error? (w : World) (scope : Scope) : ErrorExpr → Lookup Error
  | .given e => .ok e
  | .revoked none => .ok (.revoked none)
  | .revoked (some cause) => do return .revoked (some (← w.error? scope cause))
  | .cancelled none => .ok (.cancelled none)
  | .cancelled (some cause) => do return .cancelled (some (← w.error? scope cause))
  | .current => .ok (scope.error.getD .contextFinished)
  | .ofCell name => do return (w.cell (← w.cell? name)).error?.getD .contextFinished

/-- The error of an expression that may be left out. -/
def cause? (w : World) (scope : Scope) : Option ErrorExpr → Lookup (Option Error)
  | none => .ok none
  | some e => do return some (← w.error? scope e)

/-- The outcome of an expression. -/
def outcome? (w : World) (scope : Scope) : OutcomeExpr → Lookup Outcome
  | .ok e => do return .ok (.number (← w.number? scope e))
  | .error e => do return .error (← w.error? scope e)

/-- What the step of a transformation comes to, after its script. -/
def return? (w : World) (scope : Scope) : Returned → Lookup (Except Panic Step)
  | .apply f => .ok ((f (scope.value.getD 0)).map fun n => .value (.number n))
  | .fail e => do return .ok (.fail (← w.error? scope e))
  | .source s => do
    match ← w.source? scope s with
    | .value n => return .ok (.value (.number n))
    | .cell c => return .ok (.follow c)

end World

/-- The move of an operation, or the answer that a name is unknown. -/
def Lookup.orUnknown (w : World) : Lookup Move → Move
  | .ok m => m
  | .error name => w.reply (.unknownName name)

end RequestGraph
