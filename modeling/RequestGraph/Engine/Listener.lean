import RequestGraph.FanIn
import RequestGraph.Script.Basic

/-!
# What waits for cells

Everything that runs later is data: the listeners of cells, the steps of transformations, the
continuations of fan-ins, and jobs.
-/

namespace RequestGraph

/-- What a step of a transformation comes to. -/
inductive Step where
  | value (v : Value)
  /-- A cell whose outcome is to be followed. -/
  | follow (cell : CellId)
  | fail (e : Error)

/-- A step of a transformation, which is given the outcome of its source. -/
inductive Stage where
  /-- A function, which may break off. -/
  | pure (f : Outcome → Except Panic Step)
  /-- A script, and what is returned after it. -/
  | scripted (body : Script) (returned : Returned) (scope : Scope)

namespace Stage

/-- The stage that applies a function to a number. -/
def ofFunction (f : NumberFunction) : Stage :=
  .pure fun
    | .ok v => (f v.toNumber).map fun n => .value (.number n)
    | .error e => .ok (.fail e)

/-- The stage that reads the number of a key out of a view. -/
def entry (key : String) : Stage :=
  .pure fun
    | .ok (.view v) =>
      match v.get? key with
      | some n => .ok (.value (.number n))
      | none => .ok (.fail (Error.ofMessage "absent"))
    | .ok (.number _) => .ok (.fail (Error.ofMessage "absent"))
    | .error e => .ok (.fail e)

end Stage

/-- Who is told about the completion of a cell. -/
inductive Listener where
  /-- A pair of scripts. -/
  | user (tag : String) (onSuccess onError : Script) (scope : Scope)
  /-- Another cell, which is completed with the same outcome. -/
  | forward (target : CellId) (token : Option Token)
  /-- The result of a transformation, with its step, and another for errors if there is one. -/
  | transform (result : CellId) (onSuccess : Stage) (onError : Option Stage)
  /-- A fan-in, which is signalled. -/
  | relay (fanIn : FanInId)
  /-- The latch of a cell, which is opened. -/
  | latch (cell : CellId)

/-- A registered listener. Each registration has a ticket of its own. -/
structure Subscription where
  ticket : Nat
  listener : Listener

/-- What runs when a fan-in settles. -/
inductive Continuation where
  /-- A pair of scripts. -/
  | user (tag : String) (onSuccess onError : Script) (scope : Scope)
  /-- The end of a request: its view, or its failure, goes to a cell. -/
  | yank (context : ContextId) (keys : List String) (result : CellId)

/-- The computation of a key, and the key under which it was registered. -/
structure Node where
  key : String
  body : Script

/-- Work that is dispatched to a pool. -/
inductive Job where
  | user (tag : String) (body : Script) (scope : Scope)
  /-- A node, which is to complete a cell of a context. -/
  | node (context : ContextId) (target : CellId) (node : Node)

end RequestGraph
