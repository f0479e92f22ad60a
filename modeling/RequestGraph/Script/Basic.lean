import RequestGraph.Context

/-!
# Scripts

The code of a user: listeners, nodes, jobs and transformations are lists of operations. An operation
works on named things, and everything it makes gets a name. Scripts nest, since an operation that
registers a listener carries the listener's script.

Expressions are evaluated in the *scope* of the script: nodes run with a context and a claim, listeners
with the value or the error they were told, and whatever a scope does not set is that of the place where
the code was written down.
-/

namespace RequestGraph

/-! ### Expressions -/

/-- A pure function on numbers, which may break off. -/
abbrev NumberFunction := Int64 → Except Panic Int64

namespace NumberFunction

/-- Adds a number, wrapping around. -/
def add (n : Int64) : NumberFunction := fun v => .ok (v + n)

/-- Multiplies by a number, wrapping around. -/
def mul (n : Int64) : NumberFunction := fun v => .ok (v * n)

/-- Answers always the same. -/
def const (n : Int64) : NumberFunction := fun _ => .ok n

/-- Breaks off. -/
def panic (p : Panic) : NumberFunction := fun _ => .error p

end NumberFunction

/-- A number in a script. -/
inductive Expr where
  | constant (n : Int64)
  /-- The number that the script was told, or zero. -/
  | current
  /-- A function of the numbers of those of some cells that have succeeded. -/
  | combine (f : List Int64 → Int64) (cells : List String)

/-- The sum of some numbers and the numbers of those cells that have succeeded, wrapping around. -/
def Expr.sum (cells : List String) (plus : Int64) : Expr :=
  .combine (fun ns => ns.foldl (· + ·) plus) cells

/-- A number that is there already, or a cell that will have it. -/
inductive SourceExpr where
  | value (e : Expr)
  | cell (name : String)

/-- An error in a script. -/
inductive ErrorExpr where
  | given (e : Error)
  | revoked (cause : Option ErrorExpr)
  | cancelled (cause : Option ErrorExpr)
  /-- The error that the script was told, or that of a finished context. -/
  | current
  /-- The error that a cell has failed with, or that of a finished context. -/
  | ofCell (name : String)

/-- What a cell is to be completed with. -/
inductive OutcomeExpr where
  | ok (e : Expr)
  | error (e : ErrorExpr)

/-- What a step of a transformation returns. -/
inductive Returned where
  /-- A function of the number that the script was told. -/
  | apply (f : NumberFunction)
  | fail (e : ErrorExpr)
  | source (s : SourceExpr)

/-- A step of a transformation: some operations, and what is returned after them. -/
structure StepBody (σ : Type) where
  body : σ
  returned : Returned

/-- Which dense index is meant: that of a key, which is interned, or a number as it is. -/
inductive IndexExpr where
  | ofKey (key : String)
  | number (n : KeyIndex)

/-! ### Operations, by the scripts they carry -/

/-- What can be awaited. -/
inductive Awaited where
  | cell (name : String)
  | view (name : String)

/-- Operations on cells. -/
inductive CellOp (σ : Type) where
  | create (as : String)
  | createOwned (as token : String)
  | createRealized (as : String) (outcome : OutcomeExpr)
  | state (cell : String)
  | render (cell : String)
  /-- Claims a cell and names the token. -/
  | claim (cell token : String)
  /-- Claims a cell and names the claim. -/
  | acquire (cell claim : String)
  | sameToken (token other : String)
  /-- Completes a cell that nobody owns. -/
  | complete (cell : String) (outcome : OutcomeExpr)
  /-- Completes a cell with a token, or expressly without one. -/
  | completeWith (cell : String) (outcome : OutcomeExpr) (token : Option String)
  /-- Completes a cell with what a source gives, now or later, with a token if one is named. -/
  | chain (cell : String) (source : SourceExpr) (token : Option String)
  | listen (cell tag : String) (onSuccess onError : σ)
  | map (cell : String) (f : NumberFunction) (as : String)
  | bind (cell : String) (step : StepBody σ) (recover : Option (StepBody σ)) (as : String)
  | revoke (cell : String) (cause : Option ErrorExpr)
  | revokeTo (cell dependent : String)
  | setLabel (cell text : String)
  | label (cell : String)
  | same (cell other : String)
  | realized (source : SourceExpr)
  /-- Waits for a cell, as long as it takes. A guarded wait is for scripts that must not be held up: it
  looks first whether the outcome is there, and otherwise does not wait at all. -/
  | wait (cell : String) (guarded : Bool := true)
  /-- Waits for a cell, but not longer than this. -/
  | waitFor (cell : String) (limit : Duration)
  /-- Starts a thread that waits for a cell. -/
  | startWaiter (cell as : String)
  | joinWaiter (waiter : String)
  | await (targets : List Awaited) (tag : String) (onSuccess onError : σ)

/-- Operations on claims; without a name, on the claim of the scope. -/
inductive ClaimOp where
  /-- Names the claim of the scope. -/
  | park (as : String)
  | token (claim : Option String) (as : String)
  | cell (claim : Option String) (as : String)
  | complete (claim : Option String) (outcome : OutcomeExpr)
  | chain (claim : Option String) (source : SourceExpr)

/-- What the sink does with an error that is reported to it. A sink is one of these three, and not code of
a user: it calls nothing of the engine, and whether it breaks off does not depend on the error. -/
inductive SinkMode where
  /-- It logs the error. -/
  | log
  /-- It logs the error and breaks off. -/
  | panic
  /-- It does nothing that shows. -/
  | off
deriving Repr, DecidableEq

/-- Operations on the sink, and breaking off. -/
inductive FaultOp where
  | sink (mode : SinkMode)
  | report (e : ErrorExpr)
  | panic (p : Panic)

/-- The ambient that a new one is made from. -/
inductive AmbientBase where
  | blank
  /-- That of the running thread. -/
  | current
  /-- That of the pool of the scope's context. -/
  | ofPool
  | named (ambient : String)

/-- The kinds of pool. -/
inductive PoolKind where
  | inline
  | queue
  | worker

/-- Operations on ambients and pools. -/
inductive PoolOp (σ : Type) where
  | createAmbient (as : String) (base : AmbientBase) (bindings : List Binding)
      (spanOf : Option String)
  | lookup (ambient : String) (type : BindingType)
  | lookupCurrent (type : BindingType)
  | lookupPool (pool : String) (type : BindingType)
  | renderAmbient (ambient : String)
  | renderPool (pool : String)
  | scope (ambient : String) (body : σ)
  | create (as : String) (kind : PoolKind) (ambient : Option String)
  | dispatch (pool tag : String) (body : σ)
  /-- Runs jobs of a queue, at most so many. -/
  | run (queue : String) (limit : Option Nat) (order : QueueOrder)
  | queued (queue : String)

/-- Operations on keys, providers and contexts; without a name, on the context of the scope. -/
inductive ContextOp (σ : Type) where
  | intern (key : String)
  | interned (key : String)
  | createProvider (as : String) (nodes : List (String × σ))
  | register (provider key : String) (node : σ)
  | renderProvider (provider : String)
  | hasNode (provider key : String) (index : IndexExpr)
  | create (as : String) (inputs : List (String × SourceExpr)) (provider : String)
      (pool : Option String)
  | fetch (context : Option String) (key as : String)
  | fetchAt (context : Option String) (key : String) (index : IndexExpr) (as : String)
  | freeze (context : Option String)
  | cancel (context : Option String) (cause : Option ErrorExpr)
  | isFrozen (context : Option String)
  | render (context : Option String)
  | inputs (context : Option String)

/-- Operations on whole requests and their views. -/
inductive ViewOp (σ : Type) where
  | yank (context : Option String) (keys : List String) (as : String)
  | view (name : String)
  | get (name key : String)
  /-- Whether the view is one of that context; without a name, of the context of the scope. -/
  | isOf (name : String) (context : Option String)
  | listen (name tag : String) (onSuccess onError : σ)
  /-- Makes a cell with the number of a key, once the view is there. -/
  | bind (name key as : String)
  | fail (name : String) (e : ErrorExpr)

/-- The operations of a script. -/
inductive Op where
  | cell (op : CellOp (List Op))
  | claim (op : ClaimOp)
  | fault (op : FaultOp)
  | pool (op : PoolOp (List Op))
  | context (op : ContextOp (List Op))
  | view (op : ViewOp (List Op))

/-- A list of operations, run one after another. -/
abbrev Script := List Op

/-! ### Scopes -/

/-- The right to complete a claimed cell. -/
structure Claim where
  cell : CellId
  token : Token
deriving Repr, DecidableEq

/-- What a script runs with. -/
structure Scope where
  context : Option ContextId := none
  claim : Option Claim := none
  value : Option Int64 := none
  error : Option Error := none

instance : Inhabited Scope := ⟨{}⟩

namespace Scope

/-- The scope of code that is told an error. -/
def withError (s : Scope) (e : Error) : Scope := { s with error := some e }

/-- The scope of code that is told an outcome. Code that is told a view has no number, not even one
that the surrounding code was told. -/
def receive (s : Scope) : Outcome → Scope
  | .ok v => { s with value := v.number? }
  | .error e => s.withError e

end Scope

end RequestGraph
