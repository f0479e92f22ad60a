import RequestGraph.Engine.World

/-!
# Calls and frames

A run is a sequence of small moves. What is to be done next is a *call*; what is left to do once a call
has come back is a *frame*, and the frames of all unfinished calls are a stack. A call comes back with a
result or breaks off with a panic, and the frame on top of the stack takes either.

Code of users runs only through `Call.script` and `Stage.pure`, so that every state in which user code
can observe or change anything is a state of the machine.
-/

namespace RequestGraph

/-- What is to be done next. -/
inductive Call where
  /-- Runs a script. -/
  | script (ops : Script) (scope : Scope)
  /-- Runs one operation. -/
  | op (op : Op) (scope : Scope)
  /-- Completes a cell. -/
  | complete (cell : CellId) (outcome : Outcome) (authority : Authority)
  /-- Tells a completed cell's listeners, one after another, and then revokes its revokee. -/
  | deliver (listeners : List Subscription) (revokee : Option CellId) (outcome : Outcome)
  /-- Tells one listener, keeping in what it breaks off with. -/
  | notify (subscription : Subscription) (outcome : Outcome)
  /-- Tells one listener. -/
  | tell (listener : Listener) (outcome : Outcome)
  /-- Registers a listener with a cell, or tells it at once. -/
  | subscribe (cell : CellId) (listener : Listener)
  /-- Hands an error to the sink. -/
  | report (e : Error)
  /-- Fails a pending cell as revoked. -/
  | revoke (cell : CellId) (cause : Option Error)
  /-- Links a cell that is revoked when another one completes. -/
  | link (source dependent : CellId)
  /-- Completes a cell with the outcome of another, with a token or without. -/
  | settle (cell : CellId) (outcome : Outcome) (token : Option Token)
  /-- Completes a cell with what a source gives, now or later. -/
  | forward (target : CellId) (source : Source) (token : Option Token)
  /-- Makes a cell for what a transformation of another one comes to. -/
  | transform (source : CellId) (onSuccess : Stage) (onError : Option Stage)
  /-- Runs a step of a transformation. -/
  | stage (stage : Stage) (outcome : Outcome)
  /-- Completes the result of a transformation with what its step came to. -/
  | adopt (result : CellId) (step : Step)
  /-- Awaits some cells. -/
  | await (cells : List CellId) (continuation : Continuation)
  /-- Registers a fan-in with the cells that have not succeeded. -/
  | watch (fanIn : FanInId) (cells : List CellId)
  /-- Signals a success to a fan-in, or a failure. -/
  | signal (fanIn : FanInId) (failure : Option Error)
  /-- Runs the continuation of a fan-in. -/
  | conclude (continuation : Continuation) (failure : Option Error)
  /-- Hands a job to a pool. -/
  | dispatch (pool : Pool) (job : Job)
  /-- Runs a job under an ambient, reporting what it breaks off with. -/
  | perform (ambient : Ambient) (job : Job)
  /-- Runs a job that was queued with an executor. -/
  | performQueued (executor : ExecutorId) (submission : Submission Job)
  /-- Runs the body of a job. -/
  | job (job : Job)
  /-- Runs queued jobs of an executor. -/
  | drain (executor : ExecutorId) (limit : Option Nat) (order : QueueOrder) (ran : Nat)
  /-- Runs the jobs of the worker until there is none. -/
  | work
  /-- Asks a context for the cell of a key with the given index. -/
  | fetch (context : ContextId) (index : KeyIndex) (key : String)
  /-- Asks a context for the cell of a key. -/
  | fetchKey (context : ContextId) (key : String)
  /-- Asks a context for the cells of the pending keys, and then awaits all cells found. -/
  | gather (context : ContextId) (pending keys : List String) (found : List CellId)
  /-- Closes a context and fails its cells. -/
  | cancel (context : ContextId) (cause : Option Error)
  /-- Fails those of some cells that are pending. -/
  | sweep (ledger : List (KeyIndex × CellId)) (cause : Option Error)

/-- What a call comes back with. -/
inductive Result where
  | unit
  | verdict (v : Verdict)
  | cell (c : CellId)
  | count (n : Nat)
  | step (s : Step)
  | reply (r : Reply)

/-- How the answer of an operation is made from what its call came back with. -/
inductive Answering where
  /-- There is nothing to answer. -/
  | nothing
  /-- Whether the completion was accepted. -/
  | accepted
  /-- The same, or what was wrong with the token. -/
  | verdict
  /-- How many jobs ran. -/
  | ran
  /-- Names the cell that the call made. -/
  | nameMade (as : String)
  /-- Names the cell that the call found, and shows it. -/
  | nameFetched (as : String)
  /-- Names the cell of a request, and shows how far it has come. -/
  | nameYanked (as : String)
  /-- The outcome of a cell, once its latch is open; or that waiting took too long. -/
  | waited (cell : CellId) (limit : Option Duration)

/-- What is left to do once a call has come back. -/
inductive Frame where
  /-- Log the answer of an operation and run the rest of its script. -/
  | script (op : Op) (rest : Script) (scope : Scope)
  /-- Answer an operation. -/
  | answer (how : Answering)
  /-- Tell the listeners that are left, and then revoke the revokee. -/
  | delivering (rest : List Subscription) (revokee : Option CellId) (outcome : Outcome)
  /-- Say that the completion was accepted. -/
  | completed
  /-- Keep in what a listener breaks off with, and report it. -/
  | notifying
  /-- Report what was wrong with the token. -/
  | settling
  /-- Return from the script of a step. -/
  | returning (returned : Returned) (scope : Scope)
  /-- Complete the result of a transformation, also if its step breaks off. -/
  | adopting (result : CellId)
  /-- Follow the cell that a step returned. -/
  | following (result inner : CellId)
  /-- Register a fan-in with the cells that are left. -/
  | watching (fanIn : FanInId) (rest : List CellId)
  /-- Keep in what a job breaks off with, and report it. -/
  | reporting
  /-- Put the ambient of the thread back. -/
  | restoring (ambient : Ambient)
  /-- Put the executor mark of the thread back. -/
  | leaving (inside : Option ExecutorId)
  /-- Fail the cell of a node that breaks off. -/
  | guarding (claim : Claim)
  /-- Report what a node broke off with, unless its cell has taken it. -/
  | accounting (e : Error)
  /-- Run more queued jobs. -/
  | draining (executor : ExecutorId) (limit : Option Nat) (order : QueueOrder) (ran : Nat)
  /-- Run more jobs of the worker. -/
  | working
  /-- Answer with the cell of a key, or the result of a transformation. -/
  | made (cell : CellId)
  /-- Ask for the cells of the keys that are left. -/
  | gathering (context : ContextId) (pending keys : List String) (found : List CellId)
  /-- Fail the cell of a request with an enriched error. -/
  | enriching (context : ContextId) (keys : List String) (result : CellId) (cause : Error)
  /-- Fail those of the cells that are left that are pending. -/
  | sweeping (rest : List (KeyIndex × CellId)) (cause : Option Error)

/-- What the machine is doing. -/
inductive Control where
  | call (c : Call)
  | ret (r : Result)
  | raise (p : Panic)

/-- What one move leads to: the world, what is done next, and frames that come on top of the stack. -/
structure Move where
  world : World
  control : Control
  frames : List Frame := []

namespace World

/-- Goes on with a call, leaving frames behind. -/
def call (w : World) (c : Call) (frames : List Frame := []) : Move := ⟨w, .call c, frames⟩

/-- Comes back with a result. -/
def ret (w : World) (r : Result) : Move := ⟨w, .ret r, []⟩

/-- Breaks off. -/
def raise (w : World) (p : Panic) : Move := ⟨w, .raise p, []⟩

/-- Comes back with the answer of an operation. -/
def reply (w : World) (r : Reply) : Move := w.ret (.reply r)

/-- Breaks off because an assumption of the library turned out wrong. -/
def broken (w : World) (a : Assumption) : Move := w.raise (.broken a)

end World

end RequestGraph
