import RequestGraph.Engine.Call

/-!
# Moves of the engine

One definition for each kind of call: what the world becomes, what is done next, and what is left to
do afterwards. None of them runs further than to the next call, so whatever a user's code does in
between happens between two moves.
-/

namespace RequestGraph.World

/-! ### Completing cells and telling listeners -/

/-- Completes a cell. Its listeners are told what the cell now holds. -/
def complete (w : World) (c : CellId) (outcome : Outcome) (authority : Authority) : Move :=
  match (w.cell c).complete outcome authority with
  | .busy => w.call (.complete c outcome authority)
  | .refused cell verdict => (w.setCell c cell).ret (.verdict verdict)
  | .completed cell listeners revokee =>
    match cell.peek with
    | none => (w.setCell c cell).broken .outcomePresent
    | some stored => (w.setCell c cell).call (.deliver listeners revokee stored)

/-- Tells the next listener; after the last, revokes the revokee. -/
def deliver (w : World) (listeners : List Subscription) (revokee : Option CellId)
    (outcome : Outcome) : Move :=
  match listeners, revokee with
  | next :: rest, _ => w.call (.notify next outcome) [.delivering rest revokee outcome]
  | [], some dependent => w.call (.revoke dependent (Outcome.error? outcome)) [.completed]
  | [], none => w.ret (.verdict (.ok true))

/-- Tells a listener. -/
def tell (w : World) (listener : Listener) (outcome : Outcome) : Move :=
  match listener with
  | .user tag onSuccess onError scope =>
    let heard := w.note (.heard tag (w.reportOutcome outcome))
    match outcome with
    | .ok _ => heard.call (.script onSuccess (scope.receive outcome))
    | .error _ => heard.call (.script onError (scope.receive outcome))
  | .forward target token => w.call (.settle target outcome token)
  | .transform result onSuccess onError =>
    match outcome, onError with
    | .ok _, _ => w.call (.stage onSuccess outcome) [.adopting result]
    | .error _, some recover => w.call (.stage recover outcome) [.adopting result]
    | .error e, none => w.call (.complete result (.error e) .unowned)
  | .relay fanIn => w.call (.signal fanIn (Outcome.error? outcome))
  | .latch c => (w.setCell c { w.cell c with latch := .opened }).ret .unit

/-- Registers a listener with a pending cell; a realized one tells it at once. -/
def subscribe (w : World) (c : CellId) (listener : Listener) : Move :=
  let subscription : Subscription := ⟨w.freshTicket, listener⟩
  let ticketed := { w with freshTicket := w.freshTicket + 1 }
  match (w.cell c).subscribe subscription with
  | .busy => w.call (.subscribe c listener)
  | .registered cell true => (ticketed.setCell c cell).ret .unit
  | .registered cell false => (ticketed.setCell c cell).broken .listenersOpen
  | .realized =>
    match (w.cell c).peek with
    | none => ticketed.broken .outcomePresent
    | some outcome => ticketed.call (.notify subscription outcome)

/-- Hands an error to the sink. -/
def report (w : World) (e : Error) : Move :=
  match w.sink with
  | .log => (w.note (.sunk (w.reportError e))).ret .unit
  | .panic => (w.note (.sunk (w.reportError e))).raise (.message "sink failed")
  | .off => w.ret .unit

/-! ### Revocation and forwarding -/

/-- Fails a cell as revoked unless it is realized. -/
def revoke (w : World) (c : CellId) (cause : Option Error) : Move :=
  if (w.cell c).isRealized then w.ret (.verdict (.ok false))
  else w.call (.complete c (.error (.revoked cause)) .unowned)

/-- Links the revokee of a pending cell; a realized one revokes it at once. -/
def link (w : World) (source dependent : CellId) : Move :=
  match (w.cell source).link dependent with
  | .busy => w.call (.link source dependent)
  | .registered cell _ => (w.setCell source cell).ret .unit
  | .realized =>
    match (w.cell source).peek with
    | none => w.broken .outcomePresent
    | some outcome => w.call (.revoke dependent (Outcome.error? outcome))

/-- Completes a cell with an outcome from elsewhere. A wrong token is reported. -/
def settle (w : World) (c : CellId) (outcome : Outcome) (token : Option Token) : Move :=
  match token with
  | none => w.call (.complete c outcome .unowned)
  | some t => w.call (.complete c outcome (.presenting (some t))) [.settling]

/-- Completes a cell with what a source gives. -/
def forward (w : World) (target : CellId) (source : Source) (token : Option Token) : Move :=
  match source with
  | .value n => w.call (.settle target (.ok (.number n)) token)
  | .cell c =>
    match (w.cell c).peek with
    | some outcome => w.call (.settle target outcome token)
    | none => w.call (.subscribe c (.forward target token))

/-! ### Transformations -/

/-- Makes the result cell of a transformation, and registers the transformation with its source. -/
def transform (w : World) (source : CellId) (onSuccess : Stage) (onError : Option Stage) : Move :=
  let result := w.cells.size
  (w.addCell default).call (.subscribe source (.transform result onSuccess onError)) [.made result]

/-- Runs a step of a transformation. -/
def stage (w : World) (s : Stage) (outcome : Outcome) : Move :=
  match s with
  | .pure f =>
    match f outcome with
    | .ok step => w.ret (.step step)
    | .error p => w.raise p
  | .scripted body returned scope =>
    let told := scope.receive outcome
    w.call (.script body told) [.returning returned told]

/-- Completes the result of a transformation. A cell that the step returned is linked first, so that it
is revoked should the result be completed by somebody else, and then followed. -/
def adopt (w : World) (result : CellId) (step : Step) : Move :=
  match step with
  | .value v => w.call (.complete result (.ok v) .unowned)
  | .follow inner => w.call (.link result inner) [.following result inner]
  | .fail e => w.call (.complete result (.error e) .unowned)

/-! ### Fan-in -/

/-- The first error among some cells. -/
def firstFailure (w : World) (cells : List CellId) : Option Error :=
  cells.findSome? fun c => (w.cell c).error?

/-- Whether a cell has succeeded. -/
def hasSucceeded (w : World) (c : CellId) : Bool := (w.cell c).value?.isSome

/-- Awaits some cells, of which the last is looked at first. The continuation runs at once if one of
them has failed or all of them have succeeded. -/
def await (w : World) (cells : List CellId) (continuation : Continuation) : Move :=
  match w.firstFailure cells.reverse with
  | some e => w.call (.conclude continuation (some e))
  | none =>
    if cells.all w.hasSucceeded then w.call (.conclude continuation none)
    else
      { w with fanIns := w.fanIns.push (.start continuation) }.call
        (.watch w.fanIns.size cells.reverse)

/-- Registers a fan-in with the first cell that has not succeeded; after the last, ends its set-up. -/
def watch (w : World) (f : FanInId) (cells : List CellId) : Move :=
  match cells with
  | [] => w.call (.signal f none)
  | c :: rest =>
    if w.hasSucceeded c then w.call (.watch f rest)
    else
      let awaiting := w.setFanIn f (w.fanIn f).await
      if (w.fanIn f).failed then awaiting.call (.signal f none)
      else awaiting.call (.subscribe c (.relay f)) [.watching f rest]

/-- Signals a fan-in, which runs its continuation if that settles it. -/
def signal (w : World) (f : FanInId) (failure : Option Error) : Move :=
  match (match failure with | none => (w.fanIn f).succeed | some _ => (w.fanIn f).fail) with
  | .counted fanIn => (w.setFanIn f fanIn).ret .unit
  | .settled fanIn none => (w.setFanIn f fanIn).broken .continuationPresent
  | .settled fanIn (some continuation) =>
    (w.setFanIn f fanIn).call (.conclude continuation failure)

/-- Completes the cell of a request with a view of what the context has produced. -/
def succeedYank (w : World) (k : ContextId) (result : CellId) : Move :=
  match w.snapshot? k with
  | none => w.broken .ledgerReadable
  | some view => w.call (.complete result (.ok (.view view)) .unowned)

/-- Fails the cell of a request with an error that carries what the context has produced. -/
def failYank (w : World) (k : ContextId) (keys : List String) (result : CellId) (cause : Error) :
    Move :=
  match w.snapshot? k with
  | none => w.broken .ledgerReadable
  | some view => w.call (.complete result (.error (.yank cause keys view)) .unowned)

/-- Runs the continuation of a fan-in. A request that succeeds freezes its context, one that fails
cancels it. -/
def conclude (w : World) (continuation : Continuation) (failure : Option Error) : Move :=
  match continuation, failure with
  | .user tag onSuccess _ scope, none => (w.note (.joined tag none)).call (.script onSuccess scope)
  | .user tag _ onError scope, some e =>
    (w.note (.joined tag (some (w.reportError e)))).call (.script onError (scope.withError e))
  | .yank k _ result, none => (w.setContext k (w.context k).frozen).succeedYank k result
  | .yank k keys result, some e => w.call (.cancel k (some e)) [.enriching k keys result e]

/-! ### Jobs -/

/-- Hands a job to a pool. -/
def dispatch (w : World) (pool : Pool) (job : Job) : Move :=
  let submission : Submission Job := { ambient := pool.ambient, job }
  match pool.strategy with
  | .inline => w.call (.perform pool.ambient job)
  | .executor e =>
    if w.thread.inside = some e then w.call (.perform pool.ambient job)
    else
      { w with executors := w.executors.modify e (· ++ [submission]) }.ret .unit
  | .worker =>
    { w with worker := w.worker.add w.thread.isWorker submission }.ret .unit

/-- Runs a job under an ambient. -/
def perform (w : World) (ambient : Ambient) (job : Job) : Move :=
  { w with thread := { w.thread with ambient } }.call (.job job)
    [.reporting, .restoring w.thread.ambient]

/-- Runs a queued job, marking the thread as inside its executor. -/
def performQueued (w : World) (e : ExecutorId) (s : Submission Job) : Move :=
  { w with thread := { w.thread with inside := some e } }.call (.perform s.ambient s.job)
    [.leaving w.thread.inside]

/-- Runs the body of a job. A node claims its cell first, and does not start if that is refused. -/
def job (w : World) (j : Job) : Move :=
  match j with
  | .user tag body scope => (w.note (.job tag)).call (.script body scope)
  | .node k target node =>
    match w.tryClaim target with
    | .busy => w.call (.job j)
    | .refused w => w.ret .unit
    | .granted claimed claim =>
      (claimed.note (.node node.key)).call
        (.script node.body { context := some k, claim := some claim }) [.guarding claim]

/-- Runs the next queued job of an executor, unless enough have run. -/
def drain (w : World) (e : ExecutorId) (limit : Option Nat) (order : QueueOrder) (ran : Nat) :
    Move :=
  match limit, order.take? (w.executors.get e) with
  | some 0, _ => w.ret (.count ran)
  | _, none => w.ret (.count ran)
  | _, some (s, rest) =>
    { w with executors := w.executors.set e rest }.call (.performQueued e s)
      [.draining e (limit.map (· - 1)) order (ran + 1)]

/-- Runs the next job of the worker. -/
def work (w : World) : Move :=
  match w.worker.next? with
  | none => w.ret .unit
  | some (s, worker) => { w with worker }.call (.perform s.ambient s.job) [.working]

/-! ### Contexts -/

/-- Starts what completes a cell that was just registered under a key: its input, or else its node. -/
def startCell (w : World) (k : ContextId) (index : KeyIndex) (key : String) (c : CellId) : Move :=
  match (w.context k).inputs.get? key with
  | some source => w.call (.forward c source none) [.made c]
  | none =>
    let p := (w.context k).provider
    let (provider, node) := (w.providers.get p).lookup key index
    let looked := { w with providers := w.providers.set p provider }
    match node with
    | none =>
      looked.call (.complete c (.error (.unknownNode (Text.quoted key))) .unowned) [.made c]
    | some node => looked.call (.dispatch (w.context k).pool (.node k c node)) [.made c]

/-- Answers with the cell of an index. The first to ask makes the cell, registers it, and starts what
completes it; in a frozen context the cell fails instead. -/
def fetch (w : World) (k : ContextId) (index : KeyIndex) (key : String) : Move :=
  let context := w.context k
  let fresh := w.cells.size
  let installed := context.slots.getOrInsert index.toUInt64 fresh
  if installed.won then
    let (ledger, pushed) := context.ledger.push (index, fresh)
    let registered :=
      (w.addCell default).setContext k { context with slots := installed.table, ledger }
    match pushed with
    | .accepted => registered.startCell k index key fresh
    | .rejected _ =>
      registered.call (.complete fresh (.error .contextFinished) .unowned) [.made fresh]
  else w.ret (.cell installed.value)

/-- Answers with the cell of a key, which is interned first. When no index is left it breaks off, and the
keys stay as they were. -/
def fetchKey (w : World) (k : ContextId) (key : String) : Move :=
  match w.keys.intern key with
  | (_, none) => w.broken .indexLeft
  | (keys, some index) => { w with keys }.call (.fetch k index key)

/-- Asks for the cell of the next key; after the last, awaits all cells for the request. -/
def gather (w : World) (k : ContextId) (pending keys : List String) (found : List CellId) : Move :=
  match pending with
  | key :: rest => w.call (.fetchKey k key) [.gathering k rest keys found]
  | [] =>
    let result := w.cells.size
    (w.addCell default).call (.await found (.yank k keys result)) [.made result]

/-- Freezes a context, if it is not frozen, and fails its cells. -/
def cancel (w : World) (k : ContextId) (cause : Option Error) : Move :=
  let frozen := (w.context k).frozen
  match frozen.ledger.read? with
  | none => (w.setContext k frozen).broken .ledgerReadable
  | some ledger => (w.setContext k frozen).call (.sweep ledger cause)

/-- Fails the next cell that is not realized and that nobody owns. -/
def sweep (w : World) (ledger : List (KeyIndex × CellId)) (cause : Option Error) : Move :=
  match ledger with
  | [] => w.ret .unit
  | (_, c) :: rest =>
    if (w.cell c).isRealized then w.call (.sweep rest cause)
    else w.call (.complete c (.error (.cancelled cause)) .unowned) [.sweeping rest cause]

end RequestGraph.World
