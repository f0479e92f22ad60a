import RequestGraph.Engine.Evaluate

/-!
# Operations on cells, claims and the sink
-/

namespace RequestGraph.World

/-- The authority of a strict completion with a named token, or expressly without one. -/
def authority? (w : World) : Option String → Lookup Authority
  | none => .ok (.presenting none)
  | some name => do return .presenting (some (← w.token? name))

/-- The token of a chaining operation, if it names one. -/
def chainToken? (w : World) : Option String → Lookup (Option Token)
  | none => .ok none
  | some name => do return some (← w.token? name)

/-- Registers the latch of a cell with it, unless that was done before. -/
def waitBefore (w : World) (c : CellId) (how : Answering) : Move :=
  match (w.cell c).latch with
  | .absent =>
    (w.setCell c { w.cell c with latch := .shut }).call (.subscribe c (.latch c)) [.answer how]
  | _ => ⟨w, .ret .unit, [.answer how]⟩

/-- Waits for a cell. A deadline, if there is to be one, is set before the latch is touched. -/
def block (w : World) (c : CellId) (limit : Option Duration) : Move :=
  match (w.cell c).peek, limit with
  | some outcome, _ => w.reply (.outcome (w.reportOutcome outcome))
  | none, none => w.waitBefore c (.waited c none)
  | none, some span =>
    if span ≤ w.clock.ahead then w.readClock.waitBefore c (.waited c limit)
    else w.readClock.raise .beyondClock

/-- Gives the outcome of a cell to somebody who has waited for it. -/
def pass (w : World) (c : CellId) : Move :=
  match (w.cell c).peek with
  | none => w.broken .outcomePresent
  | some outcome => w.reply (.outcome (w.reportOutcome outcome))

/-- Whether a waiter still stands before a shut latch. -/
def isBlocked (w : World) (waiter : Waiter) : Bool :=
  waiter.blocked && (w.cell waiter.cell).latch != .opened

/-- Names what claiming a cell gave, and says whether the claim was granted. -/
def nameClaim (attempt : ClaimAttempt) (again : Move) (name : Claim → Names → Names) : Move :=
  match attempt with
  | .busy => again
  | .refused w => w.reply (.flag false)
  | .granted w claim => (w.named (name claim)).reply (.flag true)

/-- The stage of a step in a script. -/
def stageOf (scope : Scope) (step : StepBody Script) : Stage :=
  .scripted step.body step.returned scope

/-- Runs an operation on cells. -/
def cellOp (w : World) (scope : Scope) : CellOp Script → Lookup Move
  | .create as => .ok (((w.addCell default).nameCell as w.cells.size).reply .nothing)
  | .createOwned as token =>
    let t := w.freshToken
    let made := { w with freshToken := t + 1 }.addCell (.owned t)
    let named := (made.nameCell as w.cells.size).named
      fun n => { n with tokens := n.tokens.insert token t }
    .ok (named.reply .nothing)
  | .createRealized as outcome => do
    let outcome ← w.outcome? scope outcome
    return ((w.addCell (.realized outcome)).nameCell as w.cells.size).reply .nothing
  | .state cell => do
    let c ← w.cell? cell
    return w.reply (.cell (w.reportCell c))
  | .render cell => do
    let c ← w.cell? cell
    return w.reply (.text (w.cell c).render)
  | .claim cell token => do
    let c ← w.cell? cell
    return nameClaim (w.tryClaim c) (w.call (.op (.cell (.claim cell token)) scope))
      fun claim n => { n with tokens := n.tokens.insert token claim.token }
  | .acquire cell claim => do
    let c ← w.cell? cell
    return nameClaim (w.tryClaim c) (w.call (.op (.cell (.acquire cell claim)) scope))
      fun granted n => { n with claims := n.claims.insert claim granted }
  | .sameToken token other => do
    let t ← w.token? token
    let t' ← w.token? other
    return w.reply (.flag (t == t'))
  | .complete cell outcome => do
    let c ← w.cell? cell
    let outcome ← w.outcome? scope outcome
    return w.call (.complete c outcome .unowned) [.answer .accepted]
  | .completeWith cell outcome token => do
    let c ← w.cell? cell
    let outcome ← w.outcome? scope outcome
    let authority ← w.authority? token
    return w.call (.complete c outcome authority) [.answer .verdict]
  | .chain cell source token => do
    let c ← w.cell? cell
    let source ← w.source? scope source
    let token ← w.chainToken? token
    return w.call (.forward c source token) [.answer .nothing]
  | .listen cell tag onSuccess onError => do
    let c ← w.cell? cell
    return w.call (.subscribe c (.user tag onSuccess onError scope)) [.answer .nothing]
  | .map cell f as => do
    let c ← w.cell? cell
    return w.call (.transform c (.ofFunction f) none) [.answer (.nameMade as)]
  | .bind cell step recover as => do
    let c ← w.cell? cell
    return w.call (.transform c (stageOf scope step) (recover.map (stageOf scope)))
      [.answer (.nameMade as)]
  | .revoke cell cause => do
    let c ← w.cell? cell
    let cause ← w.cause? scope cause
    return w.call (.revoke c cause) [.answer .accepted]
  | .revokeTo cell dependent => do
    let c ← w.cell? cell
    let dependent ← w.cell? dependent
    return w.call (.link c dependent) [.answer .nothing]
  | .setLabel cell text => do
    let c ← w.cell? cell
    match (w.cell c).label with
    | some _ => return w.reply (.flag false)
    | none => return (w.setCell c { w.cell c with label := some text }).reply (.flag true)
  | .label cell => do
    let c ← w.cell? cell
    return w.reply (((w.cell c).label.map Reply.text).getD .nothing)
  | .same cell other => do
    let c ← w.cell? cell
    let c' ← w.cell? other
    return w.reply (.flag (c == c'))
  | .realized source => do
    let source ← w.source? scope source
    return w.reply (((w.sourceValue source).map Reply.number).getD .nothing)
  | .wait cell guarded => do
    let c ← w.cell? cell
    return if guarded && (w.cell c).peek.isNone then w.reply .wouldBlock else w.block c none
  | .waitFor cell limit => do
    let c ← w.cell? cell
    return w.block c (some limit)
  | .startWaiter cell as => do
    let c ← w.cell? cell
    let waiter : Waiter := ⟨c, (w.cell c).peek.isNone⟩
    let started := w.named fun n => { n with waiters := n.waiters.insert as (some waiter) }
    if waiter.blocked then return started.waitBefore c .nothing
    else return started.reply .nothing
  | .joinWaiter waiter =>
    match (w.names.waiters.get? waiter).join with
    | none => .ok (w.reply .wouldBlock)
    | some there =>
      if w.isBlocked there then .ok (w.reply .wouldBlock)
      else
        let joined := w.named fun n => { n with waiters := n.waiters.insert waiter none }
        .ok (joined.pass there.cell)
  | .await targets tag onSuccess onError => do
    let cells ← targets.mapM w.awaited?
    return w.call (.await cells (.user tag onSuccess onError scope)) [.answer .nothing]

/-- Runs an operation on claims. -/
def claimOp (w : World) (scope : Scope) : ClaimOp → Lookup Move
  | .park as => do
    let claim ← w.claim? scope none
    return (w.named fun n => { n with claims := n.claims.insert as claim }).reply .nothing
  | .token name as => do
    let claim ← w.claim? scope name
    return (w.named fun n => { n with tokens := n.tokens.insert as claim.token }).reply .nothing
  | .cell name as => do
    let claim ← w.claim? scope name
    return (w.nameCell as claim.cell).reply .nothing
  | .complete name outcome => do
    let claim ← w.claim? scope name
    let outcome ← w.outcome? scope outcome
    return w.call (.complete claim.cell outcome (.presenting (some claim.token)))
      [.answer .accepted]
  | .chain name source => do
    let claim ← w.claim? scope name
    let source ← w.source? scope source
    return w.call (.forward claim.cell source (some claim.token)) [.answer .nothing]

/-- Runs an operation on the sink, or breaks off. -/
def faultOp (w : World) (scope : Scope) : FaultOp → Lookup Move
  | .sink mode => .ok ({ w with sink := mode }.reply .nothing)
  | .report e => do
    let e ← w.error? scope e
    return w.call (.report e) [.answer .nothing]
  | .panic p => .ok (w.raise p)

end RequestGraph.World
