import RequestGraph.Proofs.Engine.Operations

/-!
# What calls do

In a sound world, everything that a call may do, once and for all: which calls follow, with which frames
below them, and what happens to the core of the world. Invariants of the machine are proved by going
through these cases.
-/

namespace RequestGraph

/-- The calls that may come back at once and leave the core alone. -/
def Call.mayReturn : Call → Bool
  | .script [] _ | .complete .. | .deliver [] none _ | .report _ | .revoke .. | .stage (.pure _) _
  | .dispatch .. | .job (.node ..) | .drain .. | .work | .sweep [] _ => true
  | _ => false

/-- What starts the completion of a new cell of a context: its input, its node, or its failure. -/
inductive Call.Starts (fresh : CellId) : Call → Prop
  | input (source : Source) : Starts fresh (.forward fresh source none)
  | node (pool : Pool) (k : ContextId) (node : Node) : Starts fresh (.dispatch pool (.node k fresh node))
  | unknown (key : String) : Starts fresh (.complete fresh (.error (.unknownNode key)) .unowned)

/-- A countdown that a signal has settled. -/
def FanIn.firedBy {κ : Type} (f : FanIn κ) (failure : Option Error) : FanIn κ where
  remaining := if failure.isNone then f.remaining - 1 else f.remaining
  failed := failure.isSome
  continuation := none

/-- What a call may do. -/
inductive Invoked (w : World) : Call → Move → Prop
  | returned {c : Call} {w' : World} {r : Result} (may : c.mayReturn = true)
      (core : w'.core = w.core) : Invoked w c ⟨w', .ret r, []⟩
  -- Scripts.
  | script {op : Op} {rest : Script} {scope : Scope} :
      Invoked w (.script (op :: rest) scope) ⟨w, .call (.op op scope), [.script op rest scope]⟩
  | operated {scope : Scope} {op : Op} {mv : Move} (h : Operated w scope op mv) :
      Invoked w (.op op scope) mv
  -- Cells and listeners.
  | completed {c : CellId} {o : Outcome} {a : Authority} (pending : (w.cell c).isRealized = false)
      (accepted : Cell.violation? (w.cell c).owner a = none) :
      Invoked w (.complete c o a) ⟨w.setCell c ((w.cell c).completed o),
        .call (.deliver (w.cell c).listeners.toList (w.cell c).revokee o), []⟩
  | delivering {s : Subscription} {rest : List Subscription} {revokee : Option CellId}
      {o : Outcome} : Invoked w (.deliver (s :: rest) revokee o)
        ⟨w, .call (.notify s o), [.delivering rest revokee o]⟩
  | cascading {d : CellId} {o : Outcome} : Invoked w (.deliver [] (some d) o)
      ⟨w, .call (.revoke d (Outcome.error? o)), [.completed]⟩
  | notifying {s : Subscription} {o : Outcome} :
      Invoked w (.notify s o) ⟨w, .call (.tell s.listener o), [.notifying]⟩
  | heard {tag : String} {onSuccess onError ops : Script} {scope told : Scope} {o : Outcome}
      {w' : World} (core : w'.core = w.core) :
      Invoked w (.tell (.user tag onSuccess onError scope) o) ⟨w', .call (.script ops told), []⟩
  | relayed {target : CellId} {token : Option Token} {o : Outcome} :
      Invoked w (.tell (.forward target token) o) ⟨w, .call (.settle target o token), []⟩
  | stepped {result : CellId} {onSuccess s : Stage} {onError : Option Stage} {o : Outcome} :
      Invoked w (.tell (.transform result onSuccess onError) o)
        ⟨w, .call (.stage s o), [.adopting result]⟩
  | passed {result : CellId} {onSuccess : Stage} {e : Error} :
      Invoked w (.tell (.transform result onSuccess none) (.error e))
        ⟨w, .call (.complete result (.error e) .unowned), []⟩
  | signalled {f : FanInId} {o : Outcome} :
      Invoked w (.tell (.relay f) o) ⟨w, .call (.signal f (Outcome.error? o)), []⟩
  | unlatched {c : CellId} {o : Outcome} : Invoked w (.tell (.latch c) o)
      ⟨w.setCell c { w.cell c with latch := .opened }, .ret .unit, []⟩
  | registered {c : CellId} {l : Listener} (pending : (w.cell c).isRealized = false) :
      Invoked w (.subscribe c l) ⟨{ w with freshTicket := w.freshTicket + 1 }.setCell c
        ((w.cell c).listened ⟨w.freshTicket, l⟩), .ret .unit, []⟩
  | told {c : CellId} {l : Listener} {o : Outcome} (stored : (w.cell c).peek = some o) :
      Invoked w (.subscribe c l)
        ⟨{ w with freshTicket := w.freshTicket + 1 }, .call (.notify ⟨w.freshTicket, l⟩ o), []⟩
  | sunk {e : Error} {w' : World} {p : Panic} (sink : w.sink = .panic) (core : w'.core = w.core) :
      Invoked w (.report e) ⟨w', .raise p, []⟩
  -- Revocation, forwarding and transformations.
  | revoked {c : CellId} {cause : Option Error} (pending : (w.cell c).isRealized = false) :
      Invoked w (.revoke c cause) ⟨w, .call (.complete c (.error (.revoked cause)) .unowned), []⟩
  | linked {c d : CellId} (pending : (w.cell c).isRealized = false) :
      Invoked w (.link c d) ⟨w.setCell c { w.cell c with revokee := some d }, .ret .unit, []⟩
  | linkedLate {c d : CellId} {cause : Option Error} :
      Invoked w (.link c d) ⟨w, .call (.revoke d cause), []⟩
  | settled {c : CellId} {o : Outcome} :
      Invoked w (.settle c o none) ⟨w, .call (.complete c o .unowned), []⟩
  | presented {c : CellId} {o : Outcome} {t : Token} : Invoked w (.settle c o (some t))
      ⟨w, .call (.complete c o (.presenting (some t))), [.settling]⟩
  | forwarded {target : CellId} {source : Source} {token : Option Token} {o : Outcome} :
      Invoked w (.forward target source token) ⟨w, .call (.settle target o token), []⟩
  | awaitingSource {target c : CellId} {token : Option Token} :
      Invoked w (.forward target (.cell c) token)
        ⟨w, .call (.subscribe c (.forward target token)), []⟩
  | transformed {source : CellId} {onSuccess : Stage} {onError : Option Stage} :
      Invoked w (.transform source onSuccess onError)
        ⟨w.addCell default, .call (.subscribe source (.transform w.cells.size onSuccess onError)),
          [.made w.cells.size]⟩
  | staged {s : Stage} {o : Outcome} {body : Script} {returned : Returned} {scope : Scope} :
      Invoked w (.stage s o) ⟨w, .call (.script body scope), [.returning returned scope]⟩
  | brokeOff {f : Outcome → Except Panic Step} {o : Outcome} {p : Panic} :
      Invoked w (.stage (.pure f) o) ⟨w, .raise p, []⟩
  | adopted {result : CellId} {step : Step} {o : Outcome} :
      Invoked w (.adopt result step) ⟨w, .call (.complete result o .unowned), []⟩
  | following {result inner : CellId} : Invoked w (.adopt result (.follow inner))
      ⟨w, .call (.link result inner), [.following result inner]⟩
  -- Fan-ins.
  | awaitFailed {cells : List CellId} {k : Continuation} {e : Error}
      (failed : w.firstFailure cells.reverse = some e) :
      Invoked w (.await cells k) ⟨w, .call (.conclude k (some e)), []⟩
  | awaitDone {cells : List CellId} {k : Continuation} (done : cells.all w.hasSucceeded = true) :
      Invoked w (.await cells k) ⟨w, .call (.conclude k none), []⟩
  | awaiting {cells : List CellId} {k : Continuation}
      (none : w.firstFailure cells.reverse = none) (left : cells.all w.hasSucceeded = false) :
      Invoked w (.await cells k) ⟨{ w with fanIns := w.fanIns.push (.start k) },
        .call (.watch w.fanIns.size cells.reverse), []⟩
  | watched {f : FanInId} : Invoked w (.watch f []) ⟨w, .call (.signal f none), []⟩
  | watchSkipped {f : FanInId} {c : CellId} {rest : List CellId}
      (succeeded : w.hasSucceeded c = true) :
      Invoked w (.watch f (c :: rest)) ⟨w, .call (.watch f rest), []⟩
  | watchStopped {f : FanInId} {c : CellId} {rest : List CellId}
      (left : w.hasSucceeded c = false)
      (failed : (w.fanIn f).failed = true) : Invoked w (.watch f (c :: rest))
        ⟨w.setFanIn f (w.fanIn f).await, .call (.signal f none), []⟩
  | watching {f : FanInId} {c : CellId} {rest : List CellId}
      (left : w.hasSucceeded c = false)
      (calm : (w.fanIn f).failed = false) : Invoked w (.watch f (c :: rest))
        ⟨w.setFanIn f (w.fanIn f).await, .call (.subscribe c (.relay f)), [.watching f rest]⟩
  | counted {f : FanInId}
      (early : ¬((w.fanIn f).remaining = 1 ∧ (w.fanIn f).failed = false)) : Invoked w (.signal f none)
        ⟨w.setFanIn f { w.fanIn f with remaining := (w.fanIn f).remaining - 1 }, .ret .unit, []⟩
  | ignored {f : FanInId} {e : Error} (failed : (w.fanIn f).failed = true) :
      Invoked w (.signal f (some e)) ⟨w, .ret .unit, []⟩
  | fired {f : FanInId} {failure : Option Error} {k : Continuation}
      (calm : (w.fanIn f).failed = false) (last : failure = none → (w.fanIn f).remaining = 1)
      (left : (w.fanIn f).continuation = some k) : Invoked w (.signal f failure)
        ⟨w.setFanIn f ((w.fanIn f).firedBy failure), .call (.conclude k failure), []⟩
  | firedTwice {f : FanInId} {failure : Option Error}
      (calm : (w.fanIn f).failed = false) (last : failure = none → (w.fanIn f).remaining = 1)
      (gone : (w.fanIn f).continuation = none) : Invoked w (.signal f failure)
        ⟨w.setFanIn f ((w.fanIn f).firedBy failure), .raise (.broken .continuationPresent), []⟩
  | joined {tag : String} {onSuccess onError ops : Script} {scope told : Scope}
      {failure : Option Error} {w' : World} (core : w'.core = w.core) :
      Invoked w (.conclude (.user tag onSuccess onError scope) failure)
        ⟨w', .call (.script ops told), []⟩
  -- Jobs.
  | performing {pool : Pool} {job : Job} :
      Invoked w (.dispatch pool job) ⟨w, .call (.perform pool.ambient job), []⟩
  | performed {ambient : Ambient} {job : Job} {w' : World} (core : w'.core = w.core) :
      Invoked w (.perform ambient job)
        ⟨w', .call (.job job), [.reporting, .restoring w.thread.ambient]⟩
  | performedQueued {e : ExecutorId} {s : Submission Job} {w' : World} (core : w'.core = w.core) :
      Invoked w (.performQueued e s)
        ⟨w', .call (.perform s.ambient s.job), [.leaving w.thread.inside]⟩
  | jobStarted {tag : String} {body : Script} {scope : Scope} {w' : World}
      (core : w'.core = w.core) :
      Invoked w (.job (.user tag body scope)) ⟨w', .call (.script body scope), []⟩
  | nodeStarted {k : ContextId} {target : CellId} {node : Node} {w' : World}
      (pending : (w.cell target).isRealized = false) (unowned : (w.cell target).owner = none)
      (core : w'.core =
        { w.core with
          cells := w.cells.set target
            { w.cell target with phase := .listening, owner := some w.freshToken }
          freshToken := w.freshToken + 1 }) :
      Invoked w (.job (.node k target node)) ⟨w', .call (.script node.body
        { context := some k, claim := some ⟨target, w.freshToken⟩ }),
          [.guarding ⟨target, w.freshToken⟩]⟩
  | drained {e : ExecutorId} {limit left : Option Nat} {order : QueueOrder} {ran : Nat}
      {s : Submission Job} {w' : World} (core : w'.core = w.core) :
      Invoked w (.drain e limit order ran)
        ⟨w', .call (.performQueued e s), [.draining e left order (ran + 1)]⟩
  | worked {s : Submission Job} {w' : World} (core : w'.core = w.core) :
      Invoked w .work ⟨w', .call (.perform s.ambient s.job), [.working]⟩
  -- Contexts.
  | fetched {k : ContextId} {index : KeyIndex} {key : String} {installed : Installed CellId}
      (install : (w.context k).slots.getOrInsert index.toUInt64 w.cells.size = installed)
      (found : installed.won = false) :
      Invoked w (.fetch k index key) ⟨w, .ret (.cell installed.value), []⟩
  | fetchedNew {k : ContextId} {index : KeyIndex} {key : String} {installed : Installed CellId}
      {ledger : AppendList (KeyIndex × CellId)} {c : Call} {w' : World}
      (install : (w.context k).slots.getOrInsert index.toUInt64 w.cells.size = installed)
      (new : installed.won = true)
      (accepted : (w.context k).ledger.push (index, w.cells.size) = (ledger, .accepted))
      (starts : c.Starts w.cells.size)
      (core : w'.core = ((w.addCell default).setContext k
        { w.context k with slots := installed.table, ledger }).core) :
      Invoked w (.fetch k index key) ⟨w', .call c, [.made w.cells.size]⟩
  | fetchedLate {k : ContextId} {index : KeyIndex} {key : String} {installed : Installed CellId}
      {ledger : AppendList (KeyIndex × CellId)} {item : KeyIndex × CellId}
      (install : (w.context k).slots.getOrInsert index.toUInt64 w.cells.size = installed)
      (new : installed.won = true)
      (rejected : (w.context k).ledger.push (index, w.cells.size) = (ledger, .rejected item)) :
      Invoked w (.fetch k index key)
        ⟨(w.addCell default).setContext k { w.context k with slots := installed.table, ledger },
          .call (.complete w.cells.size (.error .contextFinished) .unowned), [.made w.cells.size]⟩
  | interned {k : ContextId} {key : String} {keys : Interner String} {index : KeyIndex}
      (intern : w.keys.intern key = (keys, some index)) :
      Invoked w (.fetchKey k key) ⟨{ w with keys }, .call (.fetch k index key), []⟩
  | exhausted {k : ContextId} {key : String} {keys : Interner String}
      (intern : w.keys.intern key = (keys, none)) :
      Invoked w (.fetchKey k key) ⟨w, .raise (.broken .indexLeft), []⟩
  | gathering {k : ContextId} {key : String} {rest keys : List String} {found : List CellId} :
      Invoked w (.gather k (key :: rest) keys found)
        ⟨w, .call (.fetchKey k key), [.gathering k rest keys found]⟩
  | gathered {k : ContextId} {keys : List String} {found : List CellId} :
      Invoked w (.gather k [] keys found) ⟨w.addCell default,
        .call (.await found (.yank k keys w.cells.size)), [.made w.cells.size]⟩
  | yankSucceeded {k : ContextId} {keys : List String} {result : CellId} {view : View}
      (seen : (w.setContext k (w.context k).frozen).snapshot? k = some view) :
      Invoked w (.conclude (.yank k keys result) none)
        ⟨w.setContext k (w.context k).frozen, .call (.complete result (.ok (.view view)) .unowned), []⟩
  | yankUnread {k : ContextId} {keys : List String} {result : CellId}
      (unread : (w.setContext k (w.context k).frozen).snapshot? k = none) :
      Invoked w (.conclude (.yank k keys result) none)
        ⟨w.setContext k (w.context k).frozen, .raise (.broken .ledgerReadable), []⟩
  | yankFailed {k : ContextId} {keys : List String} {result : CellId} {e : Error} :
      Invoked w (.conclude (.yank k keys result) (some e))
        ⟨w, .call (.cancel k (some e)), [.enriching k keys result e]⟩
  | cancelled {k : ContextId} {cause : Option Error} {ledger : List (KeyIndex × CellId)}
      (read : (w.context k).frozen.ledger.read? = some ledger) : Invoked w (.cancel k cause)
        ⟨w.setContext k (w.context k).frozen, .call (.sweep ledger cause), []⟩
  | cancelUnread {k : ContextId} {cause : Option Error}
      (unread : (w.context k).frozen.ledger.read? = none) : Invoked w (.cancel k cause)
        ⟨w.setContext k (w.context k).frozen, .raise (.broken .ledgerReadable), []⟩
  | swept {index : KeyIndex} {c : CellId} {rest : List (KeyIndex × CellId)} {cause : Option Error}
      (realized : (w.cell c).isRealized = true) :
      Invoked w (.sweep ((index, c) :: rest) cause) ⟨w, .call (.sweep rest cause), []⟩
  | sweeping {index : KeyIndex} {c : CellId} {rest : List (KeyIndex × CellId)}
      {cause : Option Error} (pending : (w.cell c).isRealized = false) :
      Invoked w (.sweep ((index, c) :: rest) cause)
        ⟨w, .call (.complete c (.error (.cancelled cause)) .unowned), [.sweeping rest cause]⟩

namespace World

variable {w : World}

/-- A completion either has an answer at once or delivers an outcome that it has just stored. -/
theorem invoked_complete (h : w.Sound) (c : CellId) (o : Outcome) (a : Authority) :
    Invoked w (.complete c o a) (w.complete c o a) := by
  rw [complete_eq h]
  split
  · exact .returned rfl rfl
  · next hp =>
    cases hv : Cell.violation? (w.cell c).owner a with
    | none => exact .completed (Bool.eq_false_iff.mpr hp) hv
    | some v => cases v <;> exact .returned rfl rfl

/-- Delivery takes the listeners in order and ends with the revokee. -/
theorem invoked_deliver (ls : List Subscription) (revokee : Option CellId) (o : Outcome) :
    Invoked w (.deliver ls revokee o) (w.deliver ls revokee o) := by
  cases ls with
  | nil => cases revokee with
    | none => exact .returned rfl rfl
    | some d => exact .cascading
  | cons s rest => exact .delivering

/-- What telling runs depends on the kind of the listener. -/
theorem invoked_tell (l : Listener) (o : Outcome) : Invoked w (.tell l o) (w.tell l o) := by
  cases l with
  | user tag onSuccess onError scope => cases o <;> exact .heard rfl
  | forward target token => exact .relayed
  | transform result onSuccess onError => cases o with
    | ok v => exact .stepped
    | error e => cases onError with
      | some recover => exact .stepped
      | none => exact .passed
  | relay f => exact .signalled
  | latch c => exact .unlatched

/-- Subscribing only touches the cell that is listened to. -/
theorem invoked_subscribe (h : w.Sound) (c : CellId) (l : Listener) :
    Invoked w (.subscribe c l) (w.subscribe c l) := by
  rw [subscribe_eq h]
  cases hp : (w.cell c).peek with
  | some o => exact .told hp
  | none => exact .registered (pending_of_peek h hp)

/-- Linking only touches the cell that is to revoke the other. -/
theorem invoked_link (h : w.Sound) (c d : CellId) : Invoked w (.link c d) (w.link c d) := by
  rw [link_eq h]
  cases hp : (w.cell c).peek with
  | some o => exact .linkedLate
  | none => exact .linked (pending_of_peek h hp)

/-- A forward completes its target at once if the source has an outcome, and listens to it otherwise. -/
theorem invoked_forward (target : CellId) (source : Source) (token : Option Token) :
    Invoked w (.forward target source token) (w.forward target source token) := by
  cases source with
  | value n => exact .forwarded
  | cell c =>
    simp only [forward]
    split
    · exact .forwarded
    · exact .awaitingSource

/-- Awaiting concludes inline, or it sets up a fan-in and goes through the cells. -/
theorem invoked_await (cells : List CellId) (k : Continuation) :
    Invoked w (.await cells k) (w.await cells k) := by
  unfold await
  split
  · next failed => exact .awaitFailed failed
  · next none =>
    split
    · next done => exact .awaitDone done
    · next left => exact .awaiting none (Bool.eq_false_iff.mpr left)

/-- Watching takes the cells in order, one subscription after the other. -/
theorem invoked_watch (f : FanInId) (cells : List CellId) :
    Invoked w (.watch f cells) (w.watch f cells) := by
  cases cells with
  | nil => exact .watched
  | cons c rest =>
    simp only [watch]
    split
    · next succeeded => exact .watchSkipped succeeded
    · next left =>
      have left := Bool.eq_false_iff.mpr left
      split
      · next failed => exact .watchStopped left failed
      · next calm => exact .watching left (Bool.eq_false_iff.mpr calm)

@[simp] theorem setFanIn_fanIn (w : World) (f : FanInId) : w.setFanIn f (w.fanIn f) = w := by
  rw [setFanIn, fanIn, Arena.set_get_self]

/-- A signal counts, and the one that settles the fan-in takes its continuation. -/
theorem invoked_signal (f : FanInId) (failure : Option Error) :
    Invoked w (.signal f failure) (w.signal f failure) := by
  cases failure with
  | none =>
    -- The last success settles the fan-in, unless it has failed before.
    by_cases last : (w.fanIn f).remaining = 1 ∧ (w.fanIn f).failed = false
    · have heq : (w.fanIn f).succeed =
          .settled ((w.fanIn f).firedBy (none : Option Error)) (w.fanIn f).continuation := by
        simp [FanIn.succeed, FanIn.firedBy, FanIn.taken, last]
      simp only [signal, heq]
      cases hk : (w.fanIn f).continuation with
      | none => exact .firedTwice last.2 (fun _ => last.1) hk
      | some k => exact .fired last.2 (fun _ => last.1) hk
    · have heq : (w.fanIn f).succeed =
          .counted { w.fanIn f with remaining := (w.fanIn f).remaining - 1 } := by
        simp [FanIn.succeed, last]
      simp only [signal, heq]
      exact .counted last
  | some e =>
    -- The first failure settles the fan-in, and any other is ignored.
    cases hf : (w.fanIn f).failed with
    | true =>
      have heq : (w.fanIn f).fail = .counted (w.fanIn f) := by simp [FanIn.fail, hf]
      simp only [signal, heq, setFanIn_fanIn]
      exact .ignored hf
    | false =>
      have heq : (w.fanIn f).fail =
          .settled ((w.fanIn f).firedBy (some e)) (w.fanIn f).continuation := by
        simp [FanIn.fail, FanIn.firedBy, FanIn.taken, hf]
      simp only [signal, heq]
      cases hk : (w.fanIn f).continuation with
      | none => exact .firedTwice hf nofun hk
      | some k => exact .fired hf nofun hk

/-- What a continuation runs depends on its kind and on whether there is a failure. -/
theorem invoked_conclude (k : Continuation) (failure : Option Error) :
    Invoked w (.conclude k failure) (w.conclude k failure) := by
  cases k with
  | user => cases failure <;> exact .joined rfl
  | yank k keys result => cases failure with
    | some e => exact .yankFailed
    | none =>
      simp only [conclude, succeedYank]
      split
      · next unread => exact .yankUnread unread
      · next seen => exact .yankSucceeded seen

/-- A job that is dispatched runs in place or is put into the queue of its executor. -/
theorem invoked_dispatch (pool : Pool) (job : Job) :
    Invoked w (.dispatch pool job) (w.dispatch pool job) := by
  simp only [dispatch]
  split
  · exact .performing
  · split
    · exact .performing
    · exact .returned rfl rfl
  · exact .returned rfl rfl

/-- A job of a node claims its cell first and runs nothing if it cannot. -/
theorem invoked_job (h : w.Sound) (j : Job) : Invoked w (.job j) (w.job j) := by
  cases j with
  | user => exact .jobStarted rfl
  | node k target node =>
    simp only [job]
    rw [tryClaim_eq h]
    cases hr : (w.cell target).isRealized with
    | true => exact .returned rfl rfl
    | false =>
      cases hc : (w.cell target).isClaimed with
      | true => exact .returned rfl rfl
      | false => exact .nodeStarted hr (by simpa [Cell.isClaimed] using hc) rfl

/-- Fetching finds the cell of its slot or makes one and starts the node. -/
theorem invoked_fetch (k : ContextId) (index : KeyIndex) (key : String) :
    Invoked w (.fetch k index key) (w.fetch k index key) := by
  simp only [fetch]
  split
  · next won =>
    rcases hp : (w.context k).ledger.push (index, w.cells.size) with ⟨ledger, pushed⟩
    cases pushed with
    | rejected item => exact .fetchedLate rfl won hp
    | accepted =>
      simp only [startCell]
      split
      · exact .fetchedNew rfl won hp (.input _) rfl
      · split
        · exact .fetchedNew rfl won hp (.unknown _) rfl
        · exact .fetchedNew rfl won hp (.node _ _ _) rfl
  · next lost => exact .fetched rfl (Bool.eq_false_iff.mpr lost)

/-- What a call does, whichever it is. -/
theorem invoke_spec (h : w.Sound) (c : Call) : Invoked w c (w.invoke c) := by
  cases c with
  | script ops scope => cases ops with
    | nil => exact .returned rfl rfl
    | cons op rest => exact .script
  | op op scope => exact .operated (operate_spec h scope op)
  | complete c o a => exact invoked_complete h c o a
  | deliver ls revokee o => exact invoked_deliver ls revokee o
  | notify s o => exact .notifying
  | tell l o => exact invoked_tell l o
  | subscribe c l => exact invoked_subscribe h c l
  | report e =>
    simp only [invoke, report]
    split
    · exact .returned rfl rfl
    · next sink => exact .sunk sink rfl
    · exact .returned rfl rfl
  | revoke c cause =>
    simp only [invoke, revoke]
    split
    · exact .returned rfl rfl
    · next pending => exact .revoked (Bool.eq_false_iff.mpr pending)
  | link c d => exact invoked_link h c d
  | settle c o token => cases token with
    | none => exact .settled
    | some t => exact .presented
  | forward target source token => exact invoked_forward target source token
  | transform source onSuccess onError => exact .transformed
  | stage s o => cases s with
    | pure f =>
      simp only [invoke, stage]
      split
      · exact .returned rfl rfl
      · exact .brokeOff
    | scripted => exact .staged
  | adopt result step => cases step with
    | value | fail => exact .adopted
    | follow inner => exact .following
  | await cells k => exact invoked_await cells k
  | watch f cells => exact invoked_watch f cells
  | signal f failure => exact invoked_signal f failure
  | conclude k failure => exact invoked_conclude k failure
  | dispatch pool job => exact invoked_dispatch pool job
  | perform ambient job => exact .performed rfl
  | performQueued e s => exact .performedQueued rfl
  | job j => exact invoked_job h j
  | drain e limit order ran =>
    simp only [invoke, drain]
    split
    · exact .returned rfl rfl
    · exact .returned rfl rfl
    · exact .drained rfl
  | work =>
    simp only [invoke, work]
    split
    · exact .returned rfl rfl
    · exact .worked rfl
  | fetch k index key => exact invoked_fetch k index key
  | fetchKey k key =>
    simp only [invoke, fetchKey]
    split
    · next intern => exact .exhausted intern
    · next intern => exact .interned intern
  | gather k pending keys found => cases pending with
    | nil => exact .gathered
    | cons => exact .gathering
  | cancel k cause =>
    simp only [invoke, cancel]
    split
    · next unread => exact .cancelUnread unread
    · next read => exact .cancelled read
  | sweep ledger cause => cases ledger with
    | nil => exact .returned rfl rfl
    | cons e rest =>
      simp only [invoke, sweep]
      split
      · next realized => exact .swept realized
      · next pending => exact .sweeping (Bool.eq_false_iff.mpr pending)

end World

end RequestGraph
