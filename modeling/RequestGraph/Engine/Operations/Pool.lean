import RequestGraph.Engine.Evaluate

/-!
# Operations on ambients and pools
-/

namespace RequestGraph.World

/-- The ambient that a new one is made from. -/
def base? (w : World) (scope : Scope) : AmbientBase → Lookup Ambient
  | .blank => .ok {}
  | .current => .ok w.thread.ambient
  | .ofPool => do return (w.context (← w.context? scope none)).pool.ambient
  | .named name => w.ambient? name

/-- The ambient of a new pool: a named one, or that of the running thread. -/
def captured? (w : World) : Option String → Lookup Ambient
  | none => .ok w.thread.ambient
  | some name => w.ambient? name

/-- Names a pool. -/
def namePool (w : World) (as : String) (pool : Pool) : World :=
  w.named fun n => { n with pools := n.pools.insert as pool }

/-- Makes a pool of a kind; a queue gets an executor of its own, which goes by the same name. -/
def makePool (w : World) (as : String) (kind : PoolKind) (ambient : Ambient) : World :=
  match kind with
  | .inline => w.namePool as ⟨.inline, ambient⟩
  | .worker => w.namePool as ⟨.worker, ambient⟩
  | .queue =>
    let e := w.executors.size
    let queued := { w with executors := w.executors.push [] }.namePool as ⟨.executor e, ambient⟩
    queued.named fun n => { n with queues := n.queues.insert as e }

/-- Runs an operation on ambients and pools. -/
def poolOp (w : World) (scope : Scope) : PoolOp Script → Lookup Move
  | .createAmbient as base bindings spanOf => do
    let base ← w.base? scope base
    let _ ← spanOf.mapM w.ambient?
    let ambient := bindings.foldl Ambient.bind base
    return (w.named fun n => { n with ambients := n.ambients.insert as ambient }).reply .nothing
  | .lookup name type => do
    let ambient ← w.ambient? name
    return w.reply (((ambient.lookup type).map Reply.binding).getD .nothing)
  | .lookupCurrent type =>
    .ok (w.reply (((w.thread.ambient.lookup type).map Reply.binding).getD .nothing))
  | .lookupPool name type => do
    let pool ← w.pool? name
    return w.reply (((pool.ambient.lookup type).map Reply.binding).getD .nothing)
  | .renderAmbient name => do
    let ambient ← w.ambient? name
    return w.reply (.text ambient.render)
  | .renderPool name => do
    let pool ← w.pool? name
    return w.reply (.text pool.render)
  | .scope name body => do
    let ambient ← w.ambient? name
    return { w with thread := { w.thread with ambient } }.call (.script body scope)
      [.restoring w.thread.ambient, .answer .nothing]
  | .create as kind ambient => do
    let ambient ← w.captured? ambient
    return (w.makePool as kind ambient).reply .nothing
  | .dispatch name tag body => do
    let pool ← w.pool? name
    return w.call (.dispatch pool (.user tag body scope)) [.answer .nothing]
  | .run name limit order => do
    let e ← w.queue? name
    return w.call (.drain e limit order 0) [.answer .ran]
  | .queued name => do
    let e ← w.queue? name
    return w.reply (.count (w.executors.get e).length)

end RequestGraph.World
