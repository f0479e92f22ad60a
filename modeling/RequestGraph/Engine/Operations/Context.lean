import RequestGraph.Engine.Evaluate

/-!
# Operations on contexts, providers and requests
-/

namespace RequestGraph.World

/-- The pool of a new context: a named one, or one that runs jobs at once under the ambient of the
running thread. -/
def poolOrInline? (w : World) : Option String → Lookup Pool
  | none => .ok ⟨.inline, w.thread.ambient⟩
  | some name => w.pool? name

/-- Interns a key, and goes on with its index. -/
def withIndex (w : World) (key : String) (next : World → KeyIndex → Move) : Move :=
  match w.keys.intern key with
  | (_, none) => w.broken .indexLeft
  | (keys, some index) => next { w with keys } index

/-- Goes on with the index that is meant. -/
def withIndexOf (w : World) (index : IndexExpr) (next : World → KeyIndex → Move) : Move :=
  match index with
  | .ofKey key => w.withIndex key next
  | .number n => next w n

/-- The entries of a ledger, as they stand. -/
def reportLedger (w : World) (ledger : List (KeyIndex × CellId)) : List LedgerReport :=
  ledger.map fun (index, c) => { index, key := w.keys.key? index, cell := w.reportCell c }

/-- The sources of named inputs. -/
def inputs? (w : World) (scope : Scope) (inputs : List (String × SourceExpr)) :
    Lookup (List (String × Source)) :=
  inputs.mapM fun (key, source) => do return (key, ← w.source? scope source)

/-- Runs an operation on keys, providers and contexts. -/
def contextOp (w : World) (scope : Scope) : ContextOp Script → Lookup Move
  | .intern key => .ok (w.withIndex key fun w index => w.reply (.count index.toNat))
  | .interned key =>
    let (keys, index) := w.keys.index? key
    .ok ({ w with keys }.reply (.interned keys.size index))
  | .createProvider as nodes =>
    let provider := Provider.ofList (nodes.map fun (key, body) => (key, ({ key, body } : Node)))
    let made := { w with providers := w.providers.push provider }
    .ok ((made.named fun n =>
      { n with providers := n.providers.insert as w.providers.size }).reply .nothing)
  | .register name key body => do
    let p ← w.provider? name
    if (w.providers.get p).shared then return w.reply .shared
    else
      let provider := (w.providers.get p).insert key { key, body }
      return { w with providers := w.providers.set p provider }.reply (.flag true)
  | .renderProvider name => do
    let p ← w.provider? name
    let provider := w.providers.get p
    return w.reply (.provider provider.nodes.size provider.nodes.isEmpty provider.render)
  | .hasNode name key index => do
    let p ← w.provider? name
    return w.withIndexOf index fun w index =>
      let (provider, node) := (w.providers.get p).lookup key index
      { w with providers := w.providers.set p provider }.reply (.flag node.isSome)
  | .create as inputs provider pool => do
    let inputs ← w.inputs? scope inputs
    let p ← w.provider? provider
    let pool ← w.poolOrInline? pool
    let context : Context := { inputs := .ofList inputs, provider := p, pool }
    let made := { w with
      contexts := w.contexts.push context
      providers := w.providers.modify p fun provider => { provider with shared := true } }
    return (made.named fun n =>
      { n with contexts := n.contexts.insert as w.contexts.size }).reply .nothing
  | .fetch context key as => do
    let k ← w.context? scope context
    return w.call (.fetchKey k key) [.answer (.nameFetched as)]
  | .fetchAt context key index as => do
    let k ← w.context? scope context
    return w.withIndexOf index fun w index =>
      w.call (.fetch k index key) [.answer (.nameFetched as)]
  | .freeze context => do
    let k ← w.context? scope context
    match (w.context k).freeze with
    | .error e => return w.reply (.frozenBefore e)
    | .ok frozen =>
      match frozen.ledger.read? with
      | none => return (w.setContext k frozen).broken .ledgerReadable
      | some ledger => return (w.setContext k frozen).reply (.ledger (w.reportLedger ledger))
  | .cancel context cause => do
    let k ← w.context? scope context
    let cause ← w.cause? scope cause
    return w.call (.cancel k cause) [.answer .nothing]
  | .isFrozen context => do
    let k ← w.context? scope context
    return w.reply (.flag (w.context k).isFrozen)
  | .render context => do
    let k ← w.context? scope context
    return w.reply (.texts [(w.context k).render, (w.context k).pool.render])
  | .inputs context => do
    let k ← w.context? scope context
    return w.reply (.inputs ((w.context k).inputs.entries.map
      fun (key, source) => (key, w.sourceValue source)))

/-- The view of a request that has succeeded. -/
def yankedView (w : World) (c : CellId) : Option View :=
  match (w.cell c).value? with
  | some (.view v) => some v
  | _ => none

/-- Runs an operation on requests and their views. -/
def viewOp (w : World) (scope : Scope) : ViewOp Script → Lookup Move
  | .yank context keys as => do
    let k ← w.context? scope context
    return w.call (.gather k keys keys []) [.answer (.nameYanked as)]
  | .view name => do
    let c ← w.view? name
    match (w.cell c).peek with
    | none => return w.reply .nothing
    | some (.ok (.view v)) =>
      return w.reply (.viewed (w.reportOutcome (.ok (.view v))) v.render)
    | some (.ok (.number n)) => return w.reply (.number n)
    | some (.error e) => return w.reply (.viewed (w.reportOutcome (.error e)) e.render)
  | .get name key => do
    let c ← w.view? name
    match w.yankedView c with
    | none => return w.reply .nothing
    | some v => return w.reply (.entry (v.get? key) (v.contains key))
  | .isOf name context => do
    let c ← w.view? name
    let k ← w.context? scope context
    match w.yankedView c with
    | none => return w.reply .nothing
    | some v => return w.reply (.flag (v.context == k))
  | .listen name tag onSuccess onError => do
    let c ← w.view? name
    return w.call (.subscribe c (.user tag onSuccess onError scope)) [.answer .nothing]
  | .bind name key as => do
    let c ← w.view? name
    return w.call (.transform c (.entry key) none) [.answer (.nameMade as)]
  | .fail name e => do
    let c ← w.view? name
    let e ← w.error? scope e
    return w.call (.complete c (.error e) .unowned) [.answer .accepted]

end RequestGraph.World
