import RequestGraph.Proofs.Engine.Operations
import RequestGraph.Proofs.Ledger

/-!
# Queues, providers, what is opened with them, and the thread

Jobs that wait and the nodes of providers are the *stock* of a world. Few calls change it: an operation that
makes a queue or a provider, registers a node, asks a provider, or opens a context; a dispatch; whatever takes
a job out of a queue; and the first fetch of a key, which asks the provider of its context.

What contexts are opened with, and which pools and queues go by which name, are its *fixtures*. They change
only when a pool is made or a context is opened.

The state of the running thread changes when a scope is entered or a job is begun. Whatever changes it leaves
a frame behind that puts it back, and no other call leaves such a frame.

The threads that wait for cells change when one is started, and when one is joined.
-/

namespace RequestGraph

/-- The part of a world that jobs and nodes are kept in. -/
structure Stock where
  providers : Arena (Provider Node)
  executors : Arena (List (Submission Job))
  worker : Worker Job

/-- The queues and providers of a world. -/
def World.stock (w : World) : Stock := ⟨w.providers, w.executors, w.worker⟩

/-- What contexts are opened with, and the pools and queues that have a name. -/
structure Fixtures where
  inputs : ContextId → OrderedMap String Source
  pool : ContextId → Pool
  pools : OrderedMap String Pool
  queues : OrderedMap String ExecutorId

/-- The fixtures of a world. -/
def World.fixtures (w : World) : Fixtures where
  inputs k := (w.context k).inputs
  pool k := (w.context k).pool
  pools := w.names.pools
  queues := w.names.queues

/-- The frames that put the state of the thread back. -/
def Frame.restores : Frame → Bool
  | .restoring _ | .leaving _ => true
  | _ => false

/-- The fixtures and the state of the thread, and the frames that are to put it back. -/
structure Backdrop where
  fixtures : Fixtures
  thread : Thread
  guards : List Frame

def World.backdrop (w : World) : Backdrop := ⟨w.fixtures, w.thread, []⟩

def Move.backdrop (mv : Move) : Backdrop :=
  ⟨mv.world.fixtures, mv.world.thread, mv.frames.filter Frame.restores⟩

/-- The threads that wait for cells, by their names. -/
abbrev Waiters := OrderedMap String (Option Waiter)

/-- Everything that most calls leave alone. -/
def World.holdings (w : World) : Stock × Backdrop × Waiters := (w.stock, w.backdrop, w.names.waiters)

def Move.holdings (mv : Move) : Stock × Backdrop × Waiters :=
  (mv.world.stock, mv.backdrop, mv.world.names.waiters)

/-- The operations that may change the stock. -/
def Op.stocks : Op → Bool
  | .pool (.create ..) => true
  | .context (.createProvider ..) | .context (.register ..) | .context (.hasNode ..)
  | .context (.create ..) => true
  | _ => false

/-- The operations that may register nodes. -/
def Op.supplies : Op → Bool
  | .context (.createProvider ..) | .context (.register ..) => true
  | _ => false

/-- The operations that change the fixtures. -/
def Op.furnishes : Op → Bool
  | .pool (.create ..) | .context (.create ..) => true
  | _ => false

/-- The operations that change the state of the thread. -/
def Op.enters : Op → Bool
  | .pool (.scope ..) => true
  | _ => false

/-- The operations that change who waits. -/
def Op.attends : Op → Bool
  | .cell (.startWaiter ..) | .cell (.joinWaiter ..) => true
  | _ => false

/-- The calls that may change the stock. -/
def Call.stocks : Call → Bool
  | .op o _ => o.stocks
  | .dispatch .. | .drain .. | .work | .fetch .. => true
  | _ => false

/-- The calls that put jobs into queues, or take them out. -/
def Call.queues : Call → Bool
  | .dispatch .. | .drain .. | .work => true
  | _ => false

/-- The calls that change the state of the thread. -/
def Call.enters : Call → Bool
  | .op o _ => o.enters
  | .perform .. | .performQueued .. => true
  | _ => false

theorem Op.stocks_of_furnishes {op : Op} (h : op.furnishes = true) : op.stocks = true := by
  cases op with
  | pool op => cases op with
    | create => rfl
    | _ => cases h
  | context op => cases op with
    | create => rfl
    | _ => cases h
  | _ => cases h

theorem Op.not_supplies_of_not_stocks {op : Op} (h : op.stocks = false) : op.supplies = false := by
  cases op with
  | context op => cases op with
    | createProvider | register => cases h
    | _ => rfl
  | _ => rfl

namespace World

/-- What an operation does that may change the stock. -/
inductive Stocked (w : World) : Op → Move → Prop
  /-- A name is unknown, or there is no index left. -/
  | failed {op : Op} {e : Control} (idle : op.supplies = false) : Stocked w op ⟨w, e, []⟩
  | pooled {as : String} {kind : PoolKind} {ambient : Option String} {a : Ambient} :
      Stocked w (.pool (.create as kind ambient)) ((w.makePool as kind a).reply .nothing)
  | provided {as : String} {nodes : List (String × Script)} :
      Stocked w (.context (.createProvider as nodes))
        (({ w with
            providers := w.providers.push
              (.ofList (nodes.map fun (key, body) => (key, ⟨key, body⟩))) }.named
          fun n => { n with providers := n.providers.insert as w.providers.size }).reply .nothing)
  | refused {name key : String} {body : Script} {e : Control}
      (taken : ∀ p, w.provider? name = .ok p → (w.providers.get p).shared = true) :
      Stocked w (.context (.register name key body)) ⟨w, e, []⟩
  | registered {name key : String} {body : Script} {p : ProviderId} (named : w.provider? name = .ok p)
      (free : (w.providers.get p).shared = false) : Stocked w (.context (.register name key body))
        ({ w with
            providers := w.providers.set p ((w.providers.get p).insert key ⟨key, body⟩) }.reply
          (.flag true))
  | asked {name key : String} {index : IndexExpr} {p : ProviderId} {keys : Interner String} {i : KeyIndex}
      (named : w.provider? name = .ok p) (meant : index = .number i ∧ keys = w.keys ∨
        ∃ of, index = .ofKey of ∧ w.keys.intern of = (keys, some i)) :
      Stocked w (.context (.hasNode name key index))
        ({ w with keys, providers := w.providers.set p ((w.providers.get p).lookup key i).1 }.reply
          (.flag ((w.providers.get p).lookup key i).2.isSome))
  | opened {as provider : String} {inputs : List (String × SourceExpr)} {pool : Option String}
      {sources : List (String × Source)} {p : ProviderId} {q : Pool} :
      Stocked w (.context (.create as inputs provider pool))
        (({ w with
            contexts := w.contexts.push { inputs := .ofList sources, provider := p, pool := q }
            providers := w.providers.modify p fun provider => { provider with shared := true } }.named
          fun n => { n with contexts := n.contexts.insert as w.contexts.size }).reply .nothing)

variable {w : World} {scope : Scope}

/-- Whatever else becomes of a context, it has the inputs and the pool that it was opened with. -/
theorem holdings_setContext {k : ContextId} {context : Context}
    (inputs : context.inputs = (w.context k).inputs) (pool : context.pool = (w.context k).pool) :
    (w.setContext k context).holdings = w.holdings := by
  have same {β : Type} (f : Context → β) (h : f context = f (w.context k)) :
      (fun j => f ((w.setContext k context).context j)) = fun j => f (w.context j) := by
    funext j
    show f ((w.contexts.set k context).get j) = _
    rw [Arena.get_set]
    split
    · next here => rw [h, ← here.1]
    · rfl
  simp only [holdings, backdrop, fixtures, same Context.inputs inputs, same Context.pool pool]
  rfl

theorem holdings_freeze (w : World) (k : ContextId) :
    (w.setContext k (w.context k).frozen).holdings = w.holdings :=
  holdings_setContext (Context.inputs_frozen _) (Context.pool_frozen _)

/-! ## Operations

Operations are many, and most leave all of this alone. So the few that do not are singled out first, with
what each of them does, and of all others it is said once that the holdings stay the same.
-/

/-- What holds of the answer that a name is unknown and of what is done with all that may be found. -/
theorem orUnknown_bind {P : Move → Prop} {α : Type} {x : Lookup α} {f : α → Lookup Move}
    (unknown : ∀ name, P (w.reply (.unknownName name))) (known : ∀ a, P ((f a).orUnknown w)) :
    P ((x >>= f).orUnknown w) := by
  cases x with
  | error name => exact unknown name
  | ok a => exact known a

theorem stocked_operate (w : World) (scope : Scope) {op : Op} (h : op.stocks = true) :
    Stocked w op (w.operate scope op) := by
  cases op with
  | pool op => cases op with
    | create as kind ambient =>
      exact orUnknown_bind (P := Stocked w _) (fun _ => .failed rfl) fun _ => .pooled
    | _ => cases h
  | context op => cases op with
    | createProvider => exact .provided
    | register name key body =>
      show Stocked w _ ((w.contextOp scope (.register name key body)).orUnknown w)
      dsimp only [contextOp]
      cases named : w.provider? name with
      | error unknown => exact .refused fun p hp => nomatch named.symm.trans hp
      | ok p =>
        simp only [bind, Except.bind]
        cases shared : (w.providers.get p).shared with
        | true =>
          refine .refused fun q hq => ?_
          cases named.symm.trans hq
          exact shared
        | false => exact .registered named shared
    | hasNode name key index =>
      show Stocked w _ ((w.contextOp scope (.hasNode name key index)).orUnknown w)
      dsimp only [contextOp]
      cases named : w.provider? name with
      | error unknown => exact .failed rfl
      | ok p => cases index with
        | number i => exact .asked named (.inl ⟨rfl, rfl⟩)
        | ofKey of =>
          simp only [bind, Except.bind, pure, Except.pure, Lookup.orUnknown, withIndexOf, withIndex]
          split
          · exact .failed rfl
          · next keys i interned => exact .asked named (.inr ⟨of, rfl, interned⟩)
    | create =>
      exact orUnknown_bind (P := Stocked w _) (fun _ => .failed rfl) fun _ =>
        orUnknown_bind (P := Stocked w _) (fun _ => .failed rfl) fun _ =>
          orUnknown_bind (P := Stocked w _) (fun _ => .failed rfl) fun _ => .opened
    | _ => cases h
  | _ => cases h

theorem holdings_bind {α : Type} {x : Lookup α} {f : α → Lookup Move}
    (known : ∀ a, ((f a).orUnknown w).holdings = w.holdings) :
    ((x >>= f).orUnknown w).holdings = w.holdings :=
  orUnknown_bind (P := fun mv => mv.holdings = w.holdings) (fun _ => rfl) known

theorem holdings_nameClaim (c : CellId) {again : Move} {name : Claim → Names → Names}
    (hagain : again.holdings = w.holdings)
    (hname : ∀ claim (v : World), (v.named (name claim)).holdings = v.holdings) :
    (nameClaim (w.tryClaim c) again name).holdings = w.holdings := by
  unfold tryClaim
  split
  · exact hagain
  · rfl
  · exact hname _ _

theorem holdings_waitBefore (w : World) (c : CellId) (how : Answering) :
    (w.waitBefore c how).holdings = w.holdings := by
  unfold waitBefore
  split <;> rfl

theorem holdings_block (w : World) (c : CellId) (limit : Option Duration) :
    (w.block c limit).holdings = w.holdings := by
  unfold block
  split
  · rfl
  · exact holdings_waitBefore w c _
  · split
    · exact holdings_waitBefore w.readClock c _
    · rfl

theorem holdings_withIndex (key : String) (next : World → KeyIndex → Move)
    (h : ∀ w index, (next w index).holdings = w.holdings) :
    (w.withIndex key next).holdings = w.holdings := by
  unfold withIndex
  split
  · rfl
  · exact h _ _

theorem holdings_cellOp {op : CellOp Script} (idle : (Op.cell op).attends = false) :
    ((w.cellOp scope op).orUnknown w).holdings = w.holdings := by
  cases op with
  | startWaiter | joinWaiter => cases idle
  | create | createOwned => rfl
  | claim cell token =>
    exact holdings_bind fun c => holdings_nameClaim c rfl fun _ _ => rfl
  | acquire cell claim =>
    exact holdings_bind fun c => holdings_nameClaim c rfl fun _ _ => rfl
  | setLabel cell text =>
    refine holdings_bind fun c => ?_
    cases (w.cell c).label <;> rfl
  | wait cell guarded =>
    refine holdings_bind fun c => ?_
    show Move.holdings (if _ then _ else _) = _
    split
    · rfl
    · exact holdings_block w c none
  | waitFor cell limit => exact holdings_bind fun c => holdings_block w c (some limit)
  | createRealized | state | render | listen | map | bind | label | realized | await =>
    exact holdings_bind fun _ => rfl
  | sameToken | complete | revoke | revokeTo | same =>
    exact holdings_bind fun _ => holdings_bind fun _ => rfl
  | completeWith | chain => exact holdings_bind fun _ => holdings_bind fun _ => holdings_bind fun _ => rfl

/-- Where threads start to wait, or are joined, nothing but who waits is changed. -/
theorem attended_operate {op : Op} (h : op.attends = true) :
    (w.operate scope op).world.stock = w.stock ∧ (w.operate scope op).backdrop = w.backdrop := by
  let Kept (mv : Move) : Prop := mv.world.stock = w.stock ∧ mv.backdrop = w.backdrop
  suffices Kept (w.operate scope op) from this
  cases op with
  | cell op => cases op with
    | startWaiter cell as =>
      refine orUnknown_bind (P := Kept) (fun _ => ⟨rfl, rfl⟩) fun c => ?_
      show Kept (Lookup.orUnknown w (if _ then _ else _))
      split
      · show Kept (waitBefore _ c .nothing)
        unfold waitBefore
        split <;> exact ⟨rfl, rfl⟩
      · exact ⟨rfl, rfl⟩
    | joinWaiter waiter =>
      show Kept ((w.cellOp scope (.joinWaiter waiter)).orUnknown w)
      simp only [cellOp]
      split
      · exact ⟨rfl, rfl⟩
      · split
        · exact ⟨rfl, rfl⟩
        · show Kept (pass _ _)
          unfold pass
          split <;> exact ⟨rfl, rfl⟩
    | _ => cases h
  | _ => cases h

theorem holdings_contextOp {op : ContextOp Script} (h : (Op.context op).stocks = false) :
    ((w.contextOp scope op).orUnknown w).holdings = w.holdings := by
  cases op with
  | createProvider | register | hasNode | create => cases h
  | intern key => exact holdings_withIndex key (fun w index => w.reply (.count index.toNat)) fun _ _ => rfl
  | interned => rfl
  | fetchAt context key index as =>
    refine holdings_bind fun k => ?_
    cases index with
    | ofKey of =>
      exact holdings_withIndex of
        (fun w index => w.call (.fetch k index key) [.answer (.nameFetched as)]) fun _ _ => rfl
    | number n => rfl
  | freeze context =>
    refine holdings_bind fun k => ?_
    cases hfreeze : (w.context k).freeze with
    | error e => rfl
    | ok frozen =>
      rw [Context.frozen_of_freeze hfreeze]
      dsimp only
      split <;> exact holdings_freeze w k
  | cancel => exact holdings_bind fun _ => holdings_bind fun _ => rfl
  | renderProvider | fetch | isFrozen | render | inputs => exact holdings_bind fun _ => rfl

/-- Most operations leave queues and providers alone. -/
theorem holdings_operate {op : Op} (h : op.stocks = false) (outside : op.enters = false)
    (idle : op.attends = false) : (w.operate scope op).holdings = w.holdings := by
  cases op with
  | cell op => exact holdings_cellOp idle
  | claim op => cases op with
    | complete | chain => exact holdings_bind fun _ => holdings_bind fun _ => rfl
    | _ => exact holdings_bind fun _ => rfl
  | fault op => cases op with
    | report => exact holdings_bind fun _ => rfl
    | _ => rfl
  | pool op => cases op with
    | create => cases h
    | scope => cases outside
    | lookupCurrent => rfl
    | createAmbient => exact holdings_bind fun _ => holdings_bind fun _ => rfl
    | _ => exact holdings_bind fun _ => rfl
  | context op => exact holdings_contextOp h
  | view op => cases op with
    | isOf =>
      refine holdings_bind fun c => holdings_bind fun k => ?_
      split <;> rfl
    | view | get =>
      refine holdings_bind fun c => ?_
      split <;> rfl
    | fail => exact holdings_bind fun _ => holdings_bind fun _ => rfl
    | yank | listen | bind => exact holdings_bind fun _ => rfl

/-! ## Calls

The same for the calls that are no operations, and for frames that are resumed.
-/

/-- Of the calls that are no operations, most leave queues and providers alone. -/
theorem holdings_invoke {c : Call} (noOp : ∀ op scope, c ≠ .op op scope) (h : c.stocks = false)
    (outside : c.enters = false) : (w.invoke c).holdings = w.holdings := by
  -- The calls that change what is held are excluded, and no branch of the others does.
  cases c with
  | op op scope => exact absurd rfl (noOp op scope)
  | dispatch | drain | work | fetch => cases h
  | script ops scope => cases ops <;> rfl
  | complete c o a =>
    simp only [invoke, complete]
    split
    · rfl
    · rfl
    · split <;> rfl
  | deliver ls revokee o => cases ls with
    | nil => cases revokee <;> rfl
    | cons => rfl
  | tell l o => cases l with
    | user => cases o <;> rfl
    | transform result onSuccess onError => cases o with
      | ok => rfl
      | error => cases onError <;> rfl
    | _ => rfl
  | subscribe c l =>
    simp only [invoke, subscribe]
    split
    · rfl
    · rfl
    · rfl
    · split <;> rfl
  | report e =>
    simp only [invoke, report]
    split <;> rfl
  | revoke c cause =>
    simp only [invoke, revoke]
    split <;> rfl
  | link c d =>
    simp only [invoke, link]
    split
    · rfl
    · rfl
    · split <;> rfl
  | settle c o token => cases token <;> rfl
  | forward target source token => cases source with
    | value => rfl
    | cell c =>
      simp only [invoke, forward]
      split <;> rfl
  | stage s o => cases s with
    | pure f =>
      simp only [invoke, stage]
      split <;> rfl
    | scripted => rfl
  | adopt result step => cases step <;> rfl
  | await cells k =>
    simp only [invoke, await]
    split
    · rfl
    · split <;> rfl
  | watch f cells => cases cells with
    | nil => rfl
    | cons c rest =>
      simp only [invoke, watch]
      split
      · rfl
      · split <;> rfl
  | signal f failure =>
    simp only [invoke, signal]
    split <;> rfl
  | conclude k failure => cases k with
    | user => cases failure <;> rfl
    | yank k => cases failure with
      | some => rfl
      | none =>
        simp only [invoke, conclude, succeedYank]
        split <;> exact holdings_freeze w k
  | job j => cases j with
    | user => rfl
    | node k target node =>
      simp only [invoke, job, tryClaim]
      split
      · rfl
      · next heq =>
          split at heq <;> cases heq
          rfl
      · next heq =>
          split at heq <;> cases heq
          rfl
  | fetchKey k key =>
    simp only [invoke, fetchKey]
    split <;> rfl
  | gather k pending keys found => cases pending <;> rfl
  | cancel k cause =>
    simp only [invoke, cancel]
    split <;> exact holdings_freeze w k
  | sweep ledger cause => cases ledger with
    | nil => rfl
    | cons e rest =>
      simp only [invoke, sweep]
      split <;> rfl
  | perform | performQueued => cases outside
  | notify | transform => rfl

theorem holdings_resume {frame : Frame} (h : frame.restores = false) (r : Result) :
    (w.resume frame r).holdings = w.holdings := by
  cases frame with
  | restoring | leaving => cases h
  | script op => cases r <;> rfl
  | answer how =>
    show (w.answer how r).holdings = w.holdings
    simp only [answer]
    split
    case h_9 c limit =>
      unfold pass
      split
      · split <;> rfl
      · split <;> rfl
    all_goals rfl
  | settling => cases r with
    | verdict v => cases v <;> rfl
    | _ => rfl
  | returning returned scope =>
    simp only [resume]
    split <;> rfl
  | adopting => cases r <;> rfl
  | accounting => cases r with
    | verdict v => rcases v with _ | b
                   · rfl
                   · cases b <;> rfl
    | _ => rfl
  | gathering => cases r <;> rfl
  | enriching k keys result cause =>
    simp only [resume, failYank]
    split <;> rfl
  | _ => rfl

/-! ## The stock

For the stock both cases are put together: either it stays as it is, or one of the calls is performed that
are known to change it.
-/

theorem stock_operate {op : Op} (h : op.stocks = false) :
    (w.operate scope op).world.stock = w.stock := by
  cases enters : op.enters with
  | false => cases attends : op.attends with
    | false => exact congrArg Prod.fst (holdings_operate h enters attends)
    | true => exact (attended_operate attends).1
  | true => cases op with
    | pool op => cases op with
      | scope => exact orUnknown_bind (P := fun mv => mv.world.stock = _) (fun _ => rfl) fun _ => rfl
      | _ => cases enters
    | _ => cases enters

theorem stock_invoke {c : Call} (h : c.stocks = false) : (w.invoke c).world.stock = w.stock := by
  by_cases hop : ∃ op scope, c = .op op scope
  · obtain ⟨op, scope, rfl⟩ := hop
    exact stock_operate h
  · cases enters : c.enters with
    | false =>
      exact congrArg Prod.fst (holdings_invoke (fun op scope h => hop ⟨op, scope, h⟩) h enters)
    | true => cases c with
      | op op scope => exact absurd ⟨op, scope, rfl⟩ hop
      | perform | performQueued => rfl
      | _ => cases enters

/-! ## Fixtures, the thread, and providers

The parts of the holdings, one by one, each with the calls that may change it. A call that is not among them
leaves the part alone.
-/

/-- Most operations leave open contexts, the names of pools and queues, and the thread alone. -/
theorem backdrop_operate {op : Op} (h : op.furnishes = false) (outside : op.enters = false) :
    (w.operate scope op).backdrop = w.backdrop := by
  cases stocks : op.stocks with
  | false => cases attends : op.attends with
    | false => exact congrArg (·.2.1) (holdings_operate stocks outside attends)
    | true => exact (attended_operate attends).2
  | true =>
    have stocked := stocked_operate w scope stocks
    generalize w.operate scope op = mv at stocked
    cases stocked with
    | pooled | opened => cases h
    | _ => rfl

theorem fixtures_operate {op : Op} (h : op.furnishes = false) :
    (w.operate scope op).world.fixtures = w.fixtures := by
  cases enters : op.enters with
  | false => exact congrArg Backdrop.fixtures (backdrop_operate h enters)
  | true => cases op with
    | pool op => cases op with
      | scope => exact orUnknown_bind (P := fun mv => mv.world.fixtures = _) (fun _ => rfl) fun _ => rfl
      | _ => cases enters
    | _ => cases enters

/-- Jobs are queued and taken out of queues without touching anything else. -/
theorem queueing_invoke {c : Call} (h : c.queues = true) :
    (w.invoke c).world.providers = w.providers ∧ (w.invoke c).backdrop = w.backdrop ∧
      (w.invoke c).world.names.waiters = w.names.waiters := by
  cases c with
  | dispatch pool job =>
    simp only [invoke, dispatch]
    split
    · exact ⟨rfl, rfl, rfl⟩
    · split <;> exact ⟨rfl, rfl, rfl⟩
    · exact ⟨rfl, rfl, rfl⟩
  | drain e limit order ran =>
    simp only [invoke, drain]
    split <;> exact ⟨rfl, rfl, rfl⟩
  | work =>
    simp only [invoke, work]
    split <;> exact ⟨rfl, rfl, rfl⟩
  | _ => cases h

/-- A first fetch, whatever it starts, changes slots and ledger only. -/
theorem backdrop_fetch (k : ContextId) (index : KeyIndex) (key : String) :
    (w.fetch k index key).backdrop = w.backdrop ∧
      (w.fetch k index key).world.names.waiters = w.names.waiters := by
  have registered (slots : SlotTable CellId) (ledger : AppendList (KeyIndex × CellId)) :
      ((w.addCell default).setContext k { w.context k with slots, ledger }).backdrop = w.backdrop := by
    have same : ((w.addCell default).setContext k { w.context k with slots, ledger }).holdings =
        w.holdings := holdings_setContext rfl rfl
    exact congrArg (·.2.1) same
  simp only [fetch]
  split
  · split
    · simp only [startCell]
      split
      · exact ⟨registered _ _, rfl⟩
      · split <;> exact ⟨registered _ _, rfl⟩
    · exact ⟨registered _ _, rfl⟩
  · exact ⟨rfl, rfl⟩

/-- Of the calls that are no operations, only those that begin jobs change any of this. -/
theorem backdrop_invoke {c : Call} (noOp : ∀ op scope, c ≠ .op op scope) (outside : c.enters = false) :
    (w.invoke c).backdrop = w.backdrop := by
  cases stocks : c.stocks with
  | false => exact congrArg (·.2.1) (holdings_invoke noOp stocks outside)
  | true => cases c with
    | op op scope => exact absurd rfl (noOp op scope)
    | dispatch | drain | work => exact (queueing_invoke rfl).2.1
    | fetch k index key => exact (backdrop_fetch k index key).1
    | _ => cases stocks

/-- Of the calls, only an operation changes the fixtures. -/
theorem fixtures_invoke {c : Call} (noOp : ∀ op scope, c ≠ .op op scope) :
    (w.invoke c).world.fixtures = w.fixtures := by
  cases enters : c.enters with
  | false => exact congrArg Backdrop.fixtures (backdrop_invoke noOp enters)
  | true => cases c with
    | op op scope => exact absurd rfl (noOp op scope)
    | perform | performQueued => rfl
    | _ => cases enters

/-- A call leaves the thread alone, and nothing behind that would put it back, unless it enters a scope or
begins a job. -/
theorem thread_invoke {c : Call} (outside : c.enters = false) :
    (w.invoke c).world.thread = w.thread ∧ (w.invoke c).frames.filter Frame.restores = [] := by
  have of_backdrop {mv : Move} (h : mv.backdrop = w.backdrop) :
      mv.world.thread = w.thread ∧ mv.frames.filter Frame.restores = [] :=
    ⟨congrArg Backdrop.thread h, congrArg Backdrop.guards h⟩
  by_cases hop : ∃ op scope, c = .op op scope
  · obtain ⟨op, scope, rfl⟩ := hop
    let Kept (mv : Move) : Prop := mv.world.thread = w.thread ∧ mv.frames.filter Frame.restores = []
    suffices Kept (w.operate scope op) from this
    cases furnishes : op.furnishes with
    | false => exact of_backdrop (backdrop_operate furnishes outside)
    | true =>
      have stocked := stocked_operate w scope (Op.stocks_of_furnishes furnishes)
      generalize w.operate scope op = mv at stocked
      cases stocked with
      | @pooled as kind => cases kind <;> exact ⟨rfl, rfl⟩
      | _ => exact ⟨rfl, rfl⟩
  · exact of_backdrop (backdrop_invoke (fun op scope h => hop ⟨op, scope, h⟩) outside)

/-- Only threads that start to wait, or are joined, change who waits. -/
theorem waiters_operate {op : Op} (idle : op.attends = false) :
    (w.operate scope op).world.names.waiters = w.names.waiters := by
  cases enters : op.enters with
  | true => cases op with
    | pool op => cases op with
      | scope =>
        exact orUnknown_bind (P := fun mv => mv.world.names.waiters = _) (fun _ => rfl) fun _ => rfl
      | _ => cases enters
    | _ => cases enters
  | false => cases stocks : op.stocks with
    | false => exact congrArg (·.2.2) (holdings_operate stocks enters idle)
    | true =>
      have stocked := stocked_operate w scope stocks
      generalize w.operate scope op = mv at stocked
      cases stocked with
      | @pooled as kind => cases kind <;> rfl
      | _ => rfl

theorem waiters_invoke {c : Call} (noOp : ∀ op scope, c ≠ .op op scope) :
    (w.invoke c).world.names.waiters = w.names.waiters := by
  cases enters : c.enters with
  | true => cases c with
    | op op scope => exact absurd rfl (noOp op scope)
    | perform | performQueued => rfl
    | _ => cases enters
  | false => cases stocks : c.stocks with
    | false => exact congrArg (·.2.2) (holdings_invoke noOp stocks enters)
    | true => cases c with
      | op op scope => exact absurd rfl (noOp op scope)
      | dispatch | drain | work => exact (queueing_invoke rfl).2.2
      | fetch k index key => exact (backdrop_fetch k index key).2
      | _ => cases stocks

/-- Of the calls, only operations and fetches change providers. -/
theorem providers_invoke {c : Call} (noOp : ∀ op scope, c ≠ .op op scope)
    (noFetch : ∀ k index key, c ≠ .fetch k index key) :
    (w.invoke c).world.providers = w.providers := by
  cases stocks : c.stocks with
  | false => exact congrArg Stock.providers (stock_invoke stocks)
  | true => cases c with
    | op op scope => exact absurd rfl (noOp op scope)
    | dispatch | drain | work => exact (queueing_invoke rfl).1
    | fetch k index key => exact absurd rfl (noFetch k index key)
    | _ => cases stocks

/-! ## Whole steps

A step invokes a call, or hands a result or a panic to a frame. Frames leave the stock and the fixtures
alone, so only the calls matter.
-/

/-- Frames leave the stock, the fixtures and the threads that wait alone, whether they take a result or a panic. -/
theorem kept_resume (frame : Frame) (r : Result) :
    (w.resume frame r).world.stock = w.stock ∧ (w.resume frame r).world.fixtures = w.fixtures ∧
      (w.resume frame r).world.names.waiters = w.names.waiters := by
  cases restores : frame.restores with
  | false =>
    have same : (w.resume frame r).holdings = w.holdings := holdings_resume restores r
    exact ⟨congrArg (·.1) same, congrArg (·.2.1.fixtures) same, congrArg (·.2.2) same⟩
  | true => cases frame with
    | restoring | leaving => exact ⟨rfl, rfl, rfl⟩
    | _ => cases restores

theorem kept_unwind (frame : Frame) (p : Panic) :
    (w.unwind frame p).world.stock = w.stock ∧ (w.unwind frame p).world.fixtures = w.fixtures ∧
      (w.unwind frame p).world.names.waiters = w.names.waiters := by
  cases frame <;> exact ⟨rfl, rfl, rfl⟩

end World

theorem Machine.kept_step {m : Machine} (ends : m.control.isCall = false) :
    m.step.world.stock = m.world.stock ∧ m.step.world.fixtures = m.world.fixtures ∧
      m.step.world.names.waiters = m.world.names.waiters := by
  obtain ⟨w, control, stack⟩ := m
  cases control with
  | call => cases ends
  | ret r => cases stack with
    | nil => exact ⟨rfl, rfl, rfl⟩
    | cons frame => exact World.kept_resume frame r
  | raise p => cases stack with
    | nil => exact ⟨rfl, rfl, rfl⟩
    | cons frame => exact World.kept_unwind frame p

theorem Machine.stock_step {m : Machine} (ends : m.control.isCall = false) :
    m.step.world.stock = m.world.stock := (kept_step ends).1

/-- A step changes the fixtures only if it performs an operation that makes a pool or opens a context. -/
theorem Machine.fixtures_step (m : Machine) : m.step.world.fixtures = m.world.fixtures ∨
    ∃ op scope, m.control = .call (.op op scope) ∧ op.furnishes = true := by
  cases ends : m.control.isCall with
  | false => exact .inl (kept_step ends).2.1
  | true =>
    obtain ⟨w, control, stack⟩ := m
    cases control with
    | ret | raise => cases ends
    | call c =>
      by_cases hop : ∃ op scope, c = .op op scope
      · obtain ⟨op, scope, rfl⟩ := hop
        cases furnishes : op.furnishes with
        | true => exact .inr ⟨op, scope, rfl, furnishes⟩
        | false => exact .inl (World.fixtures_operate furnishes)
      · exact .inl (World.fixtures_invoke fun op scope h => hop ⟨op, scope, h⟩)

/-- A step changes who waits only if it performs an operation that starts a thread or joins one. -/
theorem Machine.waiters_step (m : Machine) : m.step.world.names.waiters = m.world.names.waiters ∨
    ∃ op scope, m.control = .call (.op op scope) ∧ op.attends = true := by
  cases ends : m.control.isCall with
  | false => exact .inl (kept_step ends).2.2
  | true =>
    obtain ⟨w, control, stack⟩ := m
    cases control with
    | ret | raise => cases ends
    | call c =>
      by_cases hop : ∃ op scope, c = .op op scope
      · obtain ⟨op, scope, rfl⟩ := hop
        cases attends : op.attends with
        | true => exact .inr ⟨op, scope, rfl, attends⟩
        | false => exact .inl (World.waiters_operate attends)
      · exact .inl (World.waiters_invoke fun op scope h => hop ⟨op, scope, h⟩)

end RequestGraph
