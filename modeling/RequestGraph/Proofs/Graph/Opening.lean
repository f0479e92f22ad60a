import RequestGraph.Proofs.Graph.Schedule
import RequestGraph.Proofs.Request.Providers

/-!
# Opening a graph

Any graph can be evaluated: a provider takes the nodes, and a context takes the inputs, the provider and a pool
that runs nodes at once or queues them. Such a context is *opened* for the graph as long as nobody has asked it
for anything.
-/

namespace RequestGraph

/-- Of pairs that are made of keys, a map has those that are made. -/
theorem OrderedMap.get?_ofList_filterMap {K V : Type} [DecidableEq K] (keys : List K)
    (value : K → Option V) (x : K) :
    (ofList (keys.filterMap fun y => (value y).map (y, ·))).get? x =
      if x ∈ keys then value x else none := by
  suffices ∀ m : OrderedMap K V, ((keys.filterMap fun y => (value y).map (y, ·)).foldl
      (fun m e => m.insert e.1 e.2) m).get? x =
        if x ∈ keys then (value x).or (m.get? x) else m.get? x by
    refine (this {}).trans ?_
    have hnone : (({} : OrderedMap K V)).get? x = none := rfl
    rw [hnone, Option.or_none]
  induction keys with
  | nil => exact fun m => rfl
  | cons y ys ih =>
      intro m
      cases hy : value y with
      | none =>
          rw [List.filterMap_cons_none (by rw [hy]; rfl), ih]
          by_cases hxy : x = y
          · subst hxy
            simp [hy]
          · simp [hxy]
      | some v =>
          rw [List.filterMap_cons_some (by rw [hy]; rfl), List.foldl_cons, ih, get?_insert]
          by_cases hxy : x = y
          · subst hxy
            simp [hy]
          · simp [hxy, Ne.symm hxy]

namespace Graph

variable (g : Graph)

/-- The nodes of a graph, by key. -/
def nodes : List (String × Script) := g.rules.keys.filterMap fun x => (g.rule x).body?.map (x, ·)

/-- The inputs of a graph, by key. -/
def inputs : List (String × SourceExpr) :=
  g.rules.keys.filterMap fun x => (g.rule x).input?.map fun n => (x, .value (.constant n))

/-- What the inputs of a graph stand for. -/
def sources : List (String × Source) :=
  g.rules.keys.filterMap fun x => ((g.rule x).input?.map Source.value).map (x, ·)

variable {g} {x : String}

/-- What is not among the keys of a graph is absent. -/
theorem rule_of_not_mem (h : x ∉ g.rules.keys) : g.rule x = .absent := by
  rw [rule]
  cases hx : g.rules.get? x with
  | none => rfl
  | some rule =>
      exact absurd (List.mem_map_of_mem (f := Prod.fst) (OrderedMap.mem_of_find hx)) h

/-- The provider has the nodes of a graph. -/
theorem get?_nodes : (Provider.ofList (g.nodes.map fun (key, body) =>
    (key, ({ key, body } : Node)))).nodes.get? x = (g.rule x).body?.map (Node.mk x) := by
  have hnodes : g.nodes.map (fun (key, body) => (key, ({ key, body } : Node))) =
      g.rules.keys.filterMap fun y => ((g.rule y).body?.map (Node.mk y)).map (y, ·) := by
    rw [nodes, List.map_filterMap]
    congr 1
    funext y
    cases (g.rule y).body? <;> rfl
  rw [Provider.nodes_ofList, hnodes, OrderedMap.get?_ofList_filterMap]
  split
  · rfl
  · next hx =>
      rw [rule_of_not_mem hx]
      rfl

/-- The context has the inputs of a graph. -/
theorem get?_sources : (OrderedMap.ofList g.sources).get? x =
    (g.rule x).input?.map Source.value := by
  rw [sources, OrderedMap.get?_ofList_filterMap]
  split
  · rfl
  · next hx =>
      rw [rule_of_not_mem hx]
      rfl

/-- The inputs of a graph are numbers, so no name has to be looked up. -/
theorem inputs?_inputs (w : World) (scope : Scope) : w.inputs? scope g.inputs = .ok g.sources := by
  rw [inputs, sources]
  induction g.rules.keys with
  | nil => rfl
  | cons y ys ih =>
      cases hy : (g.rule y).input? with
      | none =>
          rw [List.filterMap_cons_none (by rw [hy]; rfl), List.filterMap_cons_none (by rw [hy]; rfl)]
          exact ih
      | some n =>
          rw [List.filterMap_cons_some (by rw [hy]; rfl), List.filterMap_cons_some (by rw [hy]; rfl)]
          rw [World.inputs?] at ih
          rw [World.inputs?, List.mapM_cons, ih]
          rfl

/-- A context works with the inputs and the nodes of a graph, and nobody has asked it for anything. -/
structure Opened (g : Graph) (requested : List String) (w : World) (k : ContextId) : Prop where
  there : k < w.contexts.size
  unfrozen : (w.context k).isFrozen = false
  untouched : ∀ index : KeyIndex, (w.context k).slots.lookup index.toUInt64 = none
  inputs : ∀ x, (w.context k).inputs.get? x = (g.rule x).input?.map Source.value
  nodes : ∀ x, (g.rule x).input? = none →
    (w.provider k).nodes.get? x = (g.rule x).body?.map (Node.mk x)
  /-- The provider may have been asked before, if what it remembers is what its nodes say. -/
  faithful : (w.provider k).Faithful w.keys.registry
  room : (w.keys.registry.toFinset ∪ g.reached requested).card ≤ Interner.maxKeys
  /-- Nodes run at once or are queued; the worker is another thread. -/
  runs : (w.context k).pool.strategy ≠ .worker
  idle : ∀ e, (w.context k).pool.strategy = .executor e →
    e < w.executors.size ∧ w.executors.get e = []

end Graph

namespace World

variable {w : World}

/-- The world with a new context, whose provider takes no more nodes. -/
def withContext (w : World) (as : String) (context : Context) : World := { w with
  contexts := w.contexts.push context
  providers := w.providers.modify context.provider fun provider => { provider with shared := true }
  names := { w.names with contexts := w.names.contexts.insert as w.contexts.size } }

/-- The context that was made is the one that was asked for. -/
theorem context_withContext (w : World) (as : String) (context : Context) :
    (w.withContext as context).context w.contexts.size = context := Arena.get_push_size _ _

/-- The provider that is used is marked as shared. -/
theorem provider_withContext (as : String) {context : Context}
    (there : context.provider < w.providers.size) :
    (w.withContext as context).provider w.contexts.size =
      { w.providers.get context.provider with shared := true } := by
  rw [provider, context_withContext]
  exact Arena.get_modify_self _ _ there

/-- Opening a request makes its context, if provider, pool and inputs are known. -/
theorem invoke_create {scope : Scope} {as provider pool : String}
    {inputs : List (String × SourceExpr)} {sources : List (String × Source)} {p : ProviderId} {q : Pool}
    (hinputs : w.inputs? scope inputs = .ok sources) (hprovider : w.provider? provider = .ok p)
    (hpool : w.pool? pool = .ok q) :
    w.invoke (.op (.context (.create as inputs provider (some pool))) scope) =
      (w.withContext as { inputs := .ofList sources, provider := p, pool := q }).reply .nothing := by
  have hpool : w.poolOrInline? (some pool) = .ok q := hpool
  show (w.contextOp scope _).orUnknown w = _
  simp only [contextOp, hinputs, hprovider, hpool]
  rfl

/-- A new pool that is not the worker runs jobs at once, or queues them with an executor of its own. -/
theorem makePool_spec (as : String) {kind : PoolKind} (hkind : kind ≠ .worker) :
    ∃ q, (w.makePool as kind {}).pool? as = .ok q ∧ q.strategy ≠ .worker ∧
      ∀ e, q.strategy = .executor e → e < (w.makePool as kind {}).executors.size ∧
        (w.makePool as kind {}).executors.get e = [] := by
  cases kind with
  | inline =>
      refine ⟨⟨.inline, {}⟩, ?_, Strategy.noConfusion, fun e => Strategy.noConfusion⟩
      simp [makePool, namePool, named, pool?, Lookup.ofMap]
  | queue =>
      refine ⟨⟨.executor w.executors.size, {}⟩, ?_, Strategy.noConfusion, ?_⟩
      · simp [makePool, namePool, named, pool?, Lookup.ofMap]
      · rintro e ⟨⟩
        show _ < (w.executors.push []).size ∧ (w.executors.push []).get _ = []
        rw [Arena.size_push, Arena.get_push_size]
        exact ⟨Nat.lt_succ_self _, rfl⟩
  | worker => exact absurd rfl hkind

end World

namespace History

variable {capacity : ℕ} {m : Machine} {past : List Machine} {g : Graph} {requested : List String}

/-- An operation from the outside that answers at once. -/
theorem answers_at_once (h : History capacity m past) (rest : m.atRest = true) (op : Op) {w : World}
    {r : Reply} (invoke : ({ m.world with thread := {}, log := [] } : World).invoke (.op op {}) =
      w.reply r) : ∃ past', History capacity ⟨w, .ret (.reply r), []⟩ past' := by
  have hstep := (h.enter rest {} [] (.operate op)).step rfl
  rw [Machine.step_call rfl, invoke] at hstep
  exact ⟨_, hstep⟩

/-- Every graph can be opened, with any local pool. -/
theorem opens (h : History capacity m past) (rest : m.atRest = true) (g : Graph) (kind : PoolKind)
    (hkind : kind ≠ .worker)
    (room : (m.world.keys.registry.toFinset ∪ g.reached requested).card ≤ Interner.maxKeys) :
    ∃ m' past', History capacity m' past' ∧ m'.atRest = true ∧
      g.Opened requested m'.world m.world.contexts.size := by
  let provider := Provider.ofList (g.nodes.map fun (key, body) => (key, ({ key, body } : Node)))
  let w₁ : World := { m.world with
    thread := {}, log := []
    providers := m.world.providers.push provider
    names := { m.world.names with
      providers := m.world.names.providers.insert "nodes" m.world.providers.size } }
  obtain ⟨_, provided⟩ :=
    h.answers_at_once rest (.context (.createProvider "nodes" g.nodes)) (w := w₁) rfl
  let w₂ : World := w₁.makePool "pool" kind {}
  obtain ⟨_, pooled⟩ :=
    provided.answers_at_once rfl (.pool (.create "pool" kind none)) (w := w₂) rfl
  have hsame : ({ w₂ with thread := {}, log := [] } : World) = w₂ := by cases kind <;> rfl
  -- The three operations have made a provider, a pool and a context, each after those that were there.
  have hcontexts : w₂.contexts = m.world.contexts := by cases kind <;> rfl
  have hproviders : w₂.providers = m.world.providers.push provider := by cases kind <;> rfl
  have hkeys : w₂.keys = m.world.keys := by cases kind <;> rfl
  have hnamed : w₂.provider? "nodes" = .ok m.world.providers.size := by
    have hnames : w₂.names.providers = w₁.names.providers := by cases kind <;> rfl
    rw [World.provider?, hnames]
    simp [w₁, Lookup.ofMap]
  obtain ⟨q, hpool, runs, idle⟩ := w₁.makePool_spec "pool" hkind
  let context : Context :=
    { inputs := .ofList g.sources, provider := m.world.providers.size, pool := q }
  obtain ⟨_, opened⟩ := pooled.answers_at_once rfl
    (.context (.create "graph" g.inputs "nodes" (some "pool"))) (w := w₂.withContext "graph" context)
    ((congrArg (fun w : World => w.invoke _) hsame).trans
      (World.invoke_create (Graph.inputs?_inputs w₂ {}) hnamed hpool))
  have hcontext : (w₂.withContext "graph" context).context m.world.contexts.size = context := by
    rw [← hcontexts, World.context_withContext]
  have hprovider : (w₂.withContext "graph" context).provider m.world.contexts.size =
      { provider with shared := true } := by
    have there : context.provider < w₂.providers.size := by
      rw [hproviders, Arena.size_push]
      exact Nat.lt_succ_self _
    rw [← hcontexts, World.provider_withContext "graph" there, hproviders, Arena.get_push_size]
  refine ⟨_, _, opened, rfl, ?_⟩
  constructor
  case there =>
    show _ < (w₂.contexts.push context).size
    rw [hcontexts, Arena.size_push]
    exact Nat.lt_succ_self _
  case unfrozen =>
    rw [hcontext]
    rfl
  case untouched =>
    rw [hcontext]
    exact fun index => SlotTable.lookup_blank _
  case inputs =>
    rw [hcontext]
    exact fun x => Graph.get?_sources
  case nodes =>
    rw [hprovider]
    exact fun x _ => Graph.get?_nodes
  case faithful =>
    rw [hprovider]
    exact (Provider.faithful_blank (Provider.memo_ofList _) _).share
  case room =>
    show (w₂.keys.registry.toFinset ∪ _).card ≤ _
    rw [hkeys]
    exact room
  case runs =>
    rw [hcontext]
    exact runs
  case idle =>
    rw [hcontext]
    exact idle

end History

end RequestGraph
