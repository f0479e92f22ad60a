import RequestGraph.Proofs.OrderedMap
import RequestGraph.Proofs.Request.Memoizing

/-!
# What providers answer

The memo of a provider never shows. Whatever is registered and looked up, by whomever and in whatever order, as
long as every key is looked up with the index that the interner gave it, each look-up is answered with the
node that was last registered under its key, or with nothing if there is none:

    answers of a provider  =  answers of a plain list of what was registered, newest first

So neither a miss nor a node is remembered beyond the next registration, and no key is answered for another.
-/

namespace RequestGraph

namespace OrderedMap

variable {K V : Type} [DecidableEq K] {k : K}

theorem find_append (xs ys : List (K × V)) :
    find k (xs ++ ys) = (find k xs).or (find k ys) := by
  induction xs with
  | nil => rfl
  | cons x xs ih =>
    rw [List.cons_append, find, find, ih]
    split <;> rfl

/-- Of the pairs that are put into a map, the last one of a key counts. -/
theorem get?_foldl_insert_reverse (es : List (K × V)) (m : OrderedMap K V) :
    (es.foldl (fun m e => m.insert e.1 e.2) m).get? k = (find k es.reverse).or (m.get? k) := by
  induction es generalizing m with
  | nil => rfl
  | cons e es ih =>
    rw [List.foldl_cons, ih, List.reverse_cons, find_append, get?_insert, Option.or_assoc]
    congr 1
    rw [find]
    split <;> rfl

end OrderedMap

/-! ## Any sequence of requests

First without runs: any registrations and look-ups, one after another. The memo is faithful to begin with,
and every request keeps it so.
-/

namespace Provider

variable {ν : Type} {t : Interner String} {p : Provider ν} {inserted : List (String × ν)}

/-- What a provider, and the interner of those who ask it, may be asked for. -/
inductive Request (ν : Type) where
  /-- Registers a node, in place of any other under its key. -/
  | insert (key : String) (node : ν)
  /-- Asks the interner for the index of a key, which is new or not. -/
  | intern (key : String)
  /-- Looks up the node of a key with an index. -/
  | lookup (key : String) (index : KeyIndex)

/-- Every look-up comes with the index that the interner has given to its key by then. -/
def Proper (t : Interner String) : List (Request ν) → Prop
  | [] => True
  | .insert _ _ :: rest => Proper t rest
  | .intern key :: rest => Proper (t.intern key).1 rest
  | .lookup key index :: rest => t.key? index = some key ∧ Proper t rest

/-- What a provider answers to the look-ups among some requests. -/
def answers (p : Provider ν) : List (Request ν) → List (Option ν)
  | [] => []
  | .insert key node :: rest => (p.insert key node).answers rest
  | .intern _ :: rest => p.answers rest
  | .lookup key index :: rest => (p.lookup key index).2 :: (p.lookup key index).1.answers rest

/-- What a list of all that was registered, newest first, answers to the same look-ups. -/
def plainAnswers (inserted : List (String × ν)) : List (Request ν) → List (Option ν)
  | [] => []
  | .insert key node :: rest => plainAnswers ((key, node) :: inserted) rest
  | .intern _ :: rest => plainAnswers inserted rest
  | .lookup key _ :: rest => OrderedMap.find key inserted :: plainAnswers inserted rest

/-- A provider whose memo is right answers as if it had none. -/
theorem Faithful.answers_eq {requests : List (Request ν)} (h : p.Faithful t.registry)
    (sound : t.Sound) (nodes : ∀ key, p.nodes.get? key = OrderedMap.find key inserted)
    (proper : Proper t requests) : p.answers requests = plainAnswers inserted requests := by
  induction requests generalizing t p inserted with
  | nil => rfl
  | cons r rest ih => cases r with
    | insert key node =>
      refine ih (Provider.faithful_blank rfl _) sound (fun other => ?_) proper
      -- The new node comes first in the list, and takes the place of any other in the map.
      rw [insert, OrderedMap.get?_insert, OrderedMap.find, nodes]
    | intern key =>
      exact ih (h.mono (sound.getElem?_intern key)) (sound.intern_spec key).1 nodes proper
    | lookup key index =>
      obtain ⟨hkey, proper⟩ := proper
      rw [sound.key?_eq] at hkey
      have hnode := (h.snd_lookup hkey).trans (nodes key)
      rw [Provider.answers, plainAnswers, hnode, ih (h.fst_lookup hkey) sound nodes proper]

end Provider

/-! ## The providers of a run

Then for the providers of a run, whose requests come from scripts and from fetches. What has been registered
with a provider is read off the steps.
-/

namespace Machine

/-- What the next step registers with a provider, the newest first. -/
def provides (x : Machine) (p : ProviderId) : List (String × Node) :=
  match x.control with
  | .call (.op (.context (.createProvider _ nodes)) _) =>
    if x.world.providers.size = p then (nodes.map fun (key, body) => (key, ⟨key, body⟩)).reverse
    else []
  | .call (.op (.context (.register name key body)) _) =>
    match x.world.provider? name with
    | .ok q =>
      if q = p ∧ p < x.world.providers.size ∧ (x.world.providers.get p).shared = false then
        [(key, ⟨key, body⟩)]
      else []
    | .error _ => []
  | _ => []

/-- The node that was last registered with a provider under a key, in the course of a run. -/
def latest (past : List Machine) (p : ProviderId) (key : String) : Option Node :=
  OrderedMap.find key (past.flatMap (·.provides p))

/-- Providers answer as if they remembered nothing, at the end of a run. -/
structure AnswersPlainly (past : List Machine) (m : Machine) : Prop where
  /-- Whatever a provider is asked from now on, by anybody, is answered from what was registered with it. -/
  requests : ∀ p (requests : List (Provider.Request Node)), Provider.Proper m.world.keys requests →
    (m.world.providers.get p).answers requests =
      Provider.plainAnswers (past.flatMap (·.provides p)) requests
  /-- The first fetch of a key in an open context without an input for it dispatches the latest node, or fails
  the cell if there is none. -/
  fetches : ∀ k index key, m.FetchesFirst k index key → (m.world.context k).isFrozen = false →
    (m.world.context k).inputs.get? key = none →
      m.step.control = match latest past (m.world.context k).provider key with
        | some node => .call (.dispatch (m.world.context k).pool (.node k m.world.cells.size node))
        | none =>
          .call (.complete m.world.cells.size (.error (.unknownNode (Text.quoted key))) .unowned)
  /-- Asking whether there is a node finds the latest one, unless there is no index left for the key. -/
  finds : ∀ name key index scope p,
    m.control = .call (.op (.context (.hasNode name key index)) scope) →
      m.world.provider? name = .ok p →
        m.step.control = .ret (.reply (.flag (latest past p key).isSome)) ∨
          (m.world.keys.intern key).2 = none ∧ m.step.control = .raise (.broken .indexLeft)

end Machine

namespace World

variable {w : World} {p : ProviderId} {key : String}

/-- A move after which a provider has the nodes that it had before, and some that come before them. -/
def Provides (w : World) (p : ProviderId) (key : String) (new : List (String × Node)) (mv : Move) :
    Prop :=
  (mv.world.providers.get p).nodes.get? key =
    (OrderedMap.find key new).or ((w.providers.get p).nodes.get? key)

theorem provides_none {mv : Move}
    (nodes : ∀ q, (mv.world.providers.get q).nodes = (w.providers.get q).nodes) : w.Provides p key [] mv := by
  rw [Provides, nodes]
  rfl

theorem provides_of_providers {mv : Move} (providers : mv.world.providers = w.providers) :
    w.Provides p key [] mv := provides_none fun q => by rw [providers]

/-- Remembering an answer does not change the nodes. -/
theorem provides_consulting {mv : Move} {q : ProviderId} {other : String} {index : KeyIndex}
    (providers : mv.world.providers =
      w.providers.set q ((w.providers.get q).lookup other index).1) : w.Provides p key [] mv := by
  refine provides_none fun r => ?_
  rw [providers, Arena.get_set]
  split
  · next here => rw [← here.1]; rfl
  · rfl

theorem provides_provided {scope : Scope} {as : String} {nodes : List (String × Script)} {mv : Move}
    (providers : mv.world.providers =
      w.providers.push (.ofList (nodes.map fun (key, body) => (key, ⟨key, body⟩)))) :
    w.Provides p key
      (Machine.provides ⟨w, .call (.op (.context (.createProvider as nodes)) scope), []⟩ p) mv := by
  rw [Provides, providers, Arena.get_push]
  by_cases new : p = w.providers.size
  · have blank : (w.providers.get p).nodes.get? key = none := by
      rw [Arena.get_of_size_le _ (Nat.le_of_eq new.symm)]
      rfl
    rw [if_pos new, Machine.provides]
    dsimp only
    rw [if_pos new.symm, blank, Provider.nodes_ofList, OrderedMap.ofList,
      OrderedMap.get?_foldl_insert_reverse]
    rfl
  · rw [if_neg new, Machine.provides]
    dsimp only
    rw [if_neg fun h => new h.symm]
    rfl

theorem provides_registered {scope : Scope} {name other : String} {body : Script} {mv : Move} {q : ProviderId}
    (named : w.provider? name = .ok q) (free : (w.providers.get q).shared = false)
    (providers : mv.world.providers =
      w.providers.set q ((w.providers.get q).insert other ⟨other, body⟩)) :
    w.Provides p key
      (Machine.provides ⟨w, .call (.op (.context (.register name other body)) scope), []⟩ p) mv := by
  rw [Provides, providers, Arena.get_set, Machine.provides]
  simp only [named]
  by_cases here : q = p ∧ q < w.providers.size
  · obtain ⟨rfl, there⟩ := here
    rw [if_pos ⟨rfl, there⟩, if_pos ⟨rfl, there, free⟩, Provider.insert, OrderedMap.get?_insert,
      OrderedMap.find]
    split <;> rfl
  · rw [if_neg here, if_neg]
    · rfl
    · rintro ⟨rfl, there, -⟩
      exact here ⟨rfl, there⟩

theorem provides_operate {scope : Scope} {op : Op} :
    w.Provides p key (Machine.provides ⟨w, .call (.op op scope), []⟩ p) (w.operate scope op) := by
  have idle {op : Op} (none : op.supplies = false) :
      Machine.provides ⟨w, .call (.op op scope), []⟩ p = [] := by
    unfold Machine.provides
    split
    · next heq => cases heq; cases none
    · next heq => cases heq; cases none
    · rfl
  -- Only operations with pools, providers and contexts touch the providers at all.
  cases stocks : op.stocks with
  | false =>
    rw [idle (Op.not_supplies_of_not_stocks stocks)]
    exact provides_of_providers (congrArg Stock.providers (stock_operate stocks))
  | true =>
    have stocked := stocked_operate w scope stocks
    generalize w.operate scope op = mv at stocked
    cases stocked with
    | failed none =>
      rw [idle none]
      exact provides_of_providers rfl
    | @pooled as kind =>
      rw [idle rfl]
      cases kind <;> exact provides_of_providers rfl
    | provided => exact provides_provided rfl
    | @refused name other body e taken =>
      have nothing : Machine.provides ⟨w, .call (.op (.context (.register name other body)) scope), []⟩ p =
          [] := by
        dsimp only [Machine.provides]
        split
        · next q named =>
          rw [if_neg]
          rintro ⟨rfl, -, free⟩
          exact nomatch free.symm.trans (taken q named)
        · rfl
      rw [nothing]
      exact provides_of_providers rfl
    | registered named free => exact provides_registered named free rfl
    | asked =>
      rw [idle rfl]
      exact provides_consulting rfl
    | @opened as provider inputs pool sources q =>
      rw [idle rfl]
      refine provides_none fun r => ?_
      show (Arena.get (w.providers.modify q _) r).nodes = _
      rw [Arena.get_modify]
      split <;> rfl

theorem provides_fetch {k : ContextId} {index : KeyIndex} {other : String} :
    w.Provides p key [] (w.fetch k index other) := by
  simp only [fetch]
  split
  · split
    · simp only [startCell]
      split
      · exact provides_of_providers rfl
      · split <;> exact provides_consulting rfl
    · exact provides_of_providers rfl
  · exact provides_of_providers rfl

end World

namespace Machine

variable {m : Machine} {p : ProviderId} {key : String}

/-- A step gives a provider the nodes that it registers. -/
theorem provides_step (m : Machine) (p : ProviderId) (key : String) :
    (m.step.world.providers.get p).nodes.get? key =
      (OrderedMap.find key (m.provides p)).or ((m.world.providers.get p).nodes.get? key) := by
  have keeps {m : Machine} (ends : m.control.isCall = false) :
      (m.step.world.providers.get p).nodes.get? key = (m.world.providers.get p).nodes.get? key :=
    congrArg (fun stock : Stock => (stock.providers.get p).nodes.get? key) (stock_step ends)
  obtain ⟨w, control, stack⟩ := m
  cases control with
  | ret | raise => exact keeps rfl
  | call c => cases c with
    | op op scope => exact World.provides_operate
    | fetch k index other => exact World.provides_fetch
    | _ => exact World.provides_of_providers (World.providers_invoke nofun nofun)

end Machine

namespace History

variable {capacity : ℕ} {m : Machine} {past : List Machine}

/-- A provider has the nodes that were registered with it, and of each key the latest. -/
theorem nodes_eq (h : History capacity m past) (p : ProviderId) (key : String) :
    (m.world.providers.get p).nodes.get? key = Machine.latest past p key := by
  induction h with
  | start => rfl
  | @step m past before busy ih =>
    rw [Machine.provides_step, ih, Machine.latest, Machine.latest, List.flatMap_cons,
      OrderedMap.find_append]
  | @enter m past before rest thread log c outside ih =>
    have nothing : m.provides p = [] := by
      unfold Machine.provides
      split
      · next call => cases rest.symm.trans (Machine.busy_of_call call)
      · next call => cases rest.symm.trans (Machine.busy_of_call call)
      · rfl
    rw [Machine.latest, List.flatMap_cons, nothing]
    exact ih

section Proper

variable (h : History capacity m past) (proper : ∀ x ∈ past, x.asksProperly = true)
include h proper

/-- A first fetch starts the latest node. -/
theorem control_of_fetch (now : m.asksProperly = true) {k : ContextId} {index : KeyIndex}
    {key : String} (first : m.FetchesFirst k index key)
    (unfrozen : (m.world.context k).isFrozen = false)
    (input : (m.world.context k).inputs.get? key = none) :
    m.step.control = match Machine.latest past (m.world.context k).provider key with
      | some node => .call (.dispatch (m.world.context k).pool (.node k m.world.cells.size node))
      | none =>
        .call (.complete m.world.cells.size (.error (.unknownNode (Text.quoted key))) .unowned) := by
  obtain ⟨there, hkey⟩ := Machine.proper_of_fetch now first.call
  have faithful : (m.world.provider k).Faithful m.world.keys.registry := h.remembers proper _
  have nodes : (m.world.provider k).nodes.get? key = _ := h.nodes_eq (m.world.context k).provider key
  rw [Machine.step_call first.call]
  cases hlatest : Machine.latest past (m.world.context k).provider key with
  | some node =>
    rw [World.fetch_of_node h.tablesSound there first.empty unfrozen input faithful hkey
      (nodes.trans hlatest)]
    rfl
  | none =>
    rw [World.fetch_of_unknown h.tablesSound there first.empty unfrozen input faithful hkey
      (nodes.trans hlatest)]
    rfl

/-- Asking for a node finds the latest. -/
theorem control_of_hasNode (now : m.asksProperly = true) {name key : String} {index : IndexExpr}
    {scope : Scope} {p : ProviderId}
    (call : m.control = .call (.op (.context (.hasNode name key index)) scope))
    (named : m.world.provider? name = .ok p) :
    m.step.control = .ret (.reply (.flag (Machine.latest past p key).isSome)) ∨
      (m.world.keys.intern key).2 = none ∧ m.step.control = .raise (.broken .indexLeft) := by
  have faithful := h.remembers proper p
  rw [Machine.asksProperly, call] at now
  rw [Machine.step_call call]
  show ((m.world.contextOp scope (.hasNode name key index)).orUnknown m.world).control = _ ∨
    _ ∧ ((m.world.contextOp scope (.hasNode name key index)).orUnknown m.world).control = _
  simp only [World.contextOp, named, bind, Except.bind, pure, Except.pure, Lookup.orUnknown]
  cases index with
  | number index =>
    have hkey : m.world.keys.registry[index.toNat]? = some key := beq_iff_eq.mp now
    have answer := (faithful.snd_lookup hkey).trans (h.nodes_eq p key)
    left
    rw [← answer]
    rfl
  -- The key is interned first. That keeps all other indices, so the memory of the provider stays right.
  | ofKey of =>
    obtain rfl : of = key := beq_iff_eq.mp now
    have sound := h.tablesSound.keys
    have hintern := sound.getElem?_of_intern of
    simp only [World.withIndexOf, World.withIndex]
    split
    · next heq => exact .inr ⟨by rw [heq], rfl⟩
    · next keys index heq =>
      rw [heq] at hintern
      have faithful : (m.world.providers.get p).Faithful keys.registry :=
        faithful.mono fun hkey => by
          have := sound.getElem?_intern of hkey
          rwa [heq] at this
      have answer := (faithful.snd_lookup (hintern index rfl)).trans (h.nodes_eq p of)
      left
      rw [← answer]
      rfl

/-- **The memo of a provider never shows.** As long as every key is looked up with the index that the interner
gave it, a provider answers every look-up with the node that was last registered under the key, or with nothing
if there is none: those of contexts, of whichever kind and number, and those in any sequence of registrations
and look-ups that is still to come. -/
theorem answers_plainly (now : m.asksProperly = true) : m.AnswersPlainly past where
  requests p _ requests :=
    (h.remembers proper p).answers_eq h.tablesSound.keys (h.nodes_eq p) requests
  fetches _ _ _ first unfrozen input := h.control_of_fetch proper now first unfrozen input
  finds _ _ _ _ _ call named := h.control_of_hasNode proper now call named

end Proper

end History

/-- A run in which a key is found missing before its node is registered, and another one's node is replaced
after it was found. -/
theorem answers_plainly_of_replaced : ∃ m past, History 8 m past ∧
    (∀ x ∈ past, x.asksProperly = true) ∧ m.asksProperly = true ∧
      (past.flatMap (·.provides 0)).map Prod.fst = ["a", "b", "a"] ∧ m.AnswersPlainly past := by
  have empty : History 8 _ _ := .start
  have provided := (empty.enter rfl {} []
    (.operate (.context (.createProvider "p" [("a", [])])))).step rfl
  have missed := (provided.enter rfl {} []
    (.operate (.context (.hasNode "p" "b" (.ofKey "b"))))).step rfl
  have found := (missed.enter (by decide +kernel) {} []
    (.operate (.context (.hasNode "p" "a" (.ofKey "a"))))).step rfl
  have added := (found.enter (by decide +kernel) {} [] (.operate (.context (.register "p" "b" [])))).step rfl
  have replaced := (added.enter (by decide +kernel) {} []
    (.operate (.context (.register "p" "a" [.context (.freeze none)])))).step rfl
  have again := replaced.enter (by decide +kernel) {} [] (.operate (.context (.hasNode "p" "b" (.number 0))))
  refine ⟨_, _, again, ?proper, ?now, ?_, again.answers_plainly ?proper ?now⟩
  all_goals decide +kernel

end RequestGraph
