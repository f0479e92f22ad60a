import RequestGraph.Proofs.Request.Asking

/-!
# Asking properly

Whoever asks a context for the cell of a key, or a provider for its node, does so *properly* with a context
that is there and the index that the interner gave the key. As long as everybody does, what providers
remember is what their nodes say, and a key is answered as if there were no memo:

    (w.provider k).lookup key index  =  (w.provider k).nodes.get? key
-/

namespace RequestGraph

/-- Whether a call asks for a key properly, if it asks for one. -/
def Call.isProper (w : World) : Call → Bool
  | .fetchKey k _ => k < w.contexts.size
  | .fetch k index key => k < w.contexts.size && w.keys.registry[index.toNat]? == some key
  | .op (.context (.hasNode _ key (.ofKey of))) _ => of == key
  | .op (.context (.hasNode _ key (.number index))) _ =>
    w.keys.registry[index.toNat]? == some key
  | _ => true

/-- Whether the next call asks for a key properly, if it asks for one. -/
def Machine.asksProperly (m : Machine) : Bool :=
  match m.control with
  | .call c => c.isProper m.world
  | _ => true

/-- The world after a provider was asked for the node of a key. -/
def World.consulting (w : World) (p : ProviderId) (key : String) (index : KeyIndex) : World :=
  { w with providers := w.providers.set p ((w.providers.get p).lookup key index).1 }

/-- What the providers remember is what their nodes say. -/
def World.Remembers (w : World) : Prop := ∀ p, (w.providers.get p).Faithful w.keys.registry

namespace Provider

variable {ν : Type}

theorem memo_ofList (nodes : List (String × ν)) : (ofList nodes).memo = {} := by
  suffices ∀ p : Provider ν, p.memo = {} →
      (nodes.foldl (fun p e => p.insert e.1 e.2) p).memo = {} from this {} rfl
  induction nodes with
  | nil => exact fun _ h => h
  | cons e rest ih => exact fun p _ => ih (p.insert e.1 e.2) rfl

theorem Faithful.share {p : Provider ν} {registry : List String} (h : p.Faithful registry) :
    { p with shared := true }.Faithful registry := ⟨h.sound, h.answers⟩

end Provider

namespace World

variable {w w' : World} {k : ContextId} {index : KeyIndex} {key : String} {p : ProviderId}

theorem Remembers.congr (h : w.Remembers) (providers : w'.providers = w.providers)
    (keeps : ∀ {i : ℕ} {key : String}, w.keys.registry[i]? = some key →
      w'.keys.registry[i]? = some key) : w'.Remembers := by
  intro p
  rw [providers]
  exact (h p).mono keeps

/-- Looking up a key with its own index, or putting in place a provider that remembers nothing. -/
theorem Remembers.set (h : w.Remembers) {provider : Provider Node}
    (faithful : provider.Faithful w.keys.registry) (w' : World) (keys : w'.keys = w.keys)
    (providers : w'.providers = w.providers.set p provider) : w'.Remembers := by
  intro p
  rw [providers, keys, Arena.get_set]
  split
  · exact faithful
  · exact h p

theorem Remembers.intern (h : w.Remembers) (sound : w.keys.Sound) (key : String) :
    { w with keys := (w.keys.intern key).1 }.Remembers :=
  h.congr rfl (sound.getElem?_intern key)

/-- A new cell of a context is started by asking its provider, if at all. -/
theorem Remembers.startCell (h : w.Remembers) (hkey : w.keys.registry[index.toNat]? = some key)
    (c : CellId) : (w.startCell k index key c).world.Remembers := by
  unfold World.startCell
  split
  · exact h
  · have hset : (w.looking k key index).Remembers :=
      h.set ((h (w.context k).provider).fst_lookup hkey) _ rfl rfl
    simp only
    split <;> exact hset

theorem Remembers.fetch (h : w.Remembers) (hkey : w.keys.registry[index.toNat]? = some key) :
    (w.invoke (.fetch k index key)).world.Remembers := by
  show (w.fetch k index key).world.Remembers
  simp only [World.fetch]
  split
  · split
    · refine Remembers.startCell (w := (w.addCell default).setContext k _) ?_ hkey _
      exact h
    · exact h
  · exact h

/-- An operation that asks properly leaves providers right. -/
theorem Remembers.operate (h : w.Remembers) (sound : w.keys.Sound) {scope : Scope} {op : Op}
    (stocks : op.stocks = true) (proper : (Call.op op scope).isProper w = true) :
    (w.operate scope op).world.Remembers := by
  have stocked := stocked_operate w scope stocks
  generalize w.operate scope op = mv at stocked
  cases stocked with
  | failed | refused => exact h
  | @pooled as kind => cases kind <;> exact h
  | provided =>
    intro p
    show (Arena.get (w.providers.push _) p).Faithful _
    rw [Arena.get_push]
    split
    · exact Provider.faithful_blank (Provider.memo_ofList _) _
    · exact h p
  | registered => exact h.set (Provider.faithful_blank rfl _) _ rfl rfl
  | @asked name key index p keys i named meant =>
    rcases meant with ⟨rfl, rfl⟩ | ⟨of, rfl, interned⟩
    · exact h.set ((h p).fst_lookup (beq_iff_eq.mp proper)) (w.consulting p key i) rfl rfl
    · obtain rfl : of = key := beq_iff_eq.mp proper
      have hintern := sound.getElem?_of_intern of
      have hinterned := h.intern sound of
      rw [interned] at hintern hinterned
      exact hinterned.set ((hinterned p).fst_lookup (hintern i rfl))
        ({ w with keys }.consulting p of i) rfl rfl
  | @opened as provider inputs pool sources p =>
    intro q
    show (Arena.get (w.providers.modify p _) q).Faithful w.keys.registry
    rw [Arena.get_modify]
    split
    · exact (h q).share
    · exact h q

theorem Remembers.invoke (h : w.Remembers) (sound : w.Sound) (tables : w.TablesSound) {c : Call}
    (proper : c.isProper w = true) : (w.invoke c).world.Remembers := by
  have keeps {i : ℕ} {key : String} (hkey : w.keys.registry[i]? = some key) :
      (w.invoke c).world.keys.registry[i]? = some key :=
    Machine.step_registry (m := ⟨w, .call c, []⟩) sound tables hkey
  -- Of all calls only fetches and some operations change a provider.
  by_cases hop : ∃ op scope, c = .op op scope
  · obtain ⟨op, scope, rfl⟩ := hop
    cases stocks : op.stocks with
    | false => exact h.congr (congrArg Stock.providers (stock_operate stocks)) keeps
    | true => exact h.operate tables.keys stocks proper
  · by_cases hfetch : ∃ k index key, c = .fetch k index key
    · obtain ⟨k, index, key, rfl⟩ := hfetch
      simp only [Call.isProper, Bool.and_eq_true, beq_iff_eq] at proper
      exact h.fetch proper.2
    · exact h.congr (providers_invoke (fun op scope heq => hop ⟨op, scope, heq⟩)
        fun k index key heq => hfetch ⟨k, index, key, heq⟩) keeps

end World

namespace Machine

variable {m : Machine}

/-- One step leaves providers right if it asks properly. -/
theorem step_remembers (h : m.world.Remembers) (sound : m.world.Sound)
    (tables : m.world.TablesSound) (proper : m.asksProperly = true) :
    m.step.world.Remembers := by
  have keeps {i : ℕ} {key : String} (hkey : m.world.keys.registry[i]? = some key) :
      m.step.world.keys.registry[i]? = some key := step_registry sound tables hkey
  have kept (ends : m.control.isCall = false) : m.step.world.Remembers :=
    h.congr (congrArg Stock.providers (stock_step ends)) keeps
  obtain ⟨w, control, stack⟩ := m
  cases control with
  | call c => exact h.invoke sound tables proper
  | ret | raise => exact kept rfl

end Machine

namespace History

variable {capacity : Nat} {m : Machine} {past : List Machine}

/-- As long as everybody has asked properly, providers are right. -/
theorem remembers (h : History capacity m past) (proper : ∀ x ∈ past, x.asksProperly = true) :
    m.world.Remembers := by
  induction h with
  | start => exact fun p => Provider.faithful_blank rfl _
  | step before _ ih =>
      refine Machine.step_remembers ?_ before.sound before.tablesSound (proper _ List.mem_cons_self)
      exact ih fun x hx => proper x (List.mem_cons_of_mem _ hx)
  | enter _ _ _ _ _ ih =>
      exact ih fun x hx => proper x (List.mem_cons_of_mem _ hx)

end History

end RequestGraph
