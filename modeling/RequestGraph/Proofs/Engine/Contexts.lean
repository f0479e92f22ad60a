import RequestGraph.Proofs.Engine.Ending
import RequestGraph.Proofs.Engine.History
import RequestGraph.Proofs.Interner.Indices
import RequestGraph.Proofs.Ledger

/-!
# What one step does to the contexts

A step changes contexts and keys in few ways: it interns a key, opens a context, closes one, or puts a new
cell into the slot of an index. Nothing of it is ever undone, so the cell of a key is the same for good:

    w.Holds k key c   →   fetching the key in the context gives c, then and at any time later
-/

namespace RequestGraph

namespace World

/-- The interner and all contexts are as they should be. -/
structure TablesSound (w : World) : Prop where
  keys : w.keys.Sound
  contexts : ∀ k, (w.context k).Sound

/-- The cell of a key in a context. -/
def Holds (w : World) (k : ContextId) (key : String) (c : CellId) : Prop :=
  ∃ index : KeyIndex, w.keys.registry[index.toNat]? = some key ∧
    (w.context k).slots.lookup index.toUInt64 = some c

/-- A cell is what fetching a key in a context gives, which does not change any cell then. -/
def Finds (w : World) (k : ContextId) (key : String) (c : CellId) : Prop :=
  ∃ w', w.Performs (.fetchKey k key) w' (.ret (.cell c)) ∧ w'.cells = w.cells

/-- The cell that a context holds for a key is found in the slot of its index. -/
theorem Holds.finds {w : World} (h : w.TablesSound) {k : ContextId} {key : String} {c : CellId}
    (hc : w.Holds k key c) : w.Finds k key c := by
  obtain ⟨index, hkey, hslot⟩ := hc
  obtain ⟨hindex, -⟩ := h.keys.intern_of_registered (.of_getElem? hkey)
  have hkeys : w.keys.intern key = ((w.keys.intern key).1, some index) := by rw [← hindex]
  let w' : World := { w with keys := (w.keys.intern key).1 }
  have hfetchKey : w.invoke (.fetchKey k key) = w'.call (.fetch k index key) := by
    show w.fetchKey k key = _
    rw [fetchKey, hkeys]
  have hfetch : w'.invoke (.fetch k index key) = w'.ret (.cell c) := by
    have hslot' : (w'.context k).slots.lookup index.toUInt64 = some c := hslot
    show w'.fetch k index key = _
    simp only [fetch, SlotTable.getOrInsert, hslot']
    exact if_neg Bool.false_ne_true
  refine ⟨w', (performs_tail hfetchKey).mpr ?_, rfl⟩
  exact (performs_end hfetch rfl).mpr ⟨rfl, rfl⟩

/-- A key has one cell in a context. -/
theorem Finds.unique {w : World} {k : ContextId} {key : String} {c d : CellId}
    (hc : w.Finds k key c) (hd : w.Finds k key d) : c = d := by
  obtain ⟨_, hc, -⟩ := hc
  obtain ⟨_, hd, -⟩ := hd
  have := (hc.unique hd).2
  cases this
  rfl

/-- A key has one cell. -/
theorem Holds.unique {w : World} (h : w.TablesSound) {k : ContextId} {key : String} {c d : CellId}
    (hc : w.Holds k key c) (hd : w.Holds k key d) : c = d := (hc.finds h).unique (hd.finds h)

end World

namespace Machine

/-- What one step may do to the contexts and to the keys. -/
inductive ContextChange (m : Machine) : Arena Context → Interner String → Prop
  | kept : ContextChange m m.world.contexts m.world.keys
  | interned {key : String} : ContextChange m m.world.contexts (m.world.keys.intern key).1
  | resolved {key : String} : ContextChange m m.world.contexts (m.world.keys.index? key).1
  | opened {context : Context} (slots : context.slots = {}) (ledger : context.ledger = {}) :
      ContextChange m (m.world.contexts.push context) m.world.keys
  | froze {k : ContextId} :
      ContextChange m (m.world.contexts.set k (m.world.context k).frozen) m.world.keys
  | registered {k : ContextId} {index : KeyIndex} {key : String}
      (call : m.control = .call (.fetch k index key))
      (empty : (m.world.context k).slots.lookup index.toUInt64 = none) :
      ContextChange m
        (m.world.contexts.set k ((m.world.context k).registered index m.world.cells.size))
        m.world.keys

/-- Contexts and keys are part of the core. -/
theorem ContextChange.of_core {m : Machine} {w : World} {core : Core} (h : w.core = core)
    (hc : m.ContextChange core.contexts core.keys) : m.ContextChange w.contexts w.keys := by
  have hcontexts : w.contexts = core.contexts := congrArg Core.contexts h
  have hkeys : w.keys = core.keys := congrArg Core.keys h
  rw [hcontexts, hkeys]
  exact hc

/-- What operations do to contexts and keys. -/
theorem contexts_operate {m : Machine} {scope : Scope} {op : Op} {mv : Move}
    (h : Operated m.world scope op mv) : m.ContextChange mv.world.contexts mv.world.keys := by
  cases h with
  | answered core => exact .of_core core .kept
  | entered core => exact .of_core core .kept
  | presented core => exact .of_core core .kept
  | allocated _ core => exact .of_core core .kept
  | claimed _ _ core => exact .of_core core .kept
  | labelled core => exact .of_core core .kept
  | latched _ core => exact .of_core core .kept
  | interned core => exact .of_core core .interned
  | resolved core => exact .of_core core .resolved
  | fetching core => exact .of_core core .interned
  | opened slots ledger core => exact .of_core core (.opened slots ledger)
  | froze freeze _ core =>
      refine .of_core core ?_
      rw [Context.frozen_of_freeze freeze]
      exact .froze

/-- What calls do to contexts and keys. -/
theorem contexts_invoke {m : Machine} (h : m.world.Sound) (ht : m.world.TablesSound) {c : Call}
    (call : m.control = .call c) :
    m.ContextChange (m.world.invoke c).world.contexts (m.world.invoke c).world.keys := by
  have hspec := World.invoke_spec h c
  generalize m.world.invoke c = mv at hspec
  cases hspec with
  | operated hop => exact contexts_operate hop
  | @fetchedNew k index key installed ledger _ _ install new accepted _ core =>
      subst install
      refine .of_core core ?_
      have hledger : ledger = ((m.world.context k).ledger.push (index, m.world.cells.size)).1 := by
        rw [accepted]
      rw [hledger]
      exact .registered call (((ht.contexts k).won_iff _ _).mp new)
  | @fetchedLate k index key installed ledger _ install new rejected =>
      subst install
      have hledger : ledger = ((m.world.context k).ledger.push (index, m.world.cells.size)).1 := by
        rw [rejected]
      rw [hledger]
      exact .registered call (((ht.contexts k).won_iff _ _).mp new)
  | @interned k key keys index intern =>
      have hkeys : keys = (m.world.keys.intern key).1 := by rw [intern]
      rw [hkeys]
      exact .interned
  | nodeStarted _ _ core => exact .of_core core .kept
  | yankSucceeded => exact .froze
  | yankUnread => exact .froze
  | cancelled => exact .froze
  | cancelUnread => exact .froze
  | returned _ core | heard core | sunk _ core | joined core | performed core
  | performedQueued core | jobStarted core | drained core | worked core => exact .of_core core .kept
  | _ => exact .kept

/-- What one step does to the contexts and to the keys. -/
theorem step_contexts {m : Machine} (h : m.world.Sound) (ht : m.world.TablesSound) :
    m.ContextChange m.step.world.contexts m.step.world.keys := by
  obtain ⟨w, control, stack⟩ := m
  cases control with
  | call c => exact contexts_invoke h ht rfl
  | ret r => cases stack with
    | nil => exact .kept
    | cons frame stack => exact .of_core (World.core_resume w frame r) .kept
  | raise p => cases stack with
    | nil => exact .kept
    | cons frame stack => exact .of_core (World.core_unwind w frame p) .kept

/-! ## What one step does to one context

Contexts change when a key gets a cell, and when they are closed. Their slots are never emptied, and their
ledgers never lose an entry.
-/

/-- What the context of a number may be after one step. -/
inductive ContextBecomes (m : Machine) (k : ContextId) : Context → Prop
  | kept : ContextBecomes m k (m.world.context k)
  | opened {context : Context} (fresh : k = m.world.contexts.size) (slots : context.slots = {})
      (ledger : context.ledger = {}) : ContextBecomes m k context
  | froze : ContextBecomes m k (m.world.context k).frozen
  | registered {index : KeyIndex} {key : String} (call : m.control = .call (.fetch k index key))
      (empty : (m.world.context k).slots.lookup index.toUInt64 = none) :
      ContextBecomes m k ((m.world.context k).registered index m.world.cells.size)

/-- What a change of all contexts is for one of them. -/
theorem ContextChange.becomes {m : Machine} {contexts : Arena Context} {keys : Interner String}
    (h : m.ContextChange contexts keys) (k : ContextId) : m.ContextBecomes k (contexts.get k) := by
  cases h with
  | kept | interned | resolved => exact .kept
  | opened slots ledger =>
      rw [Arena.get_push]
      split
      · next hk => exact .opened hk slots ledger
      · exact .kept
  | froze =>
      rw [Arena.get_set]
      split
      · next hk =>
          obtain ⟨rfl, -⟩ := hk
          exact .froze
      · exact .kept
  | registered call empty =>
      rw [Arena.get_set]
      split
      · next hk =>
          obtain ⟨rfl, -⟩ := hk
          exact .registered call empty
      · exact .kept

/-- What one step does to one context. -/
theorem step_context {m : Machine} (h : m.world.Sound) (ht : m.world.TablesSound) (k : ContextId) :
    m.ContextBecomes k (m.step.world.context k) := (step_contexts h ht).becomes k

/-- Every change keeps a context sound. -/
theorem ContextBecomes.sound {m : Machine} {k : ContextId} {context : Context}
    (h : m.ContextBecomes k context) (hk : (m.world.context k).Sound) : context.Sound := by
  cases h with
  | kept => exact hk
  | opened _ slots ledger => exact Context.sound_blank slots ledger
  | froze => exact hk.frozen
  | registered _ empty => exact hk.registered empty

/-- A number that no context has yet. -/
theorem context_of_size_le {w : World} {k : ContextId} (h : w.contexts.size ≤ k) :
    w.context k = default := Arena.get_of_size_le w.contexts h

/-- A filled slot keeps its cell. -/
theorem ContextBecomes.lookup {m : Machine} {k : ContextId} {context : Context}
    (h : m.ContextBecomes k context) (hk : (m.world.context k).Sound) {i : UInt64} {c : CellId}
    (hc : (m.world.context k).slots.lookup i = some c) : context.slots.lookup i = some c := by
  cases h with
  | kept => exact hc
  | opened fresh =>
      rw [context_of_size_le (Nat.le_of_eq fresh.symm)] at hc
      have hnone : (default : Context).slots.lookup i = none := SlotTable.lookup_blank i
      rw [hnone] at hc
      cases hc
  | froze =>
      rw [Context.slots_frozen]
      exact hc
  | registered _ empty =>
      rw [hk.lookup_registered empty, if_neg, hc]
      rintro rfl
      rw [empty] at hc
      cases hc

/-- A closed context stays closed, and its ledger stays as it is. -/
theorem ContextBecomes.isFrozen {m : Machine} {k : ContextId} {context : Context}
    (h : m.ContextBecomes k context) (hk : (m.world.context k).Sound)
    (frozen : (m.world.context k).isFrozen = true) :
    context.isFrozen = true ∧ context.ledger.toList = (m.world.context k).ledger.toList := by
  cases h with
  | kept => exact ⟨frozen, rfl⟩
  | opened fresh =>
      rw [context_of_size_le (Nat.le_of_eq fresh.symm)] at frozen
      cases frozen
  | froze => exact ⟨hk.isFrozen_frozen, hk.toList_frozen⟩
  | registered _ empty =>
      rw [hk.isFrozen_registered, hk.toList_registered, if_pos frozen]
      exact ⟨frozen, rfl⟩

/-- Keys are only added, and keep their indices. -/
theorem ContextChange.keys {m : Machine} {contexts : Arena Context} {keys : Interner String}
    (h : m.ContextChange contexts keys) (hk : m.world.keys.Sound) :
    keys.Sound ∧ m.world.keys.registry <+: keys.registry := by
  cases h with
  | interned =>
      obtain ⟨hsound, hprefix, -⟩ := hk.intern_spec _
      exact ⟨hsound, hprefix⟩
  | resolved =>
      obtain ⟨hsound, hregistry, -⟩ := hk.index?_spec _
      exact ⟨hsound, hregistry ▸ List.prefix_refl _⟩
  | _ => exact ⟨hk, List.prefix_refl _⟩

/-- Every step keeps contexts and keys sound. -/
theorem step_tablesSound {m : Machine} (h : m.world.Sound) (ht : m.world.TablesSound) :
    m.step.world.TablesSound where
  keys := ((step_contexts h ht).keys ht.keys).1
  contexts k := (step_context h ht k).sound (ht.contexts k)

/-- Contexts are never taken away. -/
theorem size_contexts_step {m : Machine} (h : m.world.Sound) (ht : m.world.TablesSound) :
    m.world.contexts.size ≤ m.step.world.contexts.size := by
  have hchange := step_contexts h ht
  generalize m.step.world.contexts = contexts, m.step.world.keys = keys at hchange
  cases hchange with
  | opened =>
      rw [Arena.size_push]
      exact Nat.le_succ _
  | froze => rw [Arena.size_set]
  | registered => rw [Arena.size_set]
  | _ => exact Nat.le_refl _

/-- A key keeps its index. -/
theorem step_registry {m : Machine} (h : m.world.Sound) (ht : m.world.TablesSound) {i : ℕ}
    {key : String} (hkey : m.world.keys.registry[i]? = some key) :
    m.step.world.keys.registry[i]? = some key := by
  obtain ⟨-, rest, hrest⟩ := (step_contexts h ht).keys ht.keys
  rw [← hrest, List.getElem?_append_left (List.getElem?_eq_some_iff.mp hkey).1, hkey]

/-- The cell of a key stays the same. -/
theorem step_holds {m : Machine} (h : m.world.Sound) (ht : m.world.TablesSound) {k : ContextId}
    {key : String} {c : CellId} (hc : m.world.Holds k key c) : m.step.world.Holds k key c := by
  obtain ⟨index, hkey, hslot⟩ := hc
  exact ⟨index, step_registry h ht hkey, (step_context h ht k).lookup (ht.contexts k) hslot⟩

/-! ## Runs

What one step keeps, a run keeps.
-/

/-- Any number of steps keeps cells, contexts and keys sound. -/
theorem iterate_sound {m : Machine} (h : m.world.Sound) (ht : m.world.TablesSound) (n : ℕ) :
    (m.iterate n).world.Sound ∧ (m.iterate n).world.TablesSound := by
  induction n generalizing m with
  | zero => exact ⟨h, ht⟩
  | succ n ih => exact ih (step_sound h) (step_tablesSound h ht)

/-- Whatever every step keeps, a run keeps. -/
theorem iterate_kept {P : World → Prop} {m : Machine} (h : m.world.Sound)
    (ht : m.world.TablesSound) (hP : P m.world)
    (step : ∀ {x : Machine}, x.world.Sound → x.world.TablesSound → P x.world → P x.step.world)
    (n : ℕ) : P (m.iterate n).world := by
  induction n generalizing m with
  | zero => exact hP
  | succ n ih => exact ih (step_sound h) (step_tablesSound h ht) (step h ht hP)

end Machine

namespace World

variable {w w' : World} {c : Call} {e : Control}

/-- Whole calls keep cells, contexts and keys sound. -/
theorem Performs.sound (h : w.Performs c w' e) (sound : w.Sound) (tables : w.TablesSound) :
    w'.Sound ∧ w'.TablesSound := by
  obtain ⟨-, n, hn⟩ := h
  have := Machine.iterate_sound (m := ⟨w, .call c, []⟩) sound tables n
  rwa [hn] at this

/-- Whatever every step keeps, a call keeps. -/
theorem Performs.kept {P : World → Prop} (h : w.Performs c w' e) (sound : w.Sound)
    (tables : w.TablesSound) (hP : P w)
    (step : ∀ {x : Machine}, x.world.Sound → x.world.TablesSound → P x.world → P x.step.world) :
    P w' := by
  obtain ⟨-, n, hn⟩ := h
  have := Machine.iterate_kept (m := ⟨w, .call c, []⟩) sound tables hP step n
  rwa [hn] at this

/-- A context keeps the cells that it holds during a call. -/
theorem Performs.holds (h : w.Performs c w' e) (sound : w.Sound) (tables : w.TablesSound)
    {k : ContextId} {key : String} {d : CellId} (hd : w.Holds k key d) : w'.Holds k key d :=
  h.kept (P := fun w => w.Holds k key d) sound tables hd fun hs ht hd => Machine.step_holds hs ht hd

end World

/-! ## Whole runs -/

/-- In the beginning no slot of any context is filled. -/
theorem World.lookup_start (capacity : Nat) (clock : Clock) (k : ContextId) (index : UInt64) :
    ((World.start capacity clock).context k).slots.lookup index = none := SlotTable.lookup_blank _

namespace History

variable {capacity : Nat} {m : Machine} {past : List Machine}

/-- Contexts and keys are sound along every history. -/
theorem tablesSound (h : History capacity m past) : m.world.TablesSound := by
  induction h with
  | start => exact ⟨Interner.sound_withCapacity _ _, fun _ => Context.sound_blank rfl rfl⟩
  | step before _ ih => exact Machine.step_tablesSound before.sound ih
  | enter _ _ _ _ _ ih => exact ⟨ih.keys, ih.contexts⟩

/-- Whatever a step keeps holds from then on, if it depends neither on the thread nor on the log. -/
theorem kept {P : World → Prop} (h : History capacity m past) {x : Machine} (hx : x ∈ past)
    (hP : P x.world)
    (step : ∀ {x : Machine}, x.world.Sound → x.world.TablesSound → P x.world → P x.step.world)
    (enter : ∀ {w : World} (thread : Thread) (log : List Event), P w → P { w with thread, log }) :
    P m.world :=
  h.persists (List.mem_cons_of_mem _ hx) hP
    (fun before _ hP => step before.sound before.tablesSound hP) enter

end History

end RequestGraph
