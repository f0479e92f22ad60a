import RequestGraph.Context
import RequestGraph.Proofs.AppendList.Reading
import RequestGraph.Proofs.SlotTable.Lookup

/-!
# The ledger of a context

A context offers a cell to its ledger when the cell is put into its slot, so there are no more offers than
slots, and the counters of a ledger that was closed do not run over. Therefore a closed ledger can always be
read, and what it then gives is what was accepted:

    c.frozen.ledger.read?  =  some c.ledger.toList
-/

namespace RequestGraph

namespace AppendList

/-- As long as its counters do not run over, a list takes items, or turns them away. -/
def Holds {α : Type} (l : AppendList α) (offers : ℕ) : Prop :=
  l.IsOpen ∨ l.IsShut (maxCapacity + 1 + offers)

/-- A bound on the offers may be enlarged. -/
theorem Holds.mono {α : Type} {l : AppendList α} {m n : ℕ} (h : l.Holds m) (hmn : m ≤ n) :
    l.Holds n := by
  rcases h with h | h
  · exact .inl h
  · exact .inr (h.mono (Nat.add_le_add_left hmn _))

/-- What becomes of an item that is offered. -/
theorem Holds.push_eq {α : Type} {l : AppendList α} {n : ℕ} (h : l.Holds n) (hn : n ≤ 2 ^ 32)
    (a : α) : (l.push a).1.Holds (n + 1) ∧ (l.push a).1.frozen = l.frozen ∧
      (l.push a).2 = (if l.frozen then .rejected a else .accepted) ∧
      (l.push a).1.toList = (if l.frozen then l.toList else l.toList ++ [a]) := by
  rcases h with h | h
  · obtain ⟨haccepted, hopen, hitems⟩ := h.push_eq a
    rw [h.not_frozen]
    exact ⟨.inl hopen, hopen.not_frozen, haccepted, hitems⟩
  · have hn' : maxCapacity + 1 + n < 2 ^ 63 - 1 := by
      unfold maxCapacity
      omega
    obtain ⟨hrejected, hshut, hitems⟩ := h.push_eq hn' a
    rw [h.frozen]
    exact ⟨.inr hshut, hshut.frozen, hrejected, hitems⟩

end AppendList

namespace Context

/-- What holds of every context: its slots and its ledger are as they should be, and an entry of the ledger
is the cell in the slot of its index. -/
structure Sound (c : Context) : Prop where
  slots : c.slots.Sound
  ledger : c.ledger.Holds c.slots.filled
  agree : ∀ e ∈ c.ledger.toList, c.slots.lookup e.1.toUInt64 = some e.2

/-- A context that has just been opened is sound: nothing is in its slots and its ledger. -/
theorem sound_blank {c : Context} (slots : c.slots = {}) (ledger : c.ledger = {}) : c.Sound where
  slots := slots ▸ SlotTable.sound_blank
  ledger := ledger ▸ .inl .blank
  agree e he := by
    rw [ledger, AppendList.toList_blank] at he
    cases he

/-! ## Closing

Closing never fails on a sound context that is open, and it never fails to find its ledger readable
afterwards. So `frozen` is a plain function here, and what it leaves alone can be said once.
-/

/-- Closing that succeeds is what `frozen` computes. -/
theorem frozen_of_freeze {c c' : Context} (h : c.freeze = .ok c') : c' = c.frozen := by
  rw [frozen, h]

/-- A context that is closed is not closed again. -/
theorem freeze_of_isFrozen {c : Context} (h : c.isFrozen = true) :
    c.freeze = .error .alreadyFrozen := by
  have h : c.ledger.frozen = true := h
  simp only [freeze, AppendList.freeze, h, if_true]

/-- A closed context is not closed again. -/
theorem frozen_of_isFrozen {c : Context} (h : c.isFrozen = true) : c.frozen = c := by
  rw [frozen, freeze_of_isFrozen h]

/-- An open context is closed. -/
theorem Sound.freeze_of_open {c : Context} (h : c.Sound) (unfrozen : c.isFrozen = false) :
    c.freeze = .ok c.frozen := by
  have unfrozen : c.ledger.frozen = false := unfrozen
  rcases h.ledger with hopen | hshut
  · obtain ⟨ledger, hfreeze, -, -⟩ := hopen.freeze_eq
    simp only [frozen, freeze, hfreeze]
  · exact nomatch hshut.frozen.symm.trans unfrozen

/-- Closing a context changes its ledger at most. -/
theorem frozen_eq (c : Context) : ∃ ledger, c.frozen = { c with ledger } := by
  unfold frozen freeze
  cases c.ledger.freeze with
  | ok ledger => exact ⟨ledger, rfl⟩
  | error e => cases e; exact ⟨c.ledger, rfl⟩

@[simp] theorem slots_frozen (c : Context) : c.frozen.slots = c.slots := by
  obtain ⟨ledger, h⟩ := c.frozen_eq
  rw [h]

@[simp] theorem inputs_frozen (c : Context) : c.frozen.inputs = c.inputs := by
  obtain ⟨ledger, h⟩ := c.frozen_eq
  rw [h]

@[simp] theorem pool_frozen (c : Context) : c.frozen.pool = c.pool := by
  obtain ⟨ledger, h⟩ := c.frozen_eq
  rw [h]

/-- Closing shuts the ledger and keeps what was accepted. -/
theorem Sound.frozen_spec {c : Context} (h : c.Sound) :
    c.frozen.ledger.IsShut (AppendList.maxCapacity + 1 + c.slots.filled) ∧
      c.frozen.ledger.toList = c.ledger.toList := by
  rcases h.ledger with hopen | hshut
  · obtain ⟨ledger, hfreeze, hshut, hitems⟩ := hopen.freeze_eq
    have hfrozen : c.frozen = { c with ledger } := by
      simp only [Context.frozen, Context.freeze, hfreeze]
    rw [hfrozen]
    exact ⟨hshut.mono (Nat.le_add_right _ _), hitems⟩
  · have hfrozen : c.frozen = c := by
      simp only [Context.frozen, Context.freeze, AppendList.freeze, hshut.frozen, if_true]
    rw [hfrozen]
    exact ⟨hshut, rfl⟩

theorem Sound.toList_frozen {c : Context} (h : c.Sound) :
    c.frozen.ledger.toList = c.ledger.toList := h.frozen_spec.2

/-- A context that was closed is closed. -/
theorem Sound.isFrozen_frozen {c : Context} (h : c.Sound) : c.frozen.isFrozen = true :=
  h.frozen_spec.1.frozen

/-- Closing keeps a context sound. -/
theorem Sound.frozen {c : Context} (h : c.Sound) : c.frozen.Sound where
  slots := by
    rw [slots_frozen]
    exact h.slots
  ledger := by
    rw [slots_frozen]
    exact .inr h.frozen_spec.1
  agree e he := by
    rw [h.toList_frozen] at he
    rw [slots_frozen]
    exact h.agree e he

/-- A closed ledger can be read. -/
theorem Sound.read?_of_isFrozen {c : Context} (h : c.Sound) (frozen : c.isFrozen = true) :
    c.ledger.read? = some c.ledger.toList := by
  rcases h.ledger with hopen | hshut
  · exact nomatch hopen.not_frozen.symm.trans frozen
  · exact hshut.read?

/-- The ledger can be read as soon as it is closed, and it gives all that was accepted. -/
theorem Sound.read?_frozen {c : Context} (h : c.Sound) :
    c.frozen.ledger.read? = some c.ledger.toList := by
  rw [h.frozen.read?_of_isFrozen h.isFrozen_frozen, h.toList_frozen]

/-! ## Putting a cell into its slot

A slot is filled at most once, while the ledger may turn the cell away. The two are therefore changed
together here, in the one case in which anything changes at all.
-/

section Registering

variable {c : Context} {index : KeyIndex} {fresh : CellId}

/-- The context after a cell was put into an empty slot and offered to the ledger. -/
def registered (c : Context) (index : KeyIndex) (fresh : CellId) : Context :=
  { c with
    slots := (c.slots.getOrInsert index.toUInt64 fresh).table
    ledger := (c.ledger.push (index, fresh)).1 }

/-- The index of a key is a word of 32 bits, so its slot has an address. -/
theorem toNat_toUInt64_lt (index : KeyIndex) : index.toUInt64.toNat < 2 ^ 32 := by
  rw [UInt32.toNat_toUInt64]
  exact index.toNat_lt

/-- The index of a key can be addressed. -/
theorem addressable (index : KeyIndex) : (Location.of index.toUInt64).addressable = true :=
  Location.addressable_of_lt (toNat_toUInt64_lt index)

/-- A cell goes into a slot if and only if nothing is there. -/
theorem Sound.won_iff (h : c.Sound) (index : KeyIndex) (fresh : CellId) :
    (c.slots.getOrInsert index.toUInt64 fresh).won = true ↔
      c.slots.lookup index.toUInt64 = none := by
  obtain ⟨-, hwon, -, -⟩ := SlotTable.getOrInsert_eq h.slots (addressable index) fresh
  rw [hwon, Option.isNone_iff_eq_none]

/-- Afterwards the cell is in its slot, and the other slots are as before. -/
theorem Sound.lookup_registered (h : c.Sound) (empty : c.slots.lookup index.toUInt64 = none)
    (fresh : CellId) (j : UInt64) : (c.registered index fresh).slots.lookup j =
      if index.toUInt64 = j then some fresh else c.slots.lookup j := by
  obtain ⟨-, -, -, hlookup⟩ := SlotTable.getOrInsert_eq h.slots (addressable index) fresh
  show (c.slots.getOrInsert index.toUInt64 fresh).table.lookup j = _
  rw [hlookup, empty]
  rfl

/-- The ledger takes the cell, unless it is closed. -/
theorem Sound.toList_registered (h : c.Sound) : (c.registered index fresh).ledger.toList =
    if c.isFrozen then c.ledger.toList else c.ledger.toList ++ [(index, fresh)] :=
  (h.ledger.push_eq c.slots.filled_le _).2.2.2

theorem Sound.isFrozen_registered (h : c.Sound) :
    (c.registered index fresh).isFrozen = c.isFrozen :=
  (h.ledger.push_eq c.slots.filled_le _).2.1

/-- Putting a cell into an empty slot keeps a context sound. -/
theorem Sound.registered (h : c.Sound) (empty : c.slots.lookup index.toUInt64 = none) :
    (c.registered index fresh).Sound := by
  obtain ⟨-, -, hslots, -⟩ := SlotTable.getOrInsert_eq h.slots (addressable index) fresh
  have hlookup := h.lookup_registered empty fresh
  refine ⟨hslots, ?_, ?_⟩
  · exact (h.ledger.push_eq c.slots.filled_le _).1.mono
      (SlotTable.filled_lt (toNat_toUInt64_lt index) empty hlookup)
  · intro e he
    rw [hlookup]
    have hmem : e ∈ c.ledger.toList ∨ e = (index, fresh) := by
      rw [h.toList_registered] at he
      split at he
      · exact .inl he
      · exact (List.mem_append.mp he).imp_right List.mem_singleton.mp
    rcases hmem with hmem | rfl
    · -- An older entry has another index, whose slot was filled.
      rw [if_neg, h.agree e hmem]
      intro heq
      have hagree := h.agree e hmem
      rw [← heq, empty] at hagree
      cases hagree
    · exact if_pos rfl

end Registering

end Context

end RequestGraph
