import Mathlib.Data.List.Nodup
import RequestGraph.Interner.Basic
import RequestGraph.Proofs.SlotTable.Lookup

/-!
# The indices of keys

The registry decides which index a key has, and the cache only answers faster: whatever it holds, an entry
is believed only if the table of keys confirms it. So asking for an index gives the position of the key in
the registry, a new key goes to the end of it, and no key ever gets another index.

    (intern t k).2 = some i   →   IsIndex (intern t k).1.registry i k

Which keys are the same is for the type of keys to say. A key that equals only itself is also the one that
lies at its index.
-/

namespace RequestGraph.Interner

/-- Positions below the limit fit into an index. -/
theorem toNat_ofNat_of_lt_maxKeys {n : Nat} (h : n < maxKeys) :
    (UInt32.ofNat n).toNat = n := by
  rw [UInt32.toNat_ofNat']
  apply Nat.mod_eq_of_lt
  unfold maxKeys at h
  omega

variable {K : Type} [BEq K] {t : Interner K} {keys : List K} {key : K}

/-! ## Keys in a list

The equality of keys is an equivalence, and may be coarser than being the same. So `idxOf?` finds a key that
is equal to the one asked for.
-/

/-- No two keys of a list are equal. -/
def Distinct (keys : List K) : Prop := keys.Pairwise fun a b => (a == b) = false

/-- No key of a list equals a key. -/
def Lacks (keys : List K) (key : K) : Prop := ∀ own ∈ keys, (own == key) = false

/-- What lies at an index in a list equals a key. -/
def IsIndex (keys : List K) (index : KeyIndex) (key : K) : Prop :=
  ∃ own, keys[index.toNat]? = some own ∧ own == key

/-- A key that is lacking may be appended. -/
theorem Distinct.concat (distinct : Distinct keys) (new : Lacks keys key) : Distinct (keys ++ [key]) := by
  refine List.pairwise_append.mpr ⟨distinct, List.pairwise_singleton _ _, fun own hown other hother => ?_⟩
  rw [List.mem_singleton.mp hother]
  exact new own hown

/-- Of two positions with equal keys, neither is before the other. -/
theorem Distinct.not_lt (distinct : Distinct keys) {i j : ℕ} {a b : K} (hi : keys[i]? = some a)
    (hj : keys[j]? = some b) (same : a == b) : ¬ i < j := by
  intro hlt
  obtain ⟨hilt, rfl⟩ := List.getElem?_eq_some_iff.mp hi
  obtain ⟨hjlt, rfl⟩ := List.getElem?_eq_some_iff.mp hj
  have hne := List.pairwise_iff_getElem.mp distinct i j hilt hjlt hlt
  exact Bool.eq_false_iff.mp hne same

namespace IsIndex

/-- A key is its own witness. -/
theorem of_getElem? [ReflBEq K] {index : KeyIndex} (there : keys[index.toNat]? = some key) :
    IsIndex keys index key := ⟨key, there, BEq.rfl⟩

/-- The position that a search finds is the index of the key. -/
theorem of_idxOf? (few : keys.length ≤ maxKeys) {i : ℕ} (h : keys.idxOf? key = some i) :
    IsIndex keys (UInt32.ofNat i) key := by
  obtain ⟨hlt, same, -⟩ := List.findIdx?_eq_some_iff_getElem.mp h
  refine ⟨keys[i], ?_, same⟩
  rw [toNat_ofNat_of_lt_maxKeys (Nat.lt_of_lt_of_le hlt few), List.getElem?_eq_getElem hlt]

/-- What has an index is not lacking. -/
theorem not_lacks {index : KeyIndex} (there : IsIndex keys index key) : ¬ Lacks keys key := by
  obtain ⟨own, hown, same⟩ := there
  exact fun lacks => Bool.eq_false_iff.mp (lacks own (List.mem_of_getElem? hown)) same

/-- Equal keys lie at one place. -/
theorem inj [PartialEquivBEq K] (distinct : Distinct keys) {i j : KeyIndex} (hi : IsIndex keys i key)
    (hj : IsIndex keys j key) : i = j := by
  obtain ⟨a, ha, hakey⟩ := hi
  obtain ⟨b, hb, hbkey⟩ := hj
  have same : a == b := BEq.trans hakey (BEq.symm hbkey)
  have hge := distinct.not_lt ha hb same
  have hle := distinct.not_lt hb ha (BEq.symm same)
  exact UInt32.toNat.inj (by omega)

end IsIndex

section Lawful

variable [LawfulBEq K]

/-- For lawful keys, distinct means that none is repeated. -/
theorem distinct_iff : Distinct keys ↔ keys.Nodup := by
  simp only [Distinct, List.Nodup, beq_eq_false_iff_ne]

/-- For lawful keys, lacking means not being a member. -/
theorem lacks_iff : Lacks keys key ↔ key ∉ keys := by
  simp only [Lacks, beq_eq_false_iff_ne]
  exact ⟨fun h there => h key there rfl, fun h own hown heq => h (heq ▸ hown)⟩

/-- For lawful keys, the key of an index is the one that is listed there. -/
theorem isIndex_iff {index : KeyIndex} : IsIndex keys index key ↔ keys[index.toNat]? = some key := by
  simp [IsIndex]

end Lawful

/-- Whether a key is lacking can be computed. -/
theorem lacks_iff_any : Lacks keys key ↔ keys.any (· == key) = false := by
  simp [Lacks]

/-! ## Sound interners

The registry has distinct keys, and there are no more of them than there are indices. The table of keys is
the same list, read by index.
-/

/-- What holds of every interner: the keys are distinct, there are not too many of them, and the table
has them by index. -/
structure Sound (t : Interner K) : Prop where
  distinct : Distinct t.registry
  few : t.registry.length ≤ maxKeys
  table : t.byIndex.Sound
  key?_eq : ∀ index, t.key? index = t.registry[index.toNat]?

/-- A new interner is sound, whatever its hash and its capacity. -/
theorem sound_withCapacity (hash : K → UInt64) (capacity : Nat) :
    (withCapacity hash capacity).Sound where
  distinct := .nil
  few := Nat.zero_le _
  table := SlotTable.sound_blank
  key?_eq _ := SlotTable.lookup_blank _

theorem Sound.nodup [LawfulBEq K] (h : t.Sound) : t.registry.Nodup := distinct_iff.mp h.distinct

/-- A key has one index only. -/
theorem Sound.index_inj [EquivBEq K] (h : t.Sound) {i j : KeyIndex}
    (hi : t.registry[i.toNat]? = some key) (hj : t.registry[j.toNat]? = some key) : i = j :=
  IsIndex.inj h.distinct (.of_getElem? hi) (.of_getElem? hj)

/-! ## Changes that have no part in it

The cache may be written to at any time, with anything.
-/

/-- The cache plays no part in what an interner knows. -/
theorem Sound.remember (h : t.Sound) (hash : UInt64) (index : KeyIndex) :
    (t.remember hash index).Sound := ⟨h.distinct, h.few, h.table, h.key?_eq⟩

omit [BEq K] in
@[simp] theorem registry_remember (t : Interner K) (hash : UInt64) (index : KeyIndex) :
    (t.remember hash index).registry = t.registry := rfl

/-! ## New keys

A key that is lacking goes to the end of both registry and table, so the keys before it stay where they are.
-/

/-- A new key is registered with the next index. -/
theorem Sound.register (h : t.Sound) (new : Lacks t.registry key) (room : t.registry.length < maxKeys) :
    (t.register key).Sound := by
  have hlength : (UInt64.ofNat t.registry.length).toNat = t.registry.length := by
    rw [UInt64.toNat_ofNat']
    unfold maxKeys at room
    omega
  have hlt : (UInt64.ofNat t.registry.length).toNat < 2 ^ 32 := by
    rw [hlength]
    unfold maxKeys at room
    omega
  obtain ⟨-, -, htable, hlookup⟩ := SlotTable.getOrInsert_eq h.table
    (Location.addressable_of_lt hlt) key
  -- The slot of the new index is empty, because the registry ends before it.
  have hempty : t.byIndex.lookup (UInt64.ofNat t.registry.length) = none := by
    have hkey := h.key?_eq (UInt32.ofNat t.registry.length)
    rw [toNat_ofNat_of_lt_maxKeys room, List.getElem?_eq_none (Nat.le_refl _)] at hkey
    have hsame : (UInt32.ofNat t.registry.length).toUInt64 = UInt64.ofNat t.registry.length := by
      apply UInt64.toNat.inj
      rw [UInt32.toNat_toUInt64, toNat_ofNat_of_lt_maxKeys room, hlength]
    rw [key?, hsame] at hkey
    exact hkey
  constructor
  · exact h.distinct.concat new
  · show (t.registry ++ [key]).length ≤ _
    rw [List.length_append]
    exact room
  · exact htable
  · intro index
    show (t.byIndex.getOrInsert _ key).table.lookup index.toUInt64 = (t.registry ++ [key])[_]?
    rw [hlookup, hempty]
    by_cases hi : index.toNat = t.registry.length
    · have hindex : UInt64.ofNat t.registry.length = index.toUInt64 := by
        apply UInt64.toNat.inj
        rw [hlength, UInt32.toNat_toUInt64, hi]
      rw [if_pos hindex, hi, List.getElem?_concat_length]
      rfl
    · have hindex : UInt64.ofNat t.registry.length ≠ index.toUInt64 := by
        intro heq
        have := congrArg UInt64.toNat heq
        rw [hlength, UInt32.toNat_toUInt64] at this
        exact hi this.symm
      rw [if_neg hindex]
      have hkey : t.byIndex.lookup index.toUInt64 = t.registry[index.toNat]? := h.key?_eq index
      rw [hkey]
      rcases Nat.lt_or_gt_of_ne hi with hlt | hgt
      · rw [List.getElem?_append_left hlt]
      · rw [List.getElem?_eq_none (Nat.le_of_lt hgt), List.getElem?_eq_none]
        rw [List.length_append]
        exact hgt

/-! ## Asking for an index

A probe of the cache is confirmed by the table, and otherwise the registry is searched. Either way the
answer is an index of the key, and there is only one.
-/

/-- What a probe finds is confirmed by the table. -/
theorem key?_of_probeAt {hash : UInt64} {offsets : List Nat} {index : KeyIndex}
    (h : t.probeAt hash key offsets = some index) : t.key? index == some key := by
  induction offsets with
  | nil => cases h
  | cons offset rest ih =>
      simp only [probeAt] at h
      split at h
      · cases h
      · split at h
        · exact ih h
        · split at h
          · next confirmed =>
              cases h
              exact confirmed
          · exact ih h

/-- An index whose key is confirmed to be equal is right. -/
theorem Sound.isIndex_of_key? (h : t.Sound) {index : KeyIndex} (confirmed : t.key? index == some key) :
    IsIndex t.registry index key := by
  rw [h.key?_eq] at confirmed
  cases there : t.registry[index.toNat]? with
  | none => simp [there] at confirmed
  | some own => exact ⟨own, there, by simpa [there] using confirmed⟩

/-- Asking for an index changes nothing but the cache, and finds the key exactly if it is registered. -/
theorem Sound.index?_spec (h : t.Sound) (key : K) :
    (t.index? key).1.Sound ∧ (t.index? key).1.registry = t.registry ∧
      (∀ index, (t.index? key).2 = some index → IsIndex t.registry index key) ∧
      ((t.index? key).2 = none → Lacks t.registry key) := by
  unfold index?
  cases hprobe : t.probe key with
  | some index =>
      refine ⟨h, rfl, ?_, nofun⟩
      rintro _ ⟨⟩
      exact h.isIndex_of_key? (key?_of_probeAt hprobe)
  | none =>
      cases hposition : t.registry.idxOf? key with
      | some position =>
          refine ⟨h.remember _ _, rfl, ?_, nofun⟩
          rintro _ ⟨⟩
          exact .of_idxOf? h.few hposition
      | none => exact ⟨h, rfl, nofun, fun _ => List.findIdx?_eq_none_iff.mp hposition⟩

/-- Interning a key keeps the indices of all others, and gives the key its own. -/
theorem Sound.intern_spec [ReflBEq K] (h : t.Sound) (key : K) :
    (t.intern key).1.Sound ∧ t.registry <+: (t.intern key).1.registry ∧
      ∀ index, (t.intern key).2 = some index → IsIndex (t.intern key).1.registry index key := by
  obtain ⟨hsound, hregistry, hfound, hnew⟩ := h.index?_spec key
  unfold intern
  rcases hindex : t.index? key with ⟨t', index⟩
  simp only [hindex] at hsound hregistry hfound hnew
  cases index with
  | some index =>
      refine ⟨hsound, hregistry ▸ List.prefix_refl _, ?_⟩
      rintro _ ⟨⟩
      show IsIndex t'.registry index key
      rw [hregistry]
      exact hfound index rfl
  -- The key is new: it is appended as long as there is room.
  | none =>
      have new : Lacks t'.registry key := hregistry ▸ hnew rfl
      by_cases room : t'.registry.length < maxKeys
      · simp only [if_pos room]
        refine ⟨(hsound.register new room).remember _ _, ?_, ?_⟩
        · show t.registry <+: t'.registry ++ [key]
          rw [hregistry]
          exact List.prefix_append _ _
        · rintro _ ⟨⟩
          refine .of_getElem? ?_
          show (t'.registry ++ [key])[_]? = some key
          rw [toNat_ofNat_of_lt_maxKeys room, List.getElem?_concat_length]
      · simp only [if_neg room]
        exact ⟨hsound, hregistry ▸ List.prefix_refl _, nofun⟩

/-- Interning a key that has an index gives that index, and changes nothing but the cache. -/
theorem Sound.intern_of_registered [EquivBEq K] (h : t.Sound) {index : KeyIndex}
    (there : IsIndex t.registry index key) :
    (t.intern key).2 = some index ∧ (t.intern key).1.registry = t.registry := by
  obtain ⟨-, hregistry, hfound, hnew⟩ := h.index?_spec key
  unfold intern
  rcases hindex : t.index? key with ⟨t', index'⟩
  simp only [hindex] at hregistry hfound hnew
  cases index' with
  | none => exact absurd (hnew rfl) there.not_lacks
  | some index' => exact ⟨congrArg some (IsIndex.inj h.distinct (hfound index' rfl) there), hregistry⟩

/-- No key loses its index when another one is interned. -/
theorem Sound.getElem?_intern [ReflBEq K] (h : t.Sound) (key : K) {i : ℕ} {other : K}
    (there : t.registry[i]? = some other) : (t.intern key).1.registry[i]? = some other := by
  obtain ⟨-, ⟨rest, hrest⟩, -⟩ := h.intern_spec key
  rw [← hrest, List.getElem?_append_left (List.getElem?_eq_some_iff.mp there).1, there]

/-! ## Keys that equal only themselves

For keys with a lawful equality all this can be said with membership and positions.
-/

section Lawful

variable [LawfulBEq K]

/-- The key that an index was given for lies at it. -/
theorem Sound.getElem?_of_intern (h : t.Sound) (key : K) (index : KeyIndex)
    (given : (t.intern key).2 = some index) :
    (t.intern key).1.registry[index.toNat]? = some key :=
  isIndex_iff.mp ((h.intern_spec key).2.2 index given)

/-- While there are indices left, interning gives one, and adds the key only. -/
theorem Sound.intern_of_room (h : t.Sound) (room : key ∈ t.registry ∨ t.registry.length < maxKeys) :
    ∃ index, (t.intern key).2 = some index ∧
      ∀ other, other ∈ (t.intern key).1.registry ↔ other ∈ t.registry ∨ other = key := by
  obtain ⟨-, hregistry, hfound, hnew⟩ := h.index?_spec key
  unfold intern
  rcases hindex : t.index? key with ⟨t', index⟩
  simp only [hindex] at hregistry hfound hnew
  cases index with
  | some index =>
      refine ⟨index, rfl, fun other => ?_⟩
      show other ∈ t'.registry ↔ _
      rw [hregistry]
      refine ⟨.inl, fun hother => hother.elim id ?_⟩
      rintro rfl
      exact List.mem_of_getElem? (isIndex_iff.mp (hfound index rfl))
  | none =>
      have room : t'.registry.length < maxKeys :=
        hregistry ▸ room.resolve_left (lacks_iff.mp (hnew rfl))
      simp only [if_pos room]
      refine ⟨_, rfl, fun other => ?_⟩
      show other ∈ t'.registry ++ [key] ↔ _
      rw [hregistry, List.mem_append, List.mem_singleton]

end Lawful

end RequestGraph.Interner
