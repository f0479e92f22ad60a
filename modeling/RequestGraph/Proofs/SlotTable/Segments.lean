import Mathlib.Data.Nat.Find
import Mathlib.Order.Bounds.Basic
import RequestGraph.Proofs.SlotTable.Lookup

/-!
# How far a table of slots has grown

Segment `k` begins at index `256 * (2 ^ k - 1)`. A table whose slots are filled one after another, from
index zero on, allocates the segment of a slot when it comes to it, and so after `n` slots it has exactly
the segments that begin before `n`:

    t.segmentCount = the least N with n ≤ 256 * (2 ^ N - 1)
-/

namespace RequestGraph

namespace Location

/-- The number of the index that a segment begins at. -/
def segmentStart (k : ℕ) : ℕ := 256 * (2 ^ k - 1)

/-- An index is behind the beginning of its own segment and of those before it, and of no other. -/
theorem segmentStart_le_iff {k n : ℕ} : segmentStart k ≤ n ↔ k ≤ (n / 256 + 1).log2 := by
  have hpos : 0 < 2 ^ k := Nat.two_pow_pos k
  rw [Nat.le_log2 (Nat.succ_ne_zero _), segmentStart]
  omega

/-- Segments begin one after the other. -/
theorem segmentStart_mono {j k : ℕ} (h : j ≤ k) : segmentStart j ≤ segmentStart k :=
  Nat.mul_le_mul_left _ (Nat.sub_le_sub_right (Nat.pow_le_pow_right (by decide) h) 1)

theorem segmentStart_strictMono {j k : ℕ} (h : j < k) : segmentStart j < segmentStart k := by
  have hpos : 0 < 2 ^ j := Nat.two_pow_pos j
  have hlt : 2 ^ j < 2 ^ k := Nat.pow_lt_pow_right (by decide) h
  unfold segmentStart
  omega

/-- With one more slot, the segment of that slot begins before the end too. -/
theorem segmentStart_lt_succ {k n : ℕ} :
    segmentStart k < n + 1 ↔ segmentStart k < n ∨ k = (n / 256 + 1).log2 := by
  rw [Nat.lt_succ_iff]
  constructor
  · intro h
    rcases Nat.lt_or_eq_of_le (segmentStart_le_iff.mp h) with hlt | heq
    · exact .inl (Nat.lt_of_lt_of_le (segmentStart_strictMono hlt)
        (segmentStart_le_iff.mpr (Nat.le_refl _)))
    · exact .inr heq
  · rintro (h | rfl)
    · exact h.le
    · exact segmentStart_le_iff.mpr (Nat.le_refl _)

/-- Any number of slots fits into enough segments. -/
theorem exists_segments (n : ℕ) : ∃ N, n ≤ segmentStart N := by
  refine ⟨n, ?_⟩
  have := Nat.lt_two_pow_self (n := n)
  unfold segmentStart
  omega

/-- How many segments so many slots need. -/
def segmentsFor (n : ℕ) : ℕ := Nat.find (exists_segments n)

/-- A segment is needed if it begins below `n`. -/
theorem lt_segmentsFor_iff {k n : ℕ} : k < segmentsFor n ↔ segmentStart k < n := by
  rw [segmentsFor, Nat.lt_find_iff]
  exact ⟨fun h => Nat.not_le.mp (h k (Nat.le_refl k)),
    fun h j hj => Nat.not_le.mpr (Nat.lt_of_le_of_lt (segmentStart_mono hj) h)⟩

/-- As many keys as there can be fit into the segments that there are. -/
theorem segmentsFor_le {n : ℕ} (h : n ≤ 2 ^ 32) : segmentsFor n ≤ segmentCount :=
  Nat.find_min' (exists_segments n) (h.trans (by decide))

end Location

namespace SlotTable

variable {α : Type}

open Location (segmentStart segmentsFor)

/-- A table whose first `n` slots were filled one after another. -/
structure Dense (t : SlotTable α) (n : ℕ) : Prop where
  sound : t.Sound
  segment : ∀ k, k < Location.segmentCount → ((t.segment? k).isSome ↔ segmentStart k < n)

/-- Putting a leaf at an address allocates its segment, and no other. -/
theorem isSome_segment?_setLeaf {t : SlotTable α} {l : Location} (leaf : Leaf α)
    (h : l.segment.toNat < t.segments.length) (k : ℕ) :
    ((t.setLeaf l leaf).segment? k).isSome ↔ (t.segment? k).isSome ∨ k = l.segment.toNat := by
  simp only [segment?, setLeaf, List.getElem?_modify]
  by_cases hk : l.segment.toNat = k
  · subst hk
    simp [List.getElem?_eq_getElem h]
  · simp [hk, Ne.symm hk]

/-- Allocating the way to a slot allocates its segment and no other. -/
theorem isSome_segment?_allocate {t : SlotTable α} (h : t.Sound) {i : UInt64}
    (hi : (Location.of i).addressable = true) (k : ℕ) : ((t.allocate i).segment? k).isSome
      ↔ (t.segment? k).isSome ∨ k = (Location.of i).segment.toNat := by
  unfold allocate
  cases hleaf : t.leaf? (Location.of i) with
  | none =>
    simp only [hleaf]
    exact isSome_segment?_setLeaf blankLeaf (h.segments ▸ Location.segment_lt hi) k
  | some leaf =>
    -- The leaf is in a segment, which therefore is allocated already.
    simp only [hleaf]
    refine ⟨.inl, fun hk => hk.elim id ?_⟩
    rintro rfl
    rw [leaf?, Option.bind_eq_some_iff] at hleaf
    obtain ⟨segment, hsegment, -⟩ := hleaf
    rw [hsegment]
    rfl

/-- Filling a slot allocates its segment and no other. -/
theorem isSome_segment?_getOrInsert {t : SlotTable α} (h : t.Sound) {i : UInt64}
    (hi : (Location.of i).addressable = true) (hnone : t.lookup i = none) (v : α) (k : ℕ) :
    ((t.getOrInsert i v).table.segment? k).isSome
      ↔ (t.segment? k).isSome ∨ k = (Location.of i).segment.toNat := by
  have hallocated : (t.allocate i).lookup i = none := by rw [lookup_allocate h hi, hnone]
  simp only [getOrInsert, hnone, install, hallocated]
  rw [isSome_segment?_setLeaf _ ((h.allocate hi).segments ▸ Location.segment_lt hi),
    isSome_segment?_allocate h hi, or_assoc, or_self]

/-- Filling the next slot. -/
theorem Dense.getOrInsert {t : SlotTable α} {n : ℕ} (h : t.Dense n) (hn : n < 2 ^ 32)
    (hnone : t.lookup (UInt64.ofNat n) = none) (v : α) :
    (t.getOrInsert (UInt64.ofNat n) v).table.Dense (n + 1) := by
  have hnat : (UInt64.ofNat n).toNat = n := by
    rw [UInt64.toNat_ofNat']
    omega
  have hlt : (Location.of (UInt64.ofNat n)).addressable = true :=
    Location.addressable_of_lt (hnat.symm ▸ hn)
  refine ⟨(getOrInsert_eq h.sound hlt v).2.2.1, fun k hk => ?_⟩
  rw [isSome_segment?_getOrInsert h.sound hlt hnone, h.segment k hk, Location.toNat_segment, hnat,
    Location.segmentStart_lt_succ]

/-- Counting a property of the first `N` positions. -/
theorem countP_of_lt_iff {β : Type} {p : β → Bool} {xs : List β} {N : ℕ} (hN : N ≤ xs.length)
    (h : ∀ k (hk : k < xs.length), p xs[k] ↔ k < N) : xs.countP p = N := by
  have htake : (xs.take N).countP p = (xs.take N).length := by
    rw [List.countP_eq_length]
    intro x hx
    obtain ⟨k, hk, rfl⟩ := List.mem_take_iff_getElem.mp hx
    exact (h k (by omega)).mpr (by omega)
  have hdrop : (xs.drop N).countP p = 0 := by
    rw [List.countP_eq_zero]
    intro x hx
    obtain ⟨k, hk, rfl⟩ := List.mem_drop_iff_getElem.mp hx
    rw [h (N + k) (by omega)]
    omega
  rw [← List.take_append_drop N xs, List.countP_append, htake, hdrop, List.length_take]
  omega

/-- The segments are those that the slots need. -/
theorem Dense.segmentCount_eq {t : SlotTable α} {n : ℕ} (h : t.Dense n) (hn : n ≤ 2 ^ 32) :
    t.segmentCount = segmentsFor n := by
  have hlength := h.sound.segments
  refine countP_of_lt_iff (hlength ▸ Location.segmentsFor_le hn) fun k hk => ?_
  have hsegment : t.segment? k = t.segments[k] := by
    rw [segment?, List.getElem?_eq_getElem hk]
    rfl
  rw [← hsegment, h.segment k (hlength ▸ hk), Location.lt_segmentsFor_iff]

end SlotTable

end RequestGraph
