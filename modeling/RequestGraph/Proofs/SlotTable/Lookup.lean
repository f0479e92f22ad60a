import Mathlib.Algebra.Ring.Nat
import Mathlib.Data.Finset.Card
import RequestGraph.SlotTable.Basic

/-!
# What a table of slots holds

No two indices share a slot, and every index that can be addressed has one. So a table whose leaves are all of
full length is a map from such indices to values, of which each is filled at most once:

    (getOrInsert t i v).table.lookup j  =  (getOrInsert t i v).value   if i = j
    (getOrInsert t i v).table.lookup j  =  lookup t j                  otherwise
-/

namespace RequestGraph

namespace Location

/-- The lowest bits of an index give the slot in its leaf. -/
theorem toNat_slot (index : UInt64) : (of index).slot.toNat = index.toNat % 32 := by
  show (index &&& 31).toNat = _
  rw [UInt64.toNat_and]
  exact Nat.and_two_pow_sub_one_eq_mod index.toNat 5

/-- A leaf has a slot for what an index says. -/
theorem slot_lt (index : UInt64) : (of index).slot.toNat < leafLength := by
  rw [toNat_slot]
  exact Nat.mod_lt _ (by decide)

theorem toNat_shiftRight_five (index : UInt64) : (index >>> 5).toNat = index.toNat / 32 := by
  rw [UInt64.toNat_shiftRight]
  exact Nat.shiftRight_eq_div_pow index.toNat 5

/-- An index is recovered from its address. -/
theorem of_injective {i j : UInt64} (h : of i = of j) : i = j := by
  have hsegment : (of i).segment = (of j).segment := congrArg segment h
  have hleaf : (of i).leaf = (of j).leaf := congrArg leaf h
  have hslot : i.toNat % 32 = j.toNat % 32 := by
    rw [← toNat_slot, ← toNat_slot, h]
  have hhigh : i >>> 5 = j >>> 5 := by
    have before (k : UInt64) :
        (of k).leaf = k >>> 5 - firstSegment * (((1 : UInt64) <<< (of k).segment) - 1) := rfl
    rw [before, before, hsegment] at hleaf
    exact (UInt64.sub_left_inj _).mp hleaf
  have hdiv : i.toNat / 32 = j.toNat / 32 := by
    rw [← toNat_shiftRight_five, ← toNat_shiftRight_five, hhigh]
  apply UInt64.toNat.inj
  omega

/-- Segments double in length, so the logarithm of the leaf gives the segment. -/
theorem toNat_segment (index : UInt64) :
    (of index).segment.toNat = (index.toNat / 256 + 1).log2 := by
  have hvalue : (index >>> 5 / firstSegment + 1).toNat = index.toNat / 256 + 1 := by
    rw [UInt64.toNat_add, UInt64.toNat_div, toNat_shiftRight_five]
    show (index.toNat / 32 / 8 + 1) % 2 ^ 64 = _
    have := index.toNat_lt
    omega
  show (index >>> 5 / firstSegment + 1).toNat.log2 = _
  rw [hvalue]

/-- The indices that can be addressed are those below a bound. -/
theorem addressable_iff {index : UInt64} :
    (of index).addressable = true ↔ index.toNat < 2 ^ 34 - 256 := by
  rw [addressable, decide_eq_true_iff, toNat_segment, segmentCount, Nat.log2_lt (Nat.succ_ne_zero _)]
  omega

/-- Every 32 bit index can be addressed. -/
theorem addressable_of_lt {index : UInt64} (h : index.toNat < 2 ^ 32) :
    (of index).addressable = true := addressable_iff.mpr (h.trans (by decide))

/-- An index with an address has a segment. -/
theorem segment_lt {index : UInt64} (h : (of index).addressable = true) :
    (of index).segment.toNat < segmentCount := of_decide_eq_true h

end Location

namespace SlotTable

variable {α : Type}

/-- What holds of every table: there are all segments, and all leaves are of full length. -/
structure Sound (t : SlotTable α) : Prop where
  segments : t.segments.length = Location.segmentCount
  leaves : ∀ l leaf, t.leaf? l = some leaf → leaf.length = Location.leafLength

/-- A new table is sound. -/
theorem sound_blank : ({} : SlotTable α).Sound where
  segments := List.length_replicate
  leaves l leaf h := by
    have hnone : ({} : SlotTable α).leaf? l = none := by
      simp only [leaf?, segment?, List.getElem?_replicate]
      split <;> rfl
    rw [hnone] at h
    cases h

@[simp] theorem lookup_blank (index : UInt64) : ({} : SlotTable α).lookup index = none := by
  simp only [lookup, leaf?, segment?, List.getElem?_replicate]
  split <;> rfl

/-! ## Leaves

A table is changed leaf by leaf. Reading another leaf does not notice.
-/

/-- Reading a leaf after one was written. -/
theorem leaf?_setLeaf {t : SlotTable α} {l l' : Location} (leaf : Leaf α)
    (h : l.segment.toNat < t.segments.length) : (t.setLeaf l leaf).leaf? l' =
      if l.segment = l'.segment ∧ l.leaf = l'.leaf then some leaf else t.leaf? l' := by
  have hnat {a b : UInt64} : a.toNat = b.toNat ↔ a = b := UInt64.toNat_inj
  simp only [leaf?, segment?, setLeaf, List.getElem?_modify, hnat]
  by_cases hs : l.segment = l'.segment
  · obtain ⟨s, hget⟩ : ∃ s, t.segments[l'.segment.toNat]? = some s :=
      ⟨_, List.getElem?_eq_getElem (hs ▸ h)⟩
    rw [hget]
    simp only [if_pos hs]
    show ((s.getD {}).insert l.leaf.toNat leaf).get? l'.leaf.toNat = _
    rw [OrderedMap.get?_insert]
    by_cases hl : l.leaf = l'.leaf
    · rw [if_pos (congrArg UInt64.toNat hl), if_pos ⟨hs, hl⟩]
    · rw [if_neg fun h => hl (hnat.mp h), if_neg fun h => hl h.2]
      cases s <;> rfl
  · simp [hs]

/-- Writing a leaf of the right length keeps a table sound. -/
theorem Sound.setLeaf {t : SlotTable α} (h : t.Sound) {l : Location} {leaf : Leaf α}
    (hl : l.segment.toNat < Location.segmentCount) (hleaf : leaf.length = Location.leafLength) :
    (t.setLeaf l leaf).Sound where
  segments := by
    rw [SlotTable.setLeaf, List.length_modify, h.segments]
  leaves l' leaf' h' := by
    rw [leaf?_setLeaf leaf (h.segments ▸ hl)] at h'
    split at h'
    · cases h'
      exact hleaf
    · exact h.leaves l' leaf' h'

/-! ## Filling a slot

First the way to the slot is allocated, which changes no value, and then the value is put there. Both keep
the lengths of all leaves.
-/

section Filling

variable {t : SlotTable α} {i : UInt64}

/-- Indices with the same segment and leaf share the leaf. -/
theorem leaf?_congr {i j : UInt64} (hs : (Location.of i).segment = (Location.of j).segment)
    (hl : (Location.of i).leaf = (Location.of j).leaf) :
    t.leaf? (Location.of i) = t.leaf? (Location.of j) := by
  rw [leaf?, leaf?, hs, hl]

/-- A new leaf is empty. -/
theorem getElem?_blankLeaf (k : ℕ) : ((blankLeaf : Leaf α)[k]?).join = none := by
  rw [blankLeaf, List.getElem?_replicate]
  split <;> rfl

/-- Allocating the way to a slot changes no value. -/
theorem lookup_allocate (h : t.Sound) (hi : (Location.of i).addressable = true) (j : UInt64) :
    (t.allocate i).lookup j = t.lookup j := by
  unfold allocate
  cases hleaf : t.leaf? (Location.of i) with
  | some leaf => simp only [hleaf]
  | none =>
      simp only [hleaf]
      rw [lookup, lookup, leaf?_setLeaf _ (h.segments ▸ Location.segment_lt hi)]
      split
      · next heq =>
          rw [← leaf?_congr heq.1 heq.2, hleaf]
          exact getElem?_blankLeaf _
      · rfl

/-- Allocating the way to a slot keeps a table sound. -/
theorem Sound.allocate (h : t.Sound) (hi : (Location.of i).addressable = true) : (t.allocate i).Sound := by
  unfold SlotTable.allocate
  cases hleaf : t.leaf? (Location.of i) with
  | some leaf =>
      simp only [hleaf]
      exact h
  | none =>
      simp only [hleaf]
      exact h.setLeaf (Location.segment_lt hi) List.length_replicate

/-- The leaf that a slot is filled in. -/
theorem Sound.length_leaf (h : t.Sound) (i : UInt64) :
    ((t.leaf? (Location.of i)).getD blankLeaf).length = Location.leafLength := by
  cases hleaf : t.leaf? (Location.of i) with
  | none => exact List.length_replicate
  | some leaf => exact h.leaves _ _ hleaf

/-- Filling an empty slot gives it the value, and changes no other. -/
theorem lookup_install (h : t.Sound) (hi : (Location.of i).addressable = true)
    (hnone : t.lookup i = none) (v : α) (j : UInt64) :
    (t.install i v).table.lookup j = if i = j then some v else t.lookup j := by
  simp only [install, hnone]
  rw [lookup, leaf?_setLeaf _ (h.segments ▸ Location.segment_lt hi)]
  have hlength : ((t.leaf? (Location.of i)).getD blankLeaf).length = 32 := h.length_leaf i
  by_cases hij : i = j
  · subst hij
    have hslot := Location.slot_lt i
    rw [if_pos rfl, if_pos ⟨rfl, rfl⟩]
    simp [hlength, show (Location.of i).slot.toNat < 32 from hslot]
  · rw [if_neg hij]
    split
    · next heq =>
        -- Another index of the same leaf has another slot in it.
        have hslot : (Location.of i).slot.toNat ≠ (Location.of j).slot.toNat := by
          intro hslot
          apply hij
          apply Location.of_injective
          have hs : (Location.of i).slot = (Location.of j).slot := UInt64.toNat.inj hslot
          exact Location.mk.injEq .. ▸ ⟨heq.1, heq.2, hs⟩
        rw [lookup, ← leaf?_congr heq.1 heq.2]
        cases hleaf : t.leaf? (Location.of i) with
        | some leaf => simp [hslot]
        | none =>
            show (((blankLeaf : Leaf α).set _ _)[_]?).join = _
            rw [List.getElem?_set_ne hslot]
            exact getElem?_blankLeaf _
    · rfl

/-- Filling a slot keeps a table sound. -/
theorem Sound.install (h : t.Sound) (hi : (Location.of i).addressable = true) (v : α) :
    (t.install i v).table.Sound := by
  unfold SlotTable.install
  split
  · exact h
  · refine h.setLeaf (Location.segment_lt hi) ?_
    rw [List.length_set]
    exact h.length_leaf i

/-- What asking for the value of an index gives. -/
theorem getOrInsert_eq (h : t.Sound) (hi : (Location.of i).addressable = true) (v : α) :
    (t.getOrInsert i v).value = (t.lookup i).getD v ∧
      (t.getOrInsert i v).won = (t.lookup i).isNone ∧
      (t.getOrInsert i v).table.Sound ∧
      ∀ j, (t.getOrInsert i v).table.lookup j =
        if i = j then some ((t.lookup i).getD v) else t.lookup j := by
  cases hlookup : t.lookup i with
  | some there =>
      simp only [getOrInsert, hlookup]
      refine ⟨rfl, rfl, h, ?_⟩
      intro j
      split
      · next hij => rw [← hij, hlookup]; rfl
      · rfl
  | none =>
      have hnone : (t.allocate i).lookup i = none := by rw [lookup_allocate h hi, hlookup]
      simp only [getOrInsert, hlookup]
      refine ⟨?_, ?_, ?_, ?_⟩
      · simp [install, hnone]
      · simp [install, hnone]
      · exact (h.allocate hi).install hi v
      · intro j
        rw [lookup_install (h.allocate hi) hi hnone, lookup_allocate h hi]
        rfl

end Filling

/-! ## How many slots are filled

Indices of keys are words of 32 bits, so finitely many slots can be filled for them. The number grows with
each that is.
-/

/-- The number of 32 bit indices whose slots are filled. -/
def filled (t : SlotTable α) : ℕ :=
  ((Finset.range (2 ^ 32)).filter fun i => (t.lookup (UInt64.ofNat i)).isSome).card

/-- There are at most as many filled slots as indices of keys. -/
theorem filled_le (t : SlotTable α) : t.filled ≤ 2 ^ 32 :=
  (Finset.card_filter_le _ _).trans (Finset.card_range _).le

/-- Filling an empty slot adds it to those that are filled. -/
theorem filled_lt {t t' : SlotTable α} {i : UInt64} (hi : i.toNat < 2 ^ 32)
    (hnone : t.lookup i = none) {v : α}
    (h : ∀ j, t'.lookup j = if i = j then some v else t.lookup j) : t.filled < t'.filled := by
  apply Finset.card_lt_card
  rw [Finset.ssubset_iff_of_subset]
  · refine ⟨i.toNat, ?_, ?_⟩
    · rw [Finset.mem_filter, Finset.mem_range, UInt64.ofNat_toNat, h, if_pos rfl]
      exact ⟨hi, rfl⟩
    · rw [Finset.mem_filter, UInt64.ofNat_toNat, hnone]
      exact fun h => nomatch h.2
  · intro j hj
    rw [Finset.mem_filter] at hj ⊢
    refine ⟨hj.1, ?_⟩
    rw [h]
    split
    · rfl
    · exact hj.2

end SlotTable

end RequestGraph
