import RequestGraph.Interner.Basic
import RequestGraph.Proofs.SlotTable.Segments

/-!
# One address for each index

Coordinates are in bounds if the leaf is one of those of its segment and the slot is one of those of its
leaf. Among the coordinates in bounds, those of an index are the ones that lead back to it:

    of index = (k, leaf, slot)   iff   leaf < 8 * 2 ^ k,  slot < 32,
                                       index = 256 * (2 ^ k - 1) + 32 * leaf + slot

So indices and coordinates in bounds correspond to each other one to one, as far as words reach. No step of the
computation of an address leaves the range of words, which is said by a second computation in integers, in
which every step is checked.
-/

namespace RequestGraph.Location

/-! ## The leaf of an index

The address is computed by shifts and by counting zeros. As numbers, these are divisions and binary
logarithms.
-/

/-- The segment of an index has a number that is far less than 64. -/
theorem log2_lt_64 {n : ℕ} (h : n < 2 ^ 64) : (n / 256 + 1).log2 < 64 := by
  rw [Nat.log2_lt (Nat.succ_ne_zero _)]
  omega

/-- The segments before that of an index have fewer leaves than there are before that of the index. -/
theorem leaves_before_le (n : ℕ) : 8 * (2 ^ (n / 256 + 1).log2 - 1) ≤ n / 32 := by
  have hstart : segmentStart (n / 256 + 1).log2 ≤ n := segmentStart_le_iff.mpr (Nat.le_refl _)
  unfold segmentStart at hstart
  omega

theorem toNat_shiftRight_div (index : UInt64) :
    (index >>> 5 / firstSegment).toNat = index.toNat / 256 := by
  rw [UInt64.toNat_div, toNat_shiftRight_five]
  exact Nat.div_div_eq_div_mul index.toNat 32 8

theorem toNat_one_shiftLeft {a : UInt64} (h : a.toNat < 64) : (1 <<< a).toNat = 2 ^ a.toNat := by
  rw [UInt64.toNat_shiftLeft, Nat.mod_eq_of_lt h]
  show 1 <<< a.toNat % 2 ^ 64 = _
  rw [Nat.one_shiftLeft, Nat.mod_eq_of_lt (Nat.pow_lt_pow_right (by decide) h)]

theorem toNat_leaf (index : UInt64) : (of index).leaf.toNat =
    index.toNat / 32 - 8 * (2 ^ (index.toNat / 256 + 1).log2 - 1) := by
  have hlt := index.toNat_lt
  have hbefore := leaves_before_le index.toNat
  have hshift : (1 <<< (of index).segment).toNat = 2 ^ (index.toNat / 256 + 1).log2 := by
    rw [toNat_one_shiftLeft (toNat_segment index ▸ log2_lt_64 hlt), toNat_segment]
  generalize (index.toNat / 256 + 1).log2 = k at hbefore hshift
  have hpos : 0 < 2 ^ k := Nat.two_pow_pos k
  have hpower : (1 <<< (of index).segment - 1).toNat = 2 ^ k - 1 := by
    rw [UInt64.toNat_sub_of_le _ _ (UInt64.le_iff_toNat_le.mpr (hshift ▸ hpos)), hshift]
    rfl
  have hskipped : (firstSegment * (1 <<< (of index).segment - 1)).toNat = 8 * (2 ^ k - 1) := by
    rw [UInt64.toNat_mul, hpower]
    exact Nat.mod_eq_of_lt (by show 8 * (2 ^ k - 1) < 2 ^ 64; omega)
  show (index >>> 5 - firstSegment * (1 <<< (of index).segment - 1)).toNat = _
  rw [UInt64.toNat_sub_of_le, hskipped, toNat_shiftRight_five]
  rw [UInt64.le_iff_toNat_le, hskipped, toNat_shiftRight_five]
  exact hbefore

/-! ## Coordinates

A segment is as long as all those before it together, and the first once more. So the leaf, counted from the
first segment on, says which segment it is in.
-/

/-- The coordinates that an address has as numbers. -/
def coordinates (l : Location) : ℕ × ℕ × ℕ := (l.segment.toNat, l.leaf.toNat, l.slot.toNat)

theorem coordinates_of (index : UInt64) : (of index).coordinates =
    ((index.toNat / 256 + 1).log2,
      index.toNat / 32 - 8 * (2 ^ (index.toNat / 256 + 1).log2 - 1), index.toNat % 32) := by
  rw [coordinates, toNat_segment, toNat_leaf, toNat_slot]

theorem coordinates_injective {l l' : Location} (h : l.coordinates = l'.coordinates) : l = l' := by
  obtain ⟨segment, leaf, slot⟩ := l
  obtain ⟨segment', leaf', slot'⟩ := l'
  simpa only [coordinates, Prod.mk.injEq, UInt64.toNat_inj, Location.mk.injEq] using h

/-- Coordinates in bounds lie in the segment that they name. -/
theorem log2_eq_of_inBounds {k leaf slot : ℕ} (hleaf : leaf < 8 * 2 ^ k) (hslot : slot < 32) :
    ((256 * (2 ^ k - 1) + 32 * leaf + slot) / 256 + 1).log2 = k := by
  have hpos : 0 < 2 ^ k := Nat.two_pow_pos k
  rw [Nat.log2_eq_iff (Nat.succ_ne_zero _), Nat.pow_succ]
  omega

/-- The coordinates of an index are those in bounds that lead back to it. -/
theorem coordinates_eq_iff {index : UInt64} {k leaf slot : ℕ} :
    (of index).coordinates = (k, leaf, slot) ↔
      leaf < 8 * 2 ^ k ∧ slot < 32 ∧ index.toNat = 256 * (2 ^ k - 1) + 32 * leaf + slot := by
  rw [coordinates_of, Prod.mk.injEq, Prod.mk.injEq]
  constructor
  · rintro ⟨rfl, rfl, rfl⟩
    have hbefore := leaves_before_le index.toNat
    have hlog : index.toNat / 256 + 1 < 2 ^ ((index.toNat / 256 + 1).log2 + 1) := Nat.lt_log2_self
    rw [Nat.pow_succ] at hlog
    omega
  · rintro ⟨hleaf, hslot, hindex⟩
    have hsegment := log2_eq_of_inBounds hleaf hslot
    rw [← hindex] at hsegment
    rw [hsegment]
    omega

/-! ## The computation, checked

On words a computation that overflows goes on with a wrong result. Here it stops instead, and it is shown
never to stop.
-/

/-- The word of a number, if it is in the range of words. -/
def word? : ℤ → Option UInt64
  | .ofNat n => if n < UInt64.size then some (.ofNat n) else none
  | .negSucc _ => none

/-- The number of zeros that a word begins with, of its 64 digits. -/
def leadingZeros (word : UInt64) : ℕ := word.toBitVec.clz.toNat

/-- The address of an index, computed in integers. There is none if a result on the way is not a word. -/
def of? (index : UInt64) : Option Location := do
  let leaf : UInt64 := index >>> 5
  let biased ← word? ((leaf / firstSegment).toNat + 1)
  let segment ← word? (64 - 1 - leadingZeros biased)
  let power ← word? (2 ^ segment.toNat : ℕ)
  let before ← word? (power.toNat - 1)
  let skipped ← word? (firstSegment.toNat * before.toNat)
  let leaf ← word? (leaf.toNat - skipped.toNat)
  return { segment, leaf, slot := index &&& 31 }

theorem word?_of_lt {n : ℤ} {k : ℕ} (hn : n = k) (hk : k < 2 ^ 64) : word? n = some (.ofNat k) := by
  subst hn
  exact if_pos hk

theorem leadingZeros_eq {n : ℕ} (hn : n ≠ 0) (hlt : n < 2 ^ 64) :
    (64 - 1 - leadingZeros (.ofNat n) : ℤ) = n.log2 := by
  have hnat : (UInt64.ofNat n).toBitVec.toNat = n := by
    show (UInt64.ofNat n).toNat = n
    rw [UInt64.toNat_ofNat', Nat.mod_eq_of_lt hlt]
  have hne : (UInt64.ofNat n).toBitVec ≠ 0#64 := by
    intro hzero
    rw [hzero] at hnat
    exact hn hnat.symm
  have hlow := BitVec.two_pow_sub_clz_le_toNat_of_ne_zero (by decide) hne
  have hhigh := (UInt64.ofNat n).toBitVec.toNat_lt_two_pow_sub_clz
  have hclz : (UInt64.ofNat n).toBitVec.clz.toNat < 64 := BitVec.clz_lt_iff_ne_zero.mpr hne
  rw [hnat] at hlow hhigh
  unfold leadingZeros
  generalize (UInt64.ofNat n).toBitVec.clz.toNat = zeros at *
  have hlog : n.log2 = 63 - zeros := by
    rw [Nat.log2_eq_iff hn]
    refine ⟨hlow, ?_⟩
    rwa [show 63 - zeros + 1 = 64 - zeros by omega]
  rw [hlog]
  omega

/-- No step of the computation of an address leaves the range of words. -/
theorem of?_eq (index : UInt64) : of? index = some (of index) := by
  have hlt := index.toNat_lt
  have hbefore := leaves_before_le index.toNat
  have hlog := log2_lt_64 hlt
  have toNat {n : ℕ} (h : n < 2 ^ 64) : (UInt64.ofNat n).toNat = n := by
    rw [UInt64.toNat_ofNat', Nat.mod_eq_of_lt h]
  -- Each intermediate result fits into a word of 64 bits, so no step of the computation wraps or breaks
  -- off.
  have hbiased : word? ((index >>> 5 / firstSegment).toNat + 1) =
      some (.ofNat (index.toNat / 256 + 1)) :=
    word?_of_lt (by rw [toNat_shiftRight_div]; omega) (by omega)
  have hsegment : word? (64 - 1 - leadingZeros (.ofNat (index.toNat / 256 + 1))) =
      some (.ofNat (index.toNat / 256 + 1).log2) :=
    word?_of_lt (leadingZeros_eq (Nat.succ_ne_zero _) (by omega)) (by omega)
  have hslot : (index &&& 31).toNat = index.toNat % 32 := toNat_slot index
  have hof := coordinates_of index
  generalize (index.toNat / 256 + 1).log2 = k at *
  have hpos : 0 < 2 ^ k := Nat.two_pow_pos k
  have hpow : 2 ^ k < 2 ^ 64 := Nat.pow_lt_pow_right (by decide) hlog
  have hpower : word? (2 ^ (UInt64.ofNat k).toNat : ℕ) = some (.ofNat (2 ^ k)) :=
    word?_of_lt (by rw [toNat (by omega)]) hpow
  have hless : word? ((UInt64.ofNat (2 ^ k)).toNat - 1) = some (.ofNat (2 ^ k - 1)) :=
    word?_of_lt (by rw [toNat hpow]; omega) (by omega)
  have hskipped : word? (firstSegment.toNat * (UInt64.ofNat (2 ^ k - 1)).toNat) =
      some (.ofNat (8 * (2 ^ k - 1))) :=
    word?_of_lt (by rw [toNat (by omega), Int.natCast_mul]; rfl) (by omega)
  have hleaf : word? ((index >>> 5).toNat - (UInt64.ofNat (8 * (2 ^ k - 1))).toNat) =
      some (.ofNat (index.toNat / 32 - 8 * (2 ^ k - 1))) :=
    word?_of_lt (by rw [toNat (by omega), toNat_shiftRight_five]; omega) (by omega)
  simp only [of?, Option.bind_eq_bind, Option.pure_def]
  rw [hbiased, Option.bind_some, hsegment, Option.bind_some, hpower, Option.bind_some, hless,
    Option.bind_some, hskipped, Option.bind_some, hleaf, Option.bind_some]
  refine congrArg some (coordinates_injective ?_)
  rw [hof, coordinates, toNat (by omega), toNat (by omega), hslot]

/-! ## The main result

All that others need to know of addresses.
-/

/-- A segment has as many leaves as are allocated for it. -/
theorem toNat_firstSegment_shiftLeft (index : UInt64) :
    (firstSegment <<< (of index).segment).toNat = 8 * 2 ^ (of index).segment.toNat := by
  have hbefore := leaves_before_le index.toNat
  have hlog := log2_lt_64 index.toNat_lt
  have hlt := index.toNat_lt
  rw [UInt64.toNat_shiftLeft, toNat_segment, Nat.mod_eq_of_lt hlog, Nat.shiftLeft_eq]
  generalize (index.toNat / 256 + 1).log2 = k at *
  exact Nat.mod_eq_of_lt (by show 8 * 2 ^ k < 2 ^ 64; omega)

/-- Indices and coordinates in bounds correspond to each other, one to one. -/
structure OneAddressEach : Prop where
  /-- The address of an index is computed without leaving the range of words. -/
  computed : ∀ index, of? index = some (of index)
  /-- Its coordinates are in bounds and lead back to the index, and no others do. -/
  unique : ∀ index k leaf slot, (of index).coordinates = (k, leaf, slot) ↔
    leaf < 8 * 2 ^ k ∧ slot < 32 ∧ index.toNat = 256 * (2 ^ k - 1) + 32 * leaf + slot
  /-- No two indices share a slot. -/
  injective : ∀ i j, of i = of j → i = j
  /-- Coordinates in bounds are those of an index, if their index is a word. -/
  onto : ∀ k leaf slot, leaf < 8 * 2 ^ k → slot < 32 →
    256 * (2 ^ k - 1) + 32 * leaf + slot < 2 ^ 64 → ∃ index, (of index).coordinates = (k, leaf, slot)
  /-- Later indices lie in the same segment or in later ones. -/
  ordered : ∀ i j, i ≤ j → (of i).segment ≤ (of j).segment
  /-- There is a segment for the indices below a bound, and for no others. -/
  bounded : ∀ index, (of index).segment.toNat < 26 ↔ index.toNat < 2 ^ 34 - 256
  /-- So there is one for the index of every key, in every table. -/
  interned : ∀ {α : Type} (t : SlotTable α), t.Sound → ∀ index : KeyIndex,
    (of index.toUInt64).segment.toNat < t.segments.length
  /-- The leaf of an index is one of those that are allocated with its segment. -/
  leaf : ∀ index, (of index).leaf < firstSegment <<< (of index).segment
  /-- Its slot is one of those that are allocated with the leaf. -/
  slot : ∀ {α : Type} (t : SlotTable α), t.Sound → ∀ index leaf, t.leaf? (of index) = some leaf →
    (of index).slot.toNat < leaf.length

theorem segment_le_segment {i j : UInt64} (h : i ≤ j) : (of i).segment ≤ (of j).segment := by
  rw [UInt64.le_iff_toNat_le, toNat_segment, toNat_segment, ← segmentStart_le_iff]
  exact (segmentStart_le_iff.mpr (Nat.le_refl _)).trans (UInt64.le_iff_toNat_le.mp h)

/-- **Each index has one address, and each address in bounds has one index.** -/
theorem one_address_each : OneAddressEach where
  computed := of?_eq
  unique _ _ _ _ := coordinates_eq_iff
  injective _ _ := of_injective
  onto k leaf slot hleaf hslot hlt := by
    refine ⟨.ofNat (256 * (2 ^ k - 1) + 32 * leaf + slot), coordinates_eq_iff.mpr ⟨hleaf, hslot, ?_⟩⟩
    rw [UInt64.toNat_ofNat', Nat.mod_eq_of_lt hlt]
  ordered _ _ := segment_le_segment
  bounded index := by
    rw [← addressable_iff, addressable, decide_eq_true_iff, segmentCount]
  interned t sound index := by
    rw [sound.segments]
    exact segment_lt (addressable_of_lt index.toNat_lt)
  leaf index := by
    rw [UInt64.lt_iff_toNat_lt, toNat_firstSegment_shiftLeft]
    exact (coordinates_eq_iff.mp rfl).1
  slot t sound index leaf there := by
    rw [sound.leaves _ _ there]
    exact slot_lt index

/-- The last index before the second segment, and the first one in it. -/
example : (of 255).coordinates = (0, 7, 31) ∧ (of 256).coordinates = (1, 0, 0) := by decide +kernel

end RequestGraph.Location
