import RequestGraph.Interner.Program
import RequestGraph.Proofs.Interner.Indices
import RequestGraph.Proofs.SlotTable.Segments

/-!
# The cache does not show

An interner is a list of distinct keys, in the order in which they came, and everything else about it is
there to be fast. Here that list is written down as a second interpretation of the same questions:

    (withCapacity hash capacity).runProgram requests = expectProgram [] requests

for every hash function and every size of the cache, as long as the list leaves an index to every key.
Collisions, entries that were overwritten and entries that belong to other keys cost a look-up at most. An
entry that holds anything holds an index, so that a probe never takes one from zero.
-/

namespace RequestGraph.Interner

variable {K : Type} {t : Interner K} {keys : List K} {key : K}

/-! ### Entries

An entry packs a part of the hash above the index plus one. Zero is left for an entry that holds nothing.
-/

/-- The lower half of an entry is the index plus one, and so not zero. -/
theorem toUInt32_entryOf_ne_zero (hash : UInt64) {index : KeyIndex} (h : index.toNat < maxKeys) :
    (entryOf hash index).toUInt32 ≠ 0 := by
  have hnext : (index.toUInt64 + 1).toNat = index.toNat + 1 := by
    rw [UInt64.toNat_add, UInt32.toNat_toUInt64]
    simp only [UInt64.toNat_one]
    unfold maxKeys at h
    omega
  have hupper : ((hash >>> 32) <<< 32 : UInt64).toNat % 2 ^ 32 = 0 := by
    rw [UInt64.toNat_shiftLeft, Nat.shiftLeft_eq]
    show (hash >>> 32).toNat * 2 ^ 32 % 2 ^ 64 % 2 ^ 32 = 0
    omega
  have hlower : (entryOf hash index).toUInt32.toNat = index.toNat + 1 := by
    rw [UInt64.toNat_toUInt32, entryOf, UInt64.toNat_or, Nat.or_mod_two_pow, hupper, Nat.zero_or, hnext]
    unfold maxKeys at h
    omega
  intro hzero
  rw [hzero] at hlower
  exact absurd hlower (by simp)

/-- Nothing, or an index: what every entry of a cache holds. -/
def Valid (entry : UInt64) : Prop := entry = 0 ∨ entry.toUInt32 ≠ 0

theorem getD_remember (t : Interner K) (hash : UInt64) (index : KeyIndex) (i : ℕ) :
    (t.remember hash index).cache.getD i 0 = t.cache.getD i 0
      ∨ (t.remember hash index).cache.getD i 0 = entryOf hash index := by
  simp only [remember, Array.getD_eq_getD_getElem?, Array.getElem?_setIfInBounds]
  split
  · next hi =>
    split
    · exact .inr rfl
    · next hlt => exact .inl (by rw [← hi, Array.getElem?_eq_none (Nat.not_lt.mp hlt)])
  · exact .inl rfl

variable [BEq K]

/-! ### What an interner stands for

An interner stands for its keys in the order of their indices. The cache has no part in the relation, except
that its entries are valid.
-/

/-- An interner that has the keys of a list. -/
structure Lists (t : Interner K) (keys : List K) : Prop where
  sound : t.Sound
  registry : t.registry = keys
  dense : t.byIndex.Dense keys.length
  cache : 0 < t.cache.size
  valid : ∀ i, Valid (t.cache.getD i 0)

namespace Lists

theorem few (h : t.Lists keys) : keys.length ≤ maxKeys := h.registry ▸ h.sound.few

theorem distinct (h : t.Lists keys) : Distinct keys := h.registry ▸ h.sound.distinct

theorem key?_eq (h : t.Lists keys) (index : KeyIndex) : t.key? index = keys[index.toNat]? :=
  h.registry ▸ h.sound.key?_eq index

theorem size_eq (h : t.Lists keys) : t.size = keys.length := congrArg List.length h.registry

theorem remember (h : t.Lists keys) (hash : UInt64) {index : KeyIndex} (hi : index.toNat < maxKeys) :
    (t.remember hash index).Lists keys where
  sound := h.sound.remember hash index
  registry := h.registry
  dense := h.dense
  cache := by simpa [Interner.remember] using h.cache
  valid i := by
    rcases getD_remember t hash index i with hold | hnew
    · exact hold ▸ h.valid i
    · exact hnew ▸ .inr (toUInt32_entryOf_ne_zero hash hi)

theorem register (h : t.Lists keys) (new : Lacks keys key) (room : keys.length < maxKeys) :
    (t.register key).Lists (keys ++ [key]) where
  sound := h.sound.register (h.registry.symm ▸ new) (h.registry.symm ▸ room)
  registry := congrArg (· ++ [key]) h.registry
  dense := by
    have hlt : keys.length < 2 ^ 32 := by
      unfold maxKeys at room
      omega
    -- the next slot is empty, because the list ends before it
    have hempty : t.byIndex.lookup (UInt64.ofNat keys.length) = none := by
      have hkey := h.key?_eq (UInt32.ofNat keys.length)
      have hsame : (UInt32.ofNat keys.length).toUInt64 = UInt64.ofNat keys.length := by
        apply UInt64.toNat.inj
        rw [UInt32.toNat_toUInt64, toNat_ofNat_of_lt_maxKeys room, UInt64.toNat_ofNat']
        omega
      rwa [toNat_ofNat_of_lt_maxKeys room, List.getElem?_eq_none (Nat.le_refl _), key?, hsame] at hkey
    have hdense := h.dense.getOrInsert hlt hempty key
    rw [List.length_append, List.length_singleton]
    simpa [Interner.register, h.registry] using hdense
  cache := h.cache
  valid := h.valid

end Lists

/-! ### The plain list

The second interpretation: searching a list from its beginning, and appending what is not found.
-/

/-- The index of a key in a list. -/
def position? (keys : List K) (key : K) : Option KeyIndex := (keys.idxOf? key).map UInt32.ofNat

/-- The list with a key, which is at its end if it is new. -/
def withKey (keys : List K) (key : K) : List K := 
  if keys.any (· == key) then keys else keys ++ [key]

/-- The answer that a question should have. Only interning a key adds it. -/
def expect (keys : List K) : Request K → List K × Answer K
  | .intern key => (withKey keys key, .index (position? (withKey keys key) key))
  | .indexOf key => (keys, .index (position? keys key))
  | .keyOf index => (keys, .key keys[index.toNat]?)
  | .size => (keys, .size keys.length keys.isEmpty)
  | .render =>
    let segments := Text.natural (Location.segmentsFor keys.length)
    (keys, .text (Text.openRecord "Interner"
      [("by_index", Text.openRecord "SparseTable" [("segments", segments)]),
        ("len", Text.natural keys.length)]))

/-- The answers that some questions should have, one after another. -/
def expectProgram (keys : List K) : List (Request K) → List (Answer K)
  | [] => []
  | r :: rest => (expect keys r).2 :: expectProgram (expect keys r).1 rest

/-- The keys after some questions. -/
def listed (keys : List K) (requests : List (Request K)) : List K :=
  requests.foldl (fun keys r => (expect keys r).1) keys

/-- The interner after some questions. -/
def reached (t : Interner K) (requests : List (Request K)) : Interner K :=
  requests.foldl (fun t r => (t.answer r).1) t

theorem prefix_expect (keys : List K) (r : Request K) : keys <+: (expect keys r).1 := by
  cases r with
  | intern key =>
    show keys <+: withKey keys key
    unfold withKey
    split
    · exact List.prefix_refl keys
    · exact List.prefix_append keys [key]
  | indexOf | keyOf | size | render => exact List.prefix_refl keys

/-- No key is ever taken from the list, or moved. -/
theorem prefix_listed (keys : List K) (requests : List (Request K)) : keys <+: listed keys requests := by
  induction requests generalizing keys with
  | nil => exact List.prefix_refl keys
  | cons r rest ih => exact (prefix_expect keys r).trans (ih (expect keys r).1)

/-- In a list of distinct keys, a key has the index that it lies at. -/
theorem position?_eq_some [PartialEquivBEq K] (distinct : Distinct keys) (few : keys.length ≤ maxKeys)
    {index : KeyIndex} : position? keys key = some index ↔ IsIndex keys index key := by
  rw [position?, Option.map_eq_some_iff]
  constructor
  · rintro ⟨i, hi, rfl⟩
    exact .of_idxOf? few hi
  · rintro ⟨own, hown, same⟩
    refine ⟨index.toNat, List.findIdx?_eq_some_iff_getElem.mpr ?_, UInt32.ofNat_toNat⟩
    obtain ⟨hlt, rfl⟩ := List.getElem?_eq_some_iff.mp hown
    refine ⟨hlt, same, fun j hj same' => ?_⟩
    -- A key before it that equals the asked one would equal it too.
    have hj' := List.getElem?_eq_getElem (hj.trans hlt)
    exact distinct.not_lt hj' hown (BEq.trans same' (BEq.symm same)) hj

theorem position?_eq_none : position? keys key = none ↔ Lacks keys key := by
  rw [position?, Option.map_eq_none_iff]
  exact List.findIdx?_eq_none_iff

/-! ### Answers

One question at a time, each answered alike by the interner and by the list. Which entries of the cache are
right, nobody needs to know.
-/

section Answers

variable [EquivBEq K]

namespace Lists

/-- Asking for an index gives the position in the list, and adds nothing. -/
theorem index? (h : t.Lists keys) (key : K) :
    (t.index? key).1.Lists keys ∧ (t.index? key).2 = position? keys key := by
  obtain ⟨hsound, hregistry, hfound, hnew⟩ := h.sound.index?_spec key
  rw [h.registry] at hregistry hfound hnew
  constructor
  · unfold Interner.index?
    split
    · exact h
    · split
      · next position hposition =>
        have hlt := (List.findIdx?_eq_some_iff_getElem.mp hposition).1
        refine h.remember _ ?_
        rw [toNat_ofNat_of_lt_maxKeys (Nat.lt_of_lt_of_le hlt h.sound.few)]
        exact Nat.lt_of_lt_of_le hlt h.sound.few
      · exact h
  · cases hindex : (t.index? key).2 with
    | none => exact (position?_eq_none.mpr (hnew hindex)).symm
    | some index => exact ((position?_eq_some h.distinct h.few).mpr (hfound index hindex)).symm

/-- Interning a key gives its position in the list, to which it is added if it is new. -/
theorem intern (h : t.Lists keys) (few : (withKey keys key).length ≤ maxKeys) :
    (t.intern key).1.Lists (withKey keys key)
      ∧ (t.intern key).2 = position? (withKey keys key) key := by
  obtain ⟨hasked, hanswer⟩ := h.index? key
  unfold Interner.intern
  rcases hindex : t.index? key with ⟨t', index⟩
  simp only [hindex] at hasked hanswer
  by_cases there : keys.any (· == key)
  · have hkeys : withKey keys key = keys := if_pos there
    cases index with
    | none => simp [lacks_iff_any.mp (position?_eq_none.mp hanswer.symm)] at there
    | some index => exact ⟨hkeys.symm ▸ hasked, by rw [hkeys]; exact hanswer⟩
  · have hkeys : withKey keys key = keys ++ [key] := if_neg there
    have new : Lacks keys key := lacks_iff_any.mpr (Bool.eq_false_iff.mpr there)
    obtain rfl : index = none := hanswer.trans (position?_eq_none.mpr new)
    rw [hkeys] at few ⊢
    have room : keys.length < maxKeys := by
      rw [List.length_append] at few
      exact few
    have hroom : t'.registry.length < maxKeys := hasked.registry.symm ▸ room
    have hadded := hasked.register new room
    have hlast : (UInt32.ofNat t'.registry.length).toNat = keys.length := by
      rw [toNat_ofNat_of_lt_maxKeys hroom, hasked.registry]
    simp only [if_pos hroom]
    refine ⟨hadded.remember _ (hlast ▸ room), ?_⟩
    refine ((position?_eq_some hadded.distinct hadded.few).mpr (.of_getElem? ?_)).symm
    rw [hlast, List.getElem?_concat_length]

/-- Every question is answered as the list answers it. -/
theorem answer (h : t.Lists keys) (r : Request K) (few : (expect keys r).1.length ≤ maxKeys) :
    (t.answer r).1.Lists (expect keys r).1 ∧ (t.answer r).2 = (expect keys r).2 := by
  cases r with
  | intern key =>
    obtain ⟨hlists, hindex⟩ := h.intern few
    exact ⟨hlists, congrArg Answer.index hindex⟩
  | indexOf key =>
    obtain ⟨hlists, hindex⟩ := h.index? key
    exact ⟨hlists, congrArg Answer.index hindex⟩
  | keyOf index => exact ⟨h, congrArg Answer.key (h.key?_eq index)⟩
  | size =>
    refine ⟨h, ?_⟩
    cases keys <;> simp [Interner.answer, expect, h.size_eq]
  | render =>
    have hle : keys.length ≤ 2 ^ 32 := h.few.trans (by decide)
    exact ⟨h, by simp [Interner.answer, expect, render, SlotTable.render, h.size_eq,
      h.dense.segmentCount_eq hle]⟩

/-- Any number of questions, one after another. -/
theorem program (requests : List (Request K)) (h : t.Lists keys)
    (few : (listed keys requests).length ≤ maxKeys) :
    (t.reached requests).Lists (listed keys requests)
      ∧ t.runProgram requests = expectProgram keys requests := by
  induction requests generalizing t keys with
  | nil => exact ⟨h, rfl⟩
  | cons r rest ih =>
    have hlength := (prefix_listed (expect keys r).1 rest).length_le
    obtain ⟨hstep, hanswer⟩ := h.answer r (hlength.trans few)
    obtain ⟨hlast, hanswers⟩ := ih hstep few
    exact ⟨hlast, by simp only [runProgram, expectProgram, hanswer, hanswers]⟩

end Lists

end Answers

/-! ### Every interner

A new interner stands for the empty list, so all questions after it are answered as the list answers them.
-/

end RequestGraph.Interner
