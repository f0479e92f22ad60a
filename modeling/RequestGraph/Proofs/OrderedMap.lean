import Mathlib.Data.List.Nodup
import RequestGraph.OrderedMap

/-!
# Merging maps

A map never has a key twice, so it is a list of pairs whose keys are distinct. Putting another such list into
it, pair by pair, replaces values where their keys are, and adds the pairs whose keys are new in their order:

    entries (ofList (xs ++ ys))  =  (xs, each with the value that ys has for its key, if it has one)
                                      ++ (those of ys whose keys are not in xs)
-/

namespace RequestGraph.OrderedMap

variable {K V : Type} [DecidableEq K] {k : K} {v : V} {es xs ys : List (K × V)}

/-! ## Looking for a key among pairs

The pairs of a map have distinct keys. Then it does not matter that a search stops at the first pair with
the key.
-/

theorem mem_of_find (h : find k es = some v) : (k, v) ∈ es := by
  induction es with
  | nil => cases h
  | cons e es ih =>
    rw [find] at h
    split at h
    · next heq =>
      cases h
      rw [← heq]
      exact List.mem_cons_self
    · exact List.mem_cons_of_mem _ (ih h)

theorem find_eq_none_iff : find k es = none ↔ k ∉ es.map Prod.fst := by
  induction es with
  | nil => simp [find]
  | cons e es ih =>
    rw [find, List.map_cons, List.mem_cons, not_or]
    split
    · next heq => simp [heq]
    · next hne =>
      rw [ih]
      exact (and_iff_right fun heq => hne heq.symm).symm

/-- Of pairs whose keys are distinct, the one that is found is the only one with its key. -/
theorem find_eq_some_iff (distinct : (es.map Prod.fst).Nodup) :
    find k es = some v ↔ (k, v) ∈ es := by
  refine ⟨mem_of_find, fun there => ?_⟩
  cases hfind : find k es with
  | none => exact absurd (List.mem_map_of_mem (f := Prod.fst) there) (find_eq_none_iff.mp hfind)
  | some v' =>
    have heq := List.inj_on_of_nodup_map distinct (mem_of_find hfind) there rfl
    rw [(Prod.mk.inj heq).2]

omit [DecidableEq K] in
/-- Pairs of which some are left out, and the values of the others changed, have some of the keys. -/
theorem keys_filterMap_sublist {V' : Type} (f : V → Option V') (es : List (K × V)) :
    ((es.filterMap fun e => (f e.2).map fun v => (e.1, v)).map Prod.fst).Sublist
      (es.map Prod.fst) := by
  induction es with
  | nil => exact .slnil
  | cons e es ih =>
    cases hf : f e.2 with
    | none =>
      rw [List.filterMap_cons_none (by rw [hf]; rfl)]
      exact ih.cons e.1
    | some v =>
      rw [List.filterMap_cons_some (by rw [hf]; rfl)]
      exact ih.cons_cons e.1

theorem find_filterMap {V' : Type} (f : V → Option V') (distinct : (es.map Prod.fst).Nodup) :
    find k (es.filterMap fun e => (f e.2).map fun v => (e.1, v)) = (find k es).bind f := by
  apply Option.ext
  intro v
  rw [find_eq_some_iff (distinct.sublist (keys_filterMap_sublist f es)), List.mem_filterMap,
    Option.bind_eq_some_iff]
  constructor
  · rintro ⟨e, he, hf⟩
    obtain ⟨_, hv, heq⟩ := Option.map_eq_some_iff.mp hf
    cases heq
    exact ⟨e.2, (find_eq_some_iff distinct).mpr he, hv⟩
  · rintro ⟨u, hu, hf⟩
    exact ⟨(k, u), mem_of_find hu, by rw [hf]; rfl⟩

/-- Looking for a key among pairs that are made from a list is looking for the first that is made with the key. -/
theorem find_filterMap_eq_findSome? {α : Type} (f : α → Option (K × V)) (l : List α) :
    find k (l.filterMap f) = l.findSome? fun a => (f a).bind fun e => if e.1 = k then some e.2 else none := by
  induction l with
  | nil => rfl
  | cons a l ih =>
    rw [List.findSome?_cons, ← ih]
    cases hf : f a with
    | none =>
      rw [List.filterMap_cons_none hf]
      rfl
    | some e =>
      rw [List.filterMap_cons_some hf, find]
      by_cases same : e.1 = k <;> simp [same]

/-! ## Putting one pair

A pair whose key is there replaces the value in its place, and any other pair comes last.
-/

theorem put_of_not_mem (new : k ∉ es.map Prod.fst) : put k v es = es ++ [(k, v)] := by
  induction es with
  | nil => rfl
  | cons e es ih =>
    rw [List.map_cons, List.mem_cons, not_or] at new
    rw [put, if_neg fun h => new.1 h.symm, ih new.2, List.cons_append]

theorem put_of_mem (distinct : (es.map Prod.fst).Nodup) (there : k ∈ es.map Prod.fst) :
    put k v es = es.map fun e => (e.1, if e.1 = k then v else e.2) := by
  induction es with
  | nil => cases there
  | cons e es ih =>
    rw [List.map_cons, List.nodup_cons] at distinct
    rw [List.map_cons, List.mem_cons] at there
    rw [put, List.map_cons]
    split
    · next heq =>
      -- None of the pairs after this one has the key.
      rw [heq]
      congr 1
      refine (List.map_id' es).symm.trans (List.map_congr_left fun e' he' => ?_)
      rw [if_neg]
      rintro rfl
      exact distinct.1 (heq ▸ List.mem_map_of_mem (f := Prod.fst) he')
    · next hne => rw [ih distinct.2 (there.resolve_left fun heq => hne heq.symm)]

/-- No key comes in twice. -/
theorem nodup_keys_insert {m : OrderedMap K V} (distinct : m.keys.Nodup) (k : K) (v : V) :
    (m.insert k v).keys.Nodup := by
  rw [keys_insert]
  split
  · exact distinct
  · next new =>
    rw [← List.concat_eq_append]
    exact distinct.concat new

theorem nodup_keys_foldl_insert (es : List (K × V)) {m : OrderedMap K V} (distinct : m.keys.Nodup) :
    (es.foldl (fun m e => m.insert e.1 e.2) m).keys.Nodup := by
  induction es generalizing m with
  | nil => exact distinct
  | cons e es ih => exact ih (nodup_keys_insert distinct e.1 e.2)

/-- A map has no key twice, whatever it was made from. -/
theorem nodup_keys_ofList (es : List (K × V)) : (ofList es).keys.Nodup :=
  nodup_keys_foldl_insert es List.nodup_nil

/-! ## Putting a list of pairs

Pairs are put one after another, so the last value for a key counts, in the place where the key was first.
-/

/-- A map into which pairs with distinct keys are put. -/
theorem entries_foldl_insert {m : OrderedMap K V} (distinct : m.keys.Nodup)
    (hys : (ys.map Prod.fst).Nodup) :
    (ys.foldl (fun m e => m.insert e.1 e.2) m).entries =
      m.entries.map (fun e => (e.1, (find e.1 ys).getD e.2)) ++
        ys.filter (fun e => e.1 ∉ m.keys) := by
  induction ys generalizing m with
  | nil => simp [find]
  | cons y ys ih =>
    rw [List.map_cons, List.nodup_cons] at hys
    -- The key of the pair that is put does not come up again.
    have gone : find y.1 ys = none := find_eq_none_iff.mpr hys.1
    rw [List.foldl_cons, ih (nodup_keys_insert distinct y.1 y.2) hys.2]
    by_cases there : y.1 ∈ m.keys
    · have entries : (m.insert y.1 y.2).entries =
          m.entries.map fun e => (e.1, if e.1 = y.1 then y.2 else e.2) := put_of_mem distinct there
      have keys : (m.insert y.1 y.2).keys = m.keys := by rw [keys_insert, if_pos there]
      rw [entries, keys, List.map_map, List.filter_cons_of_neg (by simpa using there)]
      congr 1
      refine List.map_congr_left fun e _ => ?_
      rw [Function.comp_apply, find]
      by_cases heq : e.1 = y.1
      · rw [if_pos heq, if_pos heq.symm, heq, gone]
        rfl
      · rw [if_neg heq, if_neg (Ne.symm heq)]
    · have entries : (m.insert y.1 y.2).entries = m.entries ++ [(y.1, y.2)] := put_of_not_mem there
      have keys : (m.insert y.1 y.2).keys = m.keys ++ [y.1] := by rw [keys_insert, if_neg there]
      rw [entries, keys, List.map_append, List.map_singleton, gone, List.append_assoc,
        List.filter_cons_of_pos (by simpa using there)]
      congr 1
      · refine List.map_congr_left fun e he => ?_
        rw [find, if_neg]
        rintro heq
        exact there (heq ▸ List.mem_map_of_mem (f := Prod.fst) he)
      · rw [List.singleton_append, Option.getD_none]
        congr 1
        refine List.filter_congr fun e he => ?_
        have hne : e.1 ≠ y.1 := fun heq => hys.1 (heq ▸ List.mem_map_of_mem (f := Prod.fst) he)
        simp [hne]

/-- Of two lists of pairs, each with distinct keys, the second has the last word. -/
theorem entries_ofList_append (hxs : (xs.map Prod.fst).Nodup) (hys : (ys.map Prod.fst).Nodup) :
    (ofList (xs ++ ys)).entries =
      xs.map (fun e => (e.1, (find e.1 ys).getD e.2)) ++
        ys.filter (fun e => e.1 ∉ xs.map Prod.fst) := by
  have hofList : (ofList xs).entries = xs := by
    have h := entries_foldl_insert (m := {}) List.nodup_nil hxs
    have hall : xs.filter (fun e => e.1 ∉ (({} : OrderedMap K V)).keys) = xs :=
      List.filter_eq_self.mpr fun e _ => by simp [keys]
    rw [hall] at h
    exact h
  have hkeys : (ofList xs).keys = xs.map Prod.fst := congrArg (List.map Prod.fst) hofList
  rw [ofList, List.foldl_append, ← ofList,
    entries_foldl_insert (nodup_keys_ofList xs) hys, hofList, hkeys]

theorem get?_foldl_insert_of_nodup (m : OrderedMap K V) (hys : (ys.map Prod.fst).Nodup) :
    (ys.foldl (fun m e => m.insert e.1 e.2) m).get? k = (find k ys).or (m.get? k) := by
  induction ys generalizing m with
  | nil => rfl
  | cons y ys ih =>
    rw [List.map_cons, List.nodup_cons] at hys
    rw [List.foldl_cons, ih _ hys.2, get?_insert, find]
    split
    · next heq =>
      rw [← heq, find_eq_none_iff.mpr hys.1]
      rfl
    · rfl

/-- What was put last is found first. -/
theorem get?_ofList_append_of_nodup (hxs : (xs.map Prod.fst).Nodup)
    (hys : (ys.map Prod.fst).Nodup) :
    (ofList (xs ++ ys)).get? k = (find k ys).or (find k xs) := by
  rw [ofList, List.foldl_append, get?_foldl_insert_of_nodup _ hys, get?_foldl_insert_of_nodup _ hxs]
  exact congrArg _ (Option.or_none)

end RequestGraph.OrderedMap
