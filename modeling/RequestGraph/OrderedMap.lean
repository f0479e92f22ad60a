/-!
# Maps in order of insertion

A map that remembers in which order its keys first came. Putting a key that is there already replaces
its value where it stands, so the order is that of first insertion:

    get? (insert m k v) k' = if k = k' then some v else get? m k'
    keys (insert m k v)    = keys m             if k is there already
    keys (insert m k v)    = keys m ++ [k]      otherwise
-/

namespace RequestGraph

/-- Keys and their values, in the order in which the keys first came. -/
structure OrderedMap (K V : Type) where
  /-- The pairs, first inserted first. -/
  entries : List (K × V) := []
deriving Repr, DecidableEq

namespace OrderedMap

variable {K V : Type}

instance : Inhabited (OrderedMap K V) := ⟨{}⟩

/-- The keys, in order. -/
def keys (m : OrderedMap K V) : List K := m.entries.map Prod.fst

/-- The number of keys. -/
def size (m : OrderedMap K V) : Nat := m.entries.length

/-- Whether there is no key. -/
def isEmpty (m : OrderedMap K V) : Bool := m.entries.isEmpty

variable [DecidableEq K]

/-- The value of a key among pairs. -/
def find (k : K) : List (K × V) → Option V
  | [] => none
  | e :: es => if e.1 = k then some e.2 else find k es

/-- The pairs with a value put under a key: in place if the key is there, at the end otherwise. -/
def put (k : K) (v : V) : List (K × V) → List (K × V)
  | [] => [(k, v)]
  | e :: es => if e.1 = k then (k, v) :: es else e :: put k v es

/-- The value of a key. -/
def get? (m : OrderedMap K V) (k : K) : Option V := find k m.entries

/-- Whether a key has a value. -/
def contains (m : OrderedMap K V) (k : K) : Bool := (m.get? k).isSome

/-- Puts a value under a key. -/
def insert (m : OrderedMap K V) (k : K) (v : V) : OrderedMap K V := ⟨put k v m.entries⟩

/-- The map that the pairs give when they are inserted one after another. -/
def ofList (es : List (K × V)) : OrderedMap K V :=
  es.foldl (fun m e => m.insert e.1 e.2) {}

/-! ### What insertion does to look-up and to the order of keys -/

/-- Looking up after an insertion, in the list of entries. -/
theorem find_put (k k' : K) (v : V) :
    ∀ es : List (K × V), find k' (put k v es) = if k = k' then some v else find k' es
  | [] => by simp [put, find]
  | e :: es => by
    by_cases h : e.1 = k
    · by_cases h' : k = k' <;> simp_all [put, find]
    · have ih := find_put k k' v es
      by_cases h' : e.1 = k'
      · have hne : k ≠ k' := fun hk => h (h'.trans hk.symm)
        simp only [put, if_neg h, find, if_pos h', if_neg hne]
      · simp only [put, if_neg h, find, if_neg h', ih]

/-- The key that was inserted has the new value, and the others keep theirs. -/
@[simp] theorem get?_insert (m : OrderedMap K V) (k k' : K) (v : V) :
    (m.insert k v).get? k' = if k = k' then some v else m.get? k' :=
  find_put k k' v m.entries

/-- An insertion replaces in place, or it appends: the order of the keys is that of their first insertion.
-/
theorem map_fst_put (k : K) (v : V) :
    ∀ es : List (K × V),
      (put k v es).map Prod.fst
        = if k ∈ es.map Prod.fst then es.map Prod.fst else es.map Prod.fst ++ [k]
  | [] => by simp [put]
  | e :: es => by
    by_cases h : e.1 = k
    · simp [put, h]
    · have h' : k ≠ e.1 := fun hk => h hk.symm
      have ih := map_fst_put k v es
      simp only [put, h, if_false, List.map_cons, ih, List.mem_cons, h', false_or]
      split <;> simp

/-- The keys after an insertion: a new one comes last. -/
theorem keys_insert (m : OrderedMap K V) (k : K) (v : V) :
    (m.insert k v).keys = if k ∈ m.keys then m.keys else m.keys ++ [k] :=
  map_fst_put k v m.entries

end OrderedMap

end RequestGraph
