/-!
# Arenas

Things that are created and never go away: each is reached by the number it was given when it was
allocated, and numbers are handed out from zero upwards. A number that was never handed out reads as
a blank thing, and changing it changes nothing.
-/

namespace RequestGraph

/-- Everything allocated so far, in order of allocation. -/
structure Arena (α : Type) where
  /-- The things themselves; the number of each is its position. -/
  items : Array α := #[]

namespace Arena

variable {α : Type}

instance : Inhabited (Arena α) := ⟨{}⟩

/-- How many things have been allocated; the number that the next one gets. -/
def size (a : Arena α) : Nat := a.items.size

/-- Allocates a thing. -/
def push (a : Arena α) (x : α) : Arena α := ⟨a.items.push x⟩

/-- The thing of a number. -/
def get [Inhabited α] (a : Arena α) (i : Nat) : α := a.items[i]?.getD default

/-- Changes the thing of a number. -/
def modify (a : Arena α) (i : Nat) (f : α → α) : Arena α := ⟨a.items.modify i f⟩

/-- Replaces the thing of a number. -/
def set (a : Arena α) (i : Nat) (x : α) : Arena α := a.modify i fun _ => x

/-! ### Reading after writing -/

@[simp] theorem size_push (a : Arena α) (x : α) : (a.push x).size = a.size + 1 := by
  simp [size, push]

@[simp] theorem size_modify (a : Arena α) (i : Nat) (f : α → α) : (a.modify i f).size = a.size := by
  simp [size, modify]

@[simp] theorem size_set (a : Arena α) (i : Nat) (x : α) : (a.set i x).size = a.size :=
  size_modify a i _

/-- Writing out of bounds changes nothing. -/
theorem set_of_size_le (a : Arena α) {i : Nat} (h : a.size ≤ i) (x : α) : a.set i x = a := by
  have hlist : a.items.toList.modify i (fun _ => x) = a.items.toList := List.modify_eq_self h
  rw [← Array.toList_modify] at hlist
  rw [set, modify, Array.toList_inj.mp hlist]

/-- Of two changes of one thing, the later one counts. -/
@[simp] theorem set_set (a : Arena α) (i : Nat) (x y : α) : (a.set i x).set i y = a.set i y := by
  simp only [set, modify, mk.injEq]
  apply Array.ext (by simp)
  intro j hj hj'
  rw [Array.getElem_modify, Array.getElem_modify, Array.getElem_modify]
  split <;> rfl

@[simp] theorem set_push (a : Arena α) (x y : α) : (a.push x).set a.size y = a.push y := by
  simp only [set, modify, push, size, mk.injEq]
  apply Array.ext (by simp)
  intro j hj hj'
  rw [Array.getElem_modify, Array.getElem_push, Array.getElem_push]
  simp only [Array.size_modify, Array.size_push] at hj
  split
  · next h => rw [dif_neg (by omega)]
  · next h => rw [dif_pos (by omega), dif_pos (by omega)]

variable [Inhabited α]

@[simp] theorem get_push_size (a : Arena α) (x : α) : (a.push x).get a.size = x := by
  simp [get, push, size]

/-- What was there is not touched by an addition. -/
theorem get_push_of_ne (a : Arena α) (x : α) {i : Nat} (h : i ≠ a.size) :
    (a.push x).get i = a.get i := by
  have h' : i ≠ a.items.size := h
  simp [get, push, Array.getElem?_push, h']

/-- Out of bounds the default is read. -/
theorem get_of_size_le (a : Arena α) {i : Nat} (h : a.size ≤ i) : a.get i = default := by
  have h' : a.items.size ≤ i := h
  simp [get, h']

theorem get_modify_of_ne (a : Arena α) {i j : Nat} (f : α → α) (h : i ≠ j) :
    (a.modify i f).get j = a.get j := by
  simp [get, modify, Array.getElem?_modify, h]

theorem get_modify_self (a : Arena α) {i : Nat} (f : α → α) (h : i < a.size) :
    (a.modify i f).get i = f (a.get i) := by
  have h' : i < a.items.size := h
  simp [get, modify, h', Array.getElem_modify_self]

/-- Reading after a change in place. -/
theorem get_modify (a : Arena α) (i j : Nat) (f : α → α) :
    (a.modify i f).get j = if i = j ∧ i < a.size then f (a.get j) else a.get j := by
  by_cases hij : i = j
  · subst hij
    by_cases hi : i < a.size
    · rw [if_pos ⟨rfl, hi⟩]
      exact get_modify_self a f hi
    · rw [if_neg fun h => hi h.2, get_of_size_le _ (by rw [size_modify]; omega),
        get_of_size_le _ (by omega)]
  · rw [if_neg fun h => hij h.1]
    exact get_modify_of_ne a f hij

/-- Reading after writing. -/
theorem get_set (a : Arena α) (i j : Nat) (x : α) :
    (a.set i x).get j = if i = j ∧ i < a.size then x else a.get j := get_modify a i j _

theorem get_set_self {a : Arena α} {i : Nat} {x : α} (h : i < a.size) : (a.set i x).get i = x :=
  get_modify_self a _ h

theorem get_set_of_ne {a : Arena α} {i j : Nat} {x : α} (h : i ≠ j) : (a.set i x).get j = a.get j :=
  get_modify_of_ne a _ h

/-- Reading after an addition. -/
theorem get_push (a : Arena α) (x : α) (i : Nat) :
    (a.push x).get i = if i = a.size then x else a.get i := by
  by_cases h : i = a.size
  · rw [if_pos h, h, get_push_size]
  · rw [if_neg h, get_push_of_ne a x h]

/-- Writing back what was read changes nothing. -/
@[simp] theorem set_get_self (a : Arena α) (i : Nat) : a.set i (a.get i) = a := by
  obtain ⟨items⟩ := a
  simp only [set, modify, get, mk.injEq]
  apply Array.ext (by simp)
  intro j hj hj'
  rw [Array.getElem_modify]
  split
  · next h => subst h; simp [hj']
  · rfl

end Arena

end RequestGraph
