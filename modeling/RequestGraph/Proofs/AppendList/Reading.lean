import RequestGraph.AppendList.Cursor
import RequestGraph.Proofs.AppendList.Shape

/-!
# Reading append-only lists

A cursor stands before the items that are `ahead` of it. Moving it on takes the first of these, so that
a cursor at the front, moved on as often as there are slots, reads the whole list.

    l.read? = some l.toList     if l is frozen and its freeze is through with every slot
-/

namespace RequestGraph

variable {α : Type}

/-- Looking for a full slot finds the first item and where to go on, or there is none. -/
theorem Slot.firstFull_eq (slots : List (Slot α)) (i : Nat) :
    Slot.firstFull slots i = none ∧ slots.filterMap Slot.item? = []
      ∨ ∃ a j, Slot.firstFull slots i = some (a, i + j) ∧ 0 < j
        ∧ slots.filterMap Slot.item? = a :: (slots.drop j).filterMap Slot.item? := by
  induction slots generalizing i with
  | nil => exact .inl ⟨rfl, rfl⟩
  | cons s slots ih =>
    have skip (h : s.item? = none) (hf : Slot.firstFull (s :: slots) i = Slot.firstFull slots (i + 1)) :
        Slot.firstFull (s :: slots) i = none ∧ (s :: slots).filterMap Slot.item? = []
          ∨ ∃ a j, Slot.firstFull (s :: slots) i = some (a, i + j) ∧ 0 < j
            ∧ (s :: slots).filterMap Slot.item?
              = a :: ((s :: slots).drop j).filterMap Slot.item? := by
      rw [hf, List.filterMap_cons, h]
      rcases ih (i + 1) with ⟨hnone, hnil⟩ | ⟨a, j, hsome, hj, hcons⟩
      · exact .inl ⟨hnone, hnil⟩
      · refine .inr ⟨a, j + 1, ?_, by omega, ?_⟩
        · rw [hsome, Nat.add_right_comm, Nat.add_assoc]
        · rw [List.drop_succ_cons]
          exact hcons
    cases s with
    | full a => exact .inr ⟨a, 1, rfl, by omega, rfl⟩
    | empty => exact skip rfl rfl
    | shut => exact skip rfl rfl
    | taken => exact skip rfl rfl

namespace Chunk

/-- The items of a chunk at or after a slot. -/
def itemsFrom (c : Chunk α) (slot : Nat) : List α :=
  ((c.slots.take c.filled).drop slot).filterMap Slot.item?

@[simp] theorem itemsFrom_zero (c : Chunk α) : c.itemsFrom 0 = c.items := rfl

/-- The same for the slots of one chunk, from a given one on. -/
theorem next?_eq (c : Chunk α) (slot : Nat) :
    c.next? slot = none ∧ c.itemsFrom slot = []
      ∨ ∃ a slot', c.next? slot = some (a, slot') ∧ c.itemsFrom slot = a :: c.itemsFrom slot' := by
  rcases Slot.firstFull_eq ((c.slots.take c.filled).drop slot) slot with h | ⟨a, j, hf, -, hi⟩
  · exact .inl h
  · refine .inr ⟨a, slot + j, hf, ?_⟩
    rw [itemsFrom, hi, List.drop_drop, itemsFrom]

end Chunk

namespace Cursor

/-- What lies before a cursor at a slot of the first chunk of the rest of a chain. -/
def aheadIn (rest : List (Chunk α)) (slot : Nat) : List α :=
  match rest with
  | [] => []
  | c :: rest => c.itemsFrom slot ++ rest.flatMap Chunk.items

/-- What lies before a cursor. -/
def ahead (l : AppendList α) (cursor : Cursor) : List α :=
  aheadIn (l.chunks.drop cursor.chunk) cursor.slot

theorem aheadIn_zero (rest : List (Chunk α)) : aheadIn rest 0 = rest.flatMap Chunk.items := by
  cases rest <;> rfl

/-- The same over the chunks: a cursor that finds nothing here goes on in the next chunk. -/
theorem advance_eq (chunks rest : List (Chunk α)) (chunk slot : Nat)
    (h : chunks.drop chunk = rest) :
    (∃ cursor, advance rest chunk slot = (none, cursor)) ∧ aheadIn rest slot = []
      ∨ ∃ a cursor, advance rest chunk slot = (some a, cursor)
        ∧ aheadIn rest slot = a :: aheadIn (chunks.drop cursor.chunk) cursor.slot := by
  induction rest generalizing chunk slot with
  | nil => exact .inl ⟨⟨_, rfl⟩, rfl⟩
  | cons c rest ih =>
    have htail : chunks.drop (chunk + 1) = rest := by
      rw [← List.drop_drop, h, List.drop_succ_cons, List.drop_zero]
    rcases c.next?_eq slot with ⟨hnone, hnil⟩ | ⟨a, slot', hsome, hcons⟩
    · have hstep : advance (c :: rest) chunk slot = advance rest (chunk + 1) 0 := by
        rw [advance, hnone]
      have hahead : aheadIn (c :: rest) slot = aheadIn rest 0 := by
        rw [aheadIn, hnil, List.nil_append, aheadIn_zero]
      rw [hstep, hahead]
      exact ih (chunk + 1) 0 htail
    · refine .inr ⟨a, ⟨chunk, slot'⟩, by rw [advance, hsome], ?_⟩
      rw [h, aheadIn, aheadIn, hcons, List.cons_append]

/-- Moving a cursor on takes the first item that lies before it. -/
theorem next_eq (l : AppendList α) (cursor : Cursor) :
    (∃ cursor', next l cursor = (none, cursor')) ∧ ahead l cursor = []
      ∨ ∃ a cursor', next l cursor = (some a, cursor') ∧ ahead l cursor = a :: ahead l cursor' :=
  advance_eq l.chunks _ cursor.chunk cursor.slot rfl

/-- So many reads give so many items of those ahead, in order. -/
theorem take_fst (l : AppendList α) (n : Nat) (cursor : Cursor) :
    (take l n cursor).1 = (ahead l cursor).take n := by
  induction n generalizing cursor with
  | zero => rw [take, List.take_zero]
  | succ n ih =>
    rcases next_eq l cursor with ⟨⟨cursor', hnone⟩, hnil⟩ | ⟨a, cursor', hsome, hcons⟩
    · rw [take, hnone, hnil, List.take_nil]
    · rw [take, hsome, hcons, List.take_succ_cons, ← ih cursor']

end Cursor

namespace AppendList

/-- There are no more items than slots. -/
theorem length_toList_le (l : AppendList α) : l.toList.length ≤ l.slotCount := by
  rw [toList, slotCount]
  induction l.chunks with
  | nil => exact Nat.le_refl 0
  | cons c cs ih =>
    have hc : c.items.length ≤ c.capacity :=
      (List.length_filterMap_le _ _).trans (List.length_take_le _ _ |>.trans (Nat.min_le_right _ _))
    simp only [List.flatMap_cons, List.length_append, List.foldr_cons]
    omega

/-- Reading from the front gives everything. -/
theorem rest_front (l : AppendList α) : l.rest {} = l.toList := by
  have hahead : Cursor.ahead l {} = l.toList := Cursor.aheadIn_zero l.chunks
  rw [rest, Cursor.take_fst, hahead, List.take_of_length_le l.length_toList_le]

/-- A closed list is read as a whole. -/
theorem IsShut.read? {l : AppendList α} {n : Nat} (h : l.IsShut n) : l.read? = some l.toList := by
  have hiter : l.iter? = some {} := by simp [iter?, h.frozen, h.settled]
  rw [AppendList.read?, hiter, Option.map_some, rest_front]

end AppendList

end RequestGraph
