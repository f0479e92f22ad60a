import RequestGraph.Proofs.AppendList.Reading
import Mathlib.Data.List.TakeDrop

/-!
# Cursors that live on

A cursor answers the first of the items ahead of it and stands before the others then. Nothing else moves
it: whatever is offered to a frozen list is turned away, and although that may raise the counters by which
reading bounds itself, what lies ahead of a cursor stays what it was.

    (cursor.next l).1 = (ahead l cursor).head?      ahead l (cursor.next l).2 = (ahead l cursor).tail
    ahead (l.push a).1 cursor = ahead l cursor      if l is frozen
    l.drain cursor n = (ahead l cursor).take n      frozen or not
-/

namespace RequestGraph

variable {α : Type}

/-! ### Moving on

A step of a cursor is a step in the list of what lies ahead of it: it answers the head and leaves the tail.
-/

namespace Cursor

/-- A cursor that finds nothing stands at the end of the chain. -/
theorem ahead_of_advance_none (chunks rest : List (Chunk α)) (chunk slot : Nat) {cursor : Cursor}
    (h : chunks.drop chunk = rest) (hnone : advance rest chunk slot = (none, cursor)) :
    aheadIn (chunks.drop cursor.chunk) cursor.slot = [] := by
  induction rest generalizing chunk slot with
  | nil =>
    obtain rfl : (⟨chunk, 0⟩ : Cursor) = cursor := congrArg Prod.snd hnone
    simp [h, aheadIn]
  | cons c rest ih =>
    have htail : chunks.drop (chunk + 1) = rest := by
      rw [← List.drop_drop, h, List.drop_succ_cons, List.drop_zero]
    cases hnext : c.next? slot with
    | some found => simp [advance, hnext] at hnone
    | none => exact ih (chunk + 1) 0 htail (by simpa [advance, hnext] using hnone)

@[simp] theorem next_fst (l : AppendList α) (cursor : Cursor) :
    (cursor.next l).1 = (ahead l cursor).head? := by
  rcases next_eq l cursor with ⟨⟨_, hnext⟩, hnil⟩ | ⟨a, _, hnext, hcons⟩
  · simp [hnext, hnil]
  · simp [hnext, hcons]

@[simp] theorem ahead_next (l : AppendList α) (cursor : Cursor) :
    ahead l (cursor.next l).2 = (ahead l cursor).tail := by
  rcases next_eq l cursor with ⟨⟨cursor', hnext⟩, hnil⟩ | ⟨a, cursor', hnext, hcons⟩
  · rw [hnext, hnil, List.tail_nil]
    exact ahead_of_advance_none l.chunks _ cursor.chunk cursor.slot rfl hnext
  · rw [hnext, hcons, List.tail_cons]

@[simp] theorem ahead_take (l : AppendList α) (n : Nat) (cursor : Cursor) :
    ahead l (cursor.take l n).2 = (ahead l cursor).drop n := by
  induction n generalizing cursor with
  | zero => simp [take]
  | succ n ih =>
    have hmoved := ahead_next l cursor
    rcases next_eq l cursor with ⟨⟨cursor', hnext⟩, hnil⟩ | ⟨a, cursor', hnext, hcons⟩
    · rw [hnext, hnil] at hmoved
      simpa [take, hnext, hnil] using hmoved
    · simp [take, hnext, hcons, ih cursor']

/-- A cursor at the front has the whole list ahead of it. -/
@[simp] theorem ahead_front (l : AppendList α) : ahead l {} = l.toList := aheadIn_zero l.chunks

/-- As often as there are slots is often enough for a cursor to come to the end. -/
theorem length_ahead_le (l : AppendList α) (cursor : Cursor) :
    (ahead l cursor).length ≤ l.slotCount := by
  have hin (rest : List (Chunk α)) (slot : Nat) :
      (aheadIn rest slot).length ≤ (rest.flatMap Chunk.items).length := by
    cases rest with
    | nil => exact Nat.le_refl 0
    | cons c rest =>
      have hc : (c.itemsFrom slot).length ≤ c.items.length :=
        ((List.drop_sublist slot _).filterMap Slot.item?).length_le
      simpa [aheadIn] using hc
  have hdrop : ((l.chunks.drop cursor.chunk).flatMap Chunk.items).length ≤ l.toList.length := by
    conv_rhs => rw [AppendList.toList, ← List.take_append_drop cursor.chunk l.chunks]
    rw [List.flatMap_append, List.length_append]
    exact Nat.le_add_left _ _
  exact (hin _ _).trans (hdrop.trans l.length_toList_le)

end Cursor

/-! ### While items are turned away

A frozen chunk may count more reservations than it has slots, since it counts those that it turns away.
Reading does not go beyond the slots that hold items, so the counter does not matter.
-/

namespace Chunk

/-- Where the slots beyond the counter hold nothing, the counter does not matter to a reader. -/
theorem itemsFrom_of_bare {c : Chunk α} (h : (c.slots.drop c.filled).filterMap Slot.item? = [])
    (slot : Nat) : c.itemsFrom slot = (c.slots.drop slot).filterMap Slot.item? := by
  have hdrop : c.slots.drop slot = (c.slots.take c.filled).drop slot
      ++ (c.slots.drop c.filled).drop (slot - (c.slots.take c.filled).length) := by
    rw [← List.drop_append, List.take_append_drop]
  have hbare := List.Sublist.filterMap Slot.item?
    (List.drop_sublist (slot - (c.slots.take c.filled).length) (c.slots.drop c.filled))
  rw [h] at hbare
  rw [itemsFrom, hdrop, List.filterMap_append, List.sublist_nil.mp hbare, List.append_nil]

/-- A frozen chunk counts what it turns away and leaves its slots alone. -/
theorem IsShut.place_slots {c : Chunk α} {n : Nat} (h : c.IsShut n) (a : α) :
    (c.place a).1.slots = c.slots := by
  simp [place, (isFrozen_iff c).mpr h.frozen]

end Chunk

namespace AppendList

theorem offer_shut_slots {cs : List (Chunk α)} {n : Nat} (h : ∀ c ∈ cs, c.IsShut n)
    (hn : n < 2 ^ 63 - 1) (closed : Bool) (a : α) :
    (offer closed a cs).chunks.map Chunk.slots = cs.map Chunk.slots := by
  cases cs with
  | nil => rfl
  | cons c rest =>
    have hc := h c List.mem_cons_self
    have hpair : c.place a = ((c.place a).1, .refused) := by rw [← (hc.place_eq hn a).1]
    unfold offer
    rw [hpair]
    simp [hc.place_slots a]

theorem IsShut.push_slots {l : AppendList α} {n : Nat} (h : l.IsShut n) (hn : n < 2 ^ 63 - 1)
    (a : α) : (l.push a).1.chunks.map Chunk.slots = l.chunks.map Chunk.slots := by
  have hbehind : ∀ c ∈ l.chunks.drop l.tail, c.IsShut n := fun c hc =>
    h.chunks c (List.mem_of_mem_drop hc)
  have hdrop := offer_shut_slots hbehind hn l.closed a
  simp only [push, h.opened_eq, List.map_append, hdrop]
  rw [← List.map_append, List.take_append_drop]

/-- What lies ahead of a cursor in a frozen list can be read off the slots. -/
theorem IsShut.ahead_congr {l l' : AppendList α} {n n' : Nat} (h : l.IsShut n) (h' : l'.IsShut n')
    (hslots : l'.chunks.map Chunk.slots = l.chunks.map Chunk.slots) (cursor : Cursor) :
    cursor.ahead l' = cursor.ahead l := by
  have key {l : AppendList α} {n : Nat} (h : l.IsShut n) : cursor.ahead l
      = (((l.chunks.map Chunk.slots).drop cursor.chunk).head?.map
          fun slots => (slots.drop cursor.slot).filterMap Slot.item?).getD []
        ++ ((l.chunks.map Chunk.slots).drop (cursor.chunk + 1)).flatMap
          (List.filterMap Slot.item?) := by
    have hrest : ∀ c ∈ l.chunks.drop (cursor.chunk + 1),
        c.items = c.slots.filterMap Slot.item? := fun c hc =>
      Chunk.items_of_bare (h.chunks c (List.mem_of_mem_drop hc)).bare
    rw [← List.drop_drop] at hrest
    rw [← List.drop_drop, ← List.map_drop]
    cases hcs : l.chunks.drop cursor.chunk with
    | nil => simp [Cursor.ahead, Cursor.aheadIn, hcs]
    | cons c rest =>
      have hc := (h.chunks c (List.mem_of_mem_drop (hcs ▸ List.mem_cons_self))).bare
      rw [hcs] at hrest
      simp only [Cursor.ahead, Cursor.aheadIn, hcs, Chunk.itemsFrom_of_bare hc, List.map_cons,
        List.head?_cons, Option.map_some, Option.getD_some, List.drop_succ_cons, List.drop_zero,
        List.flatMap_map]
      exact congrArg _ (List.flatMap_congr hrest)
  rw [key h, key h', hslots]

/-- Whatever is offered to a frozen list, a cursor still has ahead of it what it had. -/
theorem IsShut.ahead_push {l : AppendList α} {n : Nat} (h : l.IsShut n) (hn : n < 2 ^ 63 - 1) (a : α)
    (cursor : Cursor) : cursor.ahead (l.push a).1 = cursor.ahead l :=
  h.ahead_congr (h.push_eq hn a).2.1 (h.push_slots hn a) cursor

/-! ### Moving items out

Giving a list up takes the items out of the slots, one by one. A slot that has been emptied lies behind the
cursor.
-/

end AppendList

namespace Chunk

/-- Moving an item out of a slot changes nothing for who has passed it. -/
theorem itemsFrom_take (c : Chunk α) {slot from' : Nat} (h : slot < from') :
    (c.take slot).itemsFrom from' = c.itemsFrom from' := by
  have hfilled : (c.take slot).filled = c.filled := by
    simp [filled, count, capacity, take]
  simp only [itemsFrom, hfilled]
  simp only [take, List.take_set, List.drop_set_of_lt h]

theorem lt_of_next? {c : Chunk α} {slot slot' : Nat} {a : α} (h : c.next? slot = some (a, slot')) :
    slot < slot' := by
  rcases Slot.firstFull_eq ((c.slots.take c.filled).drop slot) slot with
    ⟨hnone, -⟩ | ⟨b, j, hsome, hj, -⟩
  · rw [next?, hnone] at h
    cases h
  · rw [next?, hsome] at h
    cases h
    omega

end Chunk

namespace Cursor

/-- The place after an item is behind at least one slot. -/
theorem slot_pos_of_advance {rest : List (Chunk α)} {chunk slot : Nat} {a : α} {cursor : Cursor}
    (h : advance rest chunk slot = (some a, cursor)) : 0 < cursor.slot := by
  induction rest generalizing chunk slot with
  | nil => simp [advance] at h
  | cons c rest ih =>
    cases hnext : c.next? slot with
    | none => exact ih (by simpa [advance, hnext] using h)
    | some found =>
      obtain ⟨b, slot'⟩ := found
      have hlt := Chunk.lt_of_next? hnext
      simp only [advance, hnext, Prod.mk.injEq] at h
      rw [← h.2]
      exact Nat.zero_lt_of_lt hlt

end Cursor

namespace AppendList

/-- Giving a list up moves out what lies ahead, each item once, whether it is frozen or not. -/
theorem drain_eq (n : Nat) (l : AppendList α) (cursor : Cursor) :
    l.drain cursor n = (cursor.ahead l).take n := by
  induction n generalizing l cursor with
  | zero => simp [drain]
  | succ n ih =>
    rcases Cursor.next_eq l cursor with ⟨⟨_, hnext⟩, hnil⟩ | ⟨a, after, hnext, hcons⟩
    · simp [drain, moveOut, hnext, hnil]
    · have hpos : after.slot - 1 < after.slot := by
        have := Cursor.slot_pos_of_advance hnext
        omega
      -- the item that left its slot is behind the cursor, which does not see the change
      have hbehind : after.ahead
          { l with chunks := l.chunks.modify after.chunk (·.take (after.slot - 1)) }
            = after.ahead l := by
        simp only [Cursor.ahead, List.drop_modify_of_ge _ _ _ _ (Nat.le_refl _), Nat.sub_self]
        cases l.chunks.drop after.chunk with
        | nil => rfl
        | cons c rest => simp [Cursor.aheadIn, Chunk.itemsFrom_take c hpos]
      simp only [drain, moveOut, hnext, hcons, List.take_succ_cons, ih, hbehind]

end AppendList

end RequestGraph
