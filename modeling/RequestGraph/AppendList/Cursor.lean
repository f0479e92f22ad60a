import RequestGraph.AppendList.Basic

/-!
# Reading an append-only list

A cursor is a place in a list, between two of its slots. Moving it on answers the next item that
readers see; slots without one are passed over. Reading is for lists that are frozen:

    l.read? = some l.toList     iff     l is frozen

A list that has been given up by its owner can be emptied instead, frozen or not: each item is then
moved out of its slot, once.
-/

namespace RequestGraph

/-- A place in a chain of chunks. -/
structure Cursor where
  /-- The position of the chunk. -/
  chunk : Nat := 0
  /-- The position of the next slot of that chunk. -/
  slot : Nat := 0
deriving DecidableEq, Repr

/-- The first item at or after a position among slots, and the position after it. -/
def Slot.firstFull {α : Type} : List (Slot α) → Nat → Option (α × Nat)
  | [], _ => none
  | .full a :: _, i => some (a, i + 1)
  | _ :: rest, i => firstFull rest (i + 1)

namespace Chunk

variable {α : Type}

/-- The first item of a chunk at or after a slot, and the slot after it. -/
def next? (c : Chunk α) (slot : Nat) : Option (α × Nat) :=
  Slot.firstFull ((c.slots.take c.filled).drop slot) slot

/-- The chunk after the item of a slot was moved out. -/
def take (c : Chunk α) (slot : Nat) : Chunk α := { c with slots := c.slots.set slot .taken }

end Chunk

namespace Cursor

variable {α : Type}

/-- Moves on within the rest of a chain, of which the first chunk has the given position. -/
def advance : List (Chunk α) → Nat → Nat → Option α × Cursor
  | [], chunk, _ => (none, ⟨chunk, 0⟩)
  | c :: rest, chunk, slot =>
    match c.next? slot with
    | some (a, slot') => (some a, ⟨chunk, slot'⟩)
    | none => advance rest (chunk + 1) 0

/-- The next item, and the place after it. -/
def next (l : AppendList α) (cursor : Cursor) : Option α × Cursor :=
  advance (l.chunks.drop cursor.chunk) cursor.chunk cursor.slot

/-- Up to `n` items, and the place after them. -/
def take (l : AppendList α) : Nat → Cursor → List α × Cursor
  | 0, cursor => ([], cursor)
  | n + 1, cursor =>
    match next l cursor with
    | (none, cursor') => ([], cursor')
    | (some a, cursor') =>
      let (items, last) := take l n cursor'
      (a :: items, last)

end Cursor

namespace AppendList

variable {α : Type}

/-- The number of slots, which bounds the number of items. -/
def slotCount (l : AppendList α) : Nat := l.chunks.foldr (fun c n => c.capacity + n) 0

/-- A cursor at the front of a list that is frozen, its freeze through with every slot. -/
def iter? (l : AppendList α) : Option Cursor :=
  if l.frozen && l.settled then some {} else none

/-- All items from a cursor on. -/
def rest (l : AppendList α) (cursor : Cursor) : List α := (cursor.take l l.slotCount).1

/-- The items of a frozen list. -/
def read? (l : AppendList α) : Option (List α) := l.iter?.map l.rest

/-- The number of items of a frozen list. -/
def length? (l : AppendList α) : Option Nat := l.read?.map List.length

/-- Whether a frozen list holds no items. -/
def isEmpty? (l : AppendList α) : Option Bool :=
  l.iter?.map fun cursor => (cursor.next l).1.isNone

/-- Moves the next item out of a list that nobody else holds. -/
def moveOut (l : AppendList α) (cursor : Cursor) : Option (α × AppendList α × Cursor) :=
  match cursor.next l with
  | (none, _) => none
  | (some a, after) =>
    some (a, { l with chunks := l.chunks.modify after.chunk (·.take (after.slot - 1)) }, after)

/-- Moves up to `n` items out of a list that nobody else holds, frozen or not, from a cursor on. -/
def drain (l : AppendList α) (cursor : Cursor) : Nat → List α
  | 0 => []
  | n + 1 =>
    match l.moveOut cursor with
    | none => []
    | some (a, l', cursor') => a :: drain l' cursor' n

end AppendList

end RequestGraph
