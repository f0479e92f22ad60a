/-!
# Append-only lists in chunks

A sequence that grows at its end until it is frozen, and is read only afterwards. Its items lie in a
chain of chunks of 8, 16, 32, … and then always 256 slots. A chunk counts the reservations made in it
in a 64 bit word whose top bit is set when the list is frozen; a reservation beyond the last slot
moves on to the next chunk, and every reservation of a frozen chunk is turned away. The counter goes
on counting then, which is why reading is bounded by the counter *and* by what a slot says of itself.

As long as fewer than `2 ^ 63` items are offered, the list answers like a plain sequence with a flag:

    (push l a).1.toList = l.toList ++ [a]   if l is not frozen
    (push l a).1.toList = l.toList          if it is
-/

namespace RequestGraph

/-- One place of a chunk. -/
inductive Slot (α : Type) where
  /-- Nothing was written yet. -/
  | empty
  /-- An item that readers may see. -/
  | full (item : α)
  /-- Closed by a freeze before anything was written. -/
  | shut
  /-- Its item has been moved out. -/
  | taken
deriving DecidableEq, Repr

/-- The item that a reader sees in a slot. -/
def Slot.item? {α : Type} : Slot α → Option α
  | .full a => some a
  | _ => none

/-- A run of slots with its reservation counter. -/
structure Chunk (α : Type) where
  /-- The number of reservations; the top bit says that the list is frozen. -/
  reserved : UInt64 := 0
  /-- The slots, in order. -/
  slots : List (Slot α)
deriving DecidableEq, Repr

/-- The top bit of a reservation counter. -/
def frozenBit : UInt64 := 0x8000000000000000

/-- What became of a reservation. -/
inductive Placement where
  /-- The item was written and published. -/
  | placed
  /-- The chunk is frozen, or the slot was closed. -/
  | refused
  /-- All slots were reserved before. -/
  | overflowed
deriving DecidableEq, Repr

namespace Chunk

variable {α : Type}

/-- A chunk of empty slots. -/
def blank (capacity : Nat) : Chunk α := ⟨0, List.replicate capacity .empty⟩

/-- The number of slots. -/
def capacity (c : Chunk α) : Nat := c.slots.length

/-- The number of reservations, without the top bit. -/
def count (c : Chunk α) : UInt64 := c.reserved &&& ~~~frozenBit

/-- Whether the top bit of the counter is set. -/
def isFrozen (c : Chunk α) : Bool := c.reserved &&& frozenBit != 0

/-- The number of slots that may hold an item. -/
def filled (c : Chunk α) : Nat := min c.count.toNat c.capacity

/-- Reserves the next slot and writes an item into it, if there is such a slot and it is open. -/
def place (c : Chunk α) (a : α) : Chunk α × Placement :=
  let bumped : Chunk α := { c with reserved := c.reserved + 1 }
  if c.isFrozen then (bumped, .refused)
  else match c.slots[c.reserved.toNat]? with
    | none => (bumped, .overflowed)
    | some .empty => ({ bumped with slots := c.slots.set c.reserved.toNat (.full a) }, .placed)
    | some _ => (bumped, .refused)

/-- The items that readers see, in order. -/
def items (c : Chunk α) : List α := (c.slots.take c.filled).filterMap Slot.item?

/-- Closes a slot that was reserved and not written. -/
def shutSlot : Slot α → Slot α
  | .empty => .shut
  | s => s

/-- Sets the top bit of the counter and closes what was reserved and not written. -/
def freeze (c : Chunk α) : Chunk α :=
  { reserved := c.reserved ||| frozenBit
    slots := (c.slots.take c.filled).map shutSlot ++ c.slots.drop c.filled }

end Chunk

/-- A list that grows at its end until it is frozen. -/
structure AppendList (α : Type) where
  /-- The chain of chunks. -/
  chunks : List (Chunk α) := []
  /-- Whether the end of the chain is closed, so that no chunk can be added. -/
  closed : Bool := false
  /-- The position of the chunk that takes the next item. -/
  tail : Nat := 0
  /-- Whether the list has been frozen. -/
  frozen : Bool := false
  /-- Whether the freeze is through with every slot. -/
  settled : Bool := false
deriving DecidableEq, Repr

/-- The answer to an offered item: a refusal hands the item back. -/
inductive Pushed (α : Type) where
  | accepted
  | rejected (item : α)
deriving DecidableEq, Repr

/-- The refusal of a second freeze. -/
inductive FreezeError where
  | alreadyFrozen
deriving DecidableEq, Repr

/-- The text of a refused freeze. -/
def FreezeError.message : FreezeError → String
  | .alreadyFrozen => "list is already frozen"

namespace AppendList

variable {α : Type}

instance : Inhabited (AppendList α) := ⟨{}⟩

/-- The number of slots of the first chunk. -/
def firstCapacity : Nat := 8

/-- The largest number of slots of a chunk. -/
def maxCapacity : Nat := 256

/-- The number of slots of the chunk after one of so many. -/
def nextCapacity (capacity : Nat) : Nat := min (2 * capacity) maxCapacity

/-- What a walk along the chain leaves behind: the chain, whether the item was accepted, and how many
links were followed. -/
structure Walk (α : Type) where
  chunks : List (Chunk α)
  accepted : Bool
  hops : Nat := 0

/-- Offers an item to a chain. A chunk that overflows hands it to the next one; after the last, a
chunk is added unless the end of the chain is closed. -/
def offer (closed : Bool) (a : α) : List (Chunk α) → Walk α
  | [] => ⟨[], false, 0⟩
  | c :: rest =>
    match c.place a, rest with
    | (c', .placed), rest => ⟨c' :: rest, true, 0⟩
    | (c', .refused), rest => ⟨c' :: rest, false, 0⟩
    | (c', .overflowed), [] =>
      if closed then ⟨[c'], false, 0⟩
      else
        let (added, placement) := (Chunk.blank (nextCapacity c.capacity)).place a
        ⟨[c', added], placement == .placed, 1⟩
    | (c', .overflowed), next :: more =>
      let walk := offer closed a (next :: more)
      ⟨c' :: walk.chunks, walk.accepted, walk.hops + 1⟩

/-- The chain with its first chunk, which is allocated when the first item comes. -/
def opened (l : AppendList α) : List (Chunk α) :=
  if l.chunks.isEmpty && !l.closed then [Chunk.blank firstCapacity] else l.chunks

/-- Offers an item at the end. -/
def push (l : AppendList α) (a : α) : AppendList α × Pushed α :=
  let chain := l.opened
  let walk := offer l.closed a (chain.drop l.tail)
  ({ l with chunks := chain.take l.tail ++ walk.chunks, tail := l.tail + walk.hops },
    if walk.accepted then .accepted else .rejected a)

/-- Freezes the chunks up to the first that is not used up, and says whether the end of the chain was
reached, where it is closed. -/
def freezeChain : List (Chunk α) → List (Chunk α) × Bool
  | [] => ([], true)
  | c :: rest =>
    if c.count.toNat < c.capacity then (c.freeze :: rest, false)
    else
      let (rest', reached) := freezeChain rest
      (c.freeze :: rest', reached)

/-- Makes the list read only, once. -/
def freeze (l : AppendList α) : Except FreezeError (AppendList α) :=
  if l.frozen then .error .alreadyFrozen
  else
    let (chunks, reached) := freezeChain l.chunks
    .ok { l with chunks, closed := l.closed || reached, frozen := true, settled := true }

/-- The items that readers see, in order. -/
def toList (l : AppendList α) : List α := l.chunks.flatMap Chunk.items

end AppendList

end RequestGraph
