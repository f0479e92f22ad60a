import RequestGraph.OrderedMap
import RequestGraph.Text.Record
import RequestGraph.SlotTable.Location

/-!
# Tables of slots that are filled once

A table gives every dense index a slot, and a slot takes one value for good. Leaves of slots are
allocated when one of theirs is first asked to take a value, and so are the segments that lead to
them; reading allocates nothing.

    lookup (allocate t i) j = lookup t j
    lookup (install t i v).table i = some (install t i v).value
-/

namespace RequestGraph

/-- The slots of one leaf. -/
abbrev Leaf (α : Type) := List (Option α)

/-- The allocated leaves of one segment, by their number within it. -/
abbrev Segment (α : Type) := OrderedMap Nat (Leaf α)

/-- Slots by dense index, each filled at most once. -/
structure SlotTable (α : Type) where
  /-- The segments; `none` where nothing was allocated yet. -/
  segments : List (Option (Segment α)) := List.replicate Location.segmentCount none
deriving DecidableEq, Repr

/-- What installing a value gave: the value in the slot is the one offered, if it won. -/
structure Installed (α : Type) where
  /-- The table afterwards. -/
  table : SlotTable α
  /-- The value that the slot holds. -/
  value : α
  /-- Whether it was put there just now. -/
  won : Bool

namespace SlotTable

variable {α : Type}

instance : Inhabited (SlotTable α) := ⟨{}⟩

/-- The segment of a number, if it was allocated. -/
def segment? (t : SlotTable α) (k : Nat) : Option (Segment α) := (t.segments[k]?).join

/-- The leaf at an address, if it was allocated. -/
def leaf? (t : SlotTable α) (l : Location) : Option (Leaf α) :=
  (t.segment? l.segment.toNat).bind (·.get? l.leaf.toNat)

/-- The value of an index, if its slot was filled. -/
def lookup (t : SlotTable α) (index : UInt64) : Option α :=
  let l := Location.of index
  (t.leaf? l).bind fun leaf => (leaf[l.slot.toNat]?).join

/-- How many segments have been allocated. -/
def segmentCount (t : SlotTable α) : Nat := t.segments.countP Option.isSome

/-- A leaf of empty slots. -/
def blankLeaf : Leaf α := List.replicate Location.leafLength none

/-- Puts a leaf at an address, allocating its segment if need be. -/
def setLeaf (t : SlotTable α) (l : Location) (leaf : Leaf α) : SlotTable α :=
  ⟨t.segments.modify l.segment.toNat fun s => some ((s.getD {}).insert l.leaf.toNat leaf)⟩

/-- Allocates the way to the slot of an index. -/
def allocate (t : SlotTable α) (index : UInt64) : SlotTable α :=
  let l := Location.of index
  match t.leaf? l with
  | some _ => t
  | none => t.setLeaf l blankLeaf

/-- Fills the slot of an index, to which the way is allocated, unless it is filled already. -/
def install (t : SlotTable α) (index : UInt64) (value : α) : Installed α :=
  match t.lookup index with
  | some there => ⟨t, there, false⟩
  | none =>
    let l := Location.of index
    let leaf := (t.leaf? l).getD blankLeaf
    ⟨t.setLeaf l (leaf.set l.slot.toNat (some value)), value, true⟩

/-- The value of an index, which is the given one if there was none. -/
def getOrInsert (t : SlotTable α) (index : UInt64) (value : α) : Installed α :=
  match t.lookup index with
  | some there => ⟨t, there, false⟩
  | none => (t.allocate index).install index value

/-- The text that shows how many segments are allocated. -/
def render (t : SlotTable α) : String :=
  Text.openRecord "SparseTable" [("segments", Text.natural t.segmentCount)]

end SlotTable

end RequestGraph
