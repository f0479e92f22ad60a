import RequestGraph.SlotTable.Basic

/-!
# Interning keys

An interner gives every key a dense index, counting from zero in the order in which keys first come.
The registry of all keys is the truth. A small table of recently seen pairs, the cache, stands before
it: an entry holds the upper half of a key's hash and the index plus one, so that zero marks an empty
entry. A probe looks at eight neighbouring entries, and believes an entry only after it has compared
the key itself, so that the cache can cost a look-up but never falsify one:

    (intern t k).index = the position of k among the distinct keys seen, k included

whatever the hash function and the size of the cache. Keys are the same if they are equal in the sense of
their type, which may be coarser than being identical: the key of an index is the one that came first.
-/

namespace RequestGraph

/-- A dense index of a key. -/
abbrev KeyIndex := UInt32

/-- A registry of keys with a cache in front of it. -/
structure Interner (K : Type) where
  /-- The hash by which keys are spread over the cache. -/
  hash : K → UInt64
  /-- The cache; its size is a power of two. -/
  cache : Array UInt64
  /-- The distinct keys, in the order in which they first came. -/
  registry : List K := []
  /-- The keys by index. -/
  byIndex : SlotTable K := {}

namespace Interner

variable {K : Type}

/-- The size of the cache unless another is asked for. -/
def defaultCapacity : Nat := 1024

/-- The number of cache entries that one probe looks at. -/
def probeLength : Nat := 8

/-- The number of keys that have an index. -/
def maxKeys : Nat := 0xFFFFFFFF

/-- An interner that has seen no key. The size of its cache is the asked one, but at least the length
of a probe, rounded up to a power of two. -/
def withCapacity (hash : K → UInt64) (capacity : Nat) : Interner K :=
  { hash, cache := Array.replicate (max capacity probeLength).nextPowerOfTwo 0 }

/-- The number of keys. -/
def size (t : Interner K) : Nat := t.registry.length

/-- The key of an index. -/
def key? (t : Interner K) (index : KeyIndex) : Option K := t.byIndex.lookup index.toUInt64

/-- The position of the entry at an offset from the home of a hash. -/
def position (t : Interner K) (hash : UInt64) (offset : Nat) : Nat :=
  ((hash.toNat &&& (t.cache.size - 1)) + offset) &&& (t.cache.size - 1)

/-- The entry at an offset from the home of a hash. -/
def entry (t : Interner K) (hash : UInt64) (offset : Nat) : UInt64 :=
  t.cache.getD (t.position hash offset) 0

/-- The entry that stands for an index under a hash. -/
def entryOf (hash : UInt64) (index : KeyIndex) : UInt64 :=
  ((hash >>> 32) <<< 32) ||| (index.toUInt64 + 1)

/-- The index that an entry holds. -/
def entryIndex (entry : UInt64) : KeyIndex := entry.toUInt32 - 1

/-- Puts an index into the first entry of the probe that is empty or holds the same already, or into
the home entry if there is none. -/
def remember (t : Interner K) (hash : UInt64) (index : KeyIndex) : Interner K :=
  let new := entryOf hash index
  let offset := ((List.range probeLength).find? fun o =>
    t.entry hash o == 0 || t.entry hash o == new).getD 0
  { t with cache := t.cache.setIfInBounds (t.position hash offset) new }

variable [BEq K]

/-- Looks for a key among the entries at some offsets, and gives up at an empty one. -/
def probeAt (t : Interner K) (hash : UInt64) (key : K) : List Nat → Option KeyIndex
  | [] => none
  | offset :: rest =>
    let entry := t.entry hash offset
    if entry = 0 then none
    else if entry >>> 32 ≠ hash >>> 32 then probeAt t hash key rest
    else if t.key? (entryIndex entry) == some key then some (entryIndex entry)
    else probeAt t hash key rest

/-- The index of a key, if the cache knows it. -/
def probe (t : Interner K) (key : K) : Option KeyIndex :=
  probeAt t (t.hash key) key (List.range probeLength)

/-- The index of a key that has one, and the interner with that index in its cache. -/
def index? (t : Interner K) (key : K) : Interner K × Option KeyIndex :=
  match t.probe key with
  | some index => (t, some index)
  | none =>
    match t.registry.idxOf? key with
    | some position =>
      let index := UInt32.ofNat position
      (t.remember (t.hash key) index, some index)
    | none => (t, none)

/-- Adds a key at the end of the registry. -/
def register (t : Interner K) (key : K) : Interner K :=
  { t with
    registry := t.registry ++ [key]
    byIndex := (t.byIndex.getOrInsert (UInt64.ofNat t.registry.length) key).table }

/-- The index of a key, which is registered if it is new. There is none for a new key once every index
is given away. What asks for one then breaks off, and nothing is said here of what it may have done to
the registry: the key is left out of it. -/
def intern (t : Interner K) (key : K) : Interner K × Option KeyIndex :=
  match t.index? key with
  | (t', some index) => (t', some index)
  | (t', none) =>
    if t'.registry.length < maxKeys then
      let index := UInt32.ofNat t'.registry.length
      ((t'.register key).remember (t.hash key) index, some index)
    else (t', none)

/-- The text that shows the number of keys and how far the table of keys has grown. -/
def render (t : Interner K) : String :=
  Text.openRecord "Interner" [("by_index", t.byIndex.render), ("len", Text.natural t.size)]

end Interner

end RequestGraph
