/-!
# Addresses of dense indices

A dense index is a 64 bit word. Storage for the indices is laid out in segments of growing size:
segment `k` is a directory of `8 * 2 ^ k` leaves, and a leaf has 32 slots. So segment `k` covers the
`256 * 2 ^ k` indices from `256 * (2 ^ k - 1)` on, and each index has one address:

    index = 256 * (2 ^ segment - 1) + 32 * leaf + slot

There are 26 segments, which address every index below `2 ^ 34 - 256`, and so every 32 bit one.
-/

namespace RequestGraph

/-- Where a dense index is stored. -/
structure Location where
  /-- The segment. -/
  segment : UInt64
  /-- The leaf within the segment. -/
  leaf : UInt64
  /-- The slot within the leaf. -/
  slot : UInt64
deriving DecidableEq, Repr

namespace Location

/-- The number of slots of a leaf. -/
def leafLength : Nat := 32

/-- The number of leaves of the first segment. -/
def firstSegment : UInt64 := 8

/-- The number of segments. -/
def segmentCount : Nat := 26

/-- The address of an index. Leaf number `n`, counted through all segments, lies in the segment of
number `log2 (n / 8 + 1)`, since `8 * (2 ^ k - 1)` leaves come before segment `k`. -/
def of (index : UInt64) : Location :=
  let leaf := index >>> 5
  let segment := (leaf / firstSegment + 1).log2
  { segment
    leaf := leaf - firstSegment * ((1 <<< segment) - 1)
    slot := index &&& 31 }

/-- Whether there is a segment for the address. -/
def addressable (location : Location) : Bool := location.segment.toNat < segmentCount

end Location

end RequestGraph
