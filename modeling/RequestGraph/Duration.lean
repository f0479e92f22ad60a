import RequestGraph.Text.Record

/-!
# Durations and clocks

A span of time in whole nanoseconds, and its written form: the number of the largest unit that fits
at least once, with as many decimals as it takes to be exact, and then the unit.

    1500000 ns  is written  1.5ms
          0 ns  is written  0ns

The whole seconds of a span fit into a word of 64 bits, so there is a longest one.

Whether a span that begins now ends at an instant that the clock can show is for the clock to say. A
*clock* is what it shows each time that it is read. Nothing is assumed about that, not even that time
passes.
-/

namespace RequestGraph

/-- A span of time. -/
structure Duration where
  /-- Its length in nanoseconds. -/
  nanoseconds : Nat
  bounded : nanoseconds < UInt64.size * 1000000000 := by decide
deriving DecidableEq, Repr

namespace Duration

instance : LE Duration := ⟨fun d d' => d.nanoseconds ≤ d'.nanoseconds⟩

instance (d d' : Duration) : Decidable (d ≤ d') :=
  inferInstanceAs (Decidable (d.nanoseconds ≤ d'.nanoseconds))

/-- The unit of so many decimals, in nanoseconds. -/
def unitOf (exponent : Nat) : Nat := Nat.pow 10 exponent

/-- The longest span. -/
def longest : Duration := ⟨UInt64.size * 1000000000 - 1, by decide⟩

/-- So many seconds and so many nanoseconds, or the longest span if they are too many. -/
def ofParts (seconds nanoseconds : Nat) : Duration :=
  ⟨min (seconds * unitOf 9 + nanoseconds) longest.nanoseconds,
    Nat.lt_of_le_of_lt (Nat.min_le_right _ _) longest.bounded⟩

/-- The digits of `n` with zeros in front up to a width. -/
def padded (width n : Nat) : List Char :=
  let digits := Nat.toDigits 10 n
  List.replicate (width - digits.length) '0' ++ digits

/-- What follows the whole part: a point and the decimals without their last zeros, or nothing when
all decimals are zeros. -/
def decimals (width n : Nat) : List Char :=
  match ((padded width n).reverse.dropWhile (· == '0')).reverse with
  | [] => []
  | digits => '.' :: digits

/-- So many nanoseconds in a unit of some decimals, exact to the nanosecond. -/
def inUnits (n exponent : Nat) (unit : String) : String :=
  let whole := Nat.toDigits 10 (n / unitOf exponent)
  let rest := if exponent = 0 then [] else decimals exponent (n % unitOf exponent)
  String.ofList (whole ++ rest) ++ unit

/-- The written form of a duration. -/
def render (d : Duration) : String :=
  let n := d.nanoseconds
  if unitOf 9 ≤ n then inUnits n 9 "s"
  else if unitOf 6 ≤ n then inUnits n 6 "ms"
  else if unitOf 3 ≤ n then inUnits n 3 "µs"
  else inUnits n 0 "ns"

end Duration

/-- What a clock shows, one reading after another. -/
structure Clock where
  /-- The longest span that ends at an instant, if it begins at the reading of that number. The default
  is a clock that has just been started and counts its seconds in a signed word. -/
  reach : Nat → Duration := fun _ => .ofParts (Nat.pow 2 63 - 1) 999999999

namespace Clock

/-- The longest span that ends at an instant, if it begins now. -/
def ahead (clock : Clock) : Duration := clock.reach 0

/-- The clock after it was read. -/
def read (clock : Clock) : Clock := ⟨fun n => clock.reach (n + 1)⟩

end Clock

end RequestGraph
