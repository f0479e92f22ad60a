/-!
# Hashing text

A hash of texts into 64 bit words. Nothing but the spread of keys over a cache depends on it.
-/

namespace RequestGraph.Text

/-- The factor that stirs every character into all bits of the word. -/
def hashFactor : UInt64 := 0x517cc1b727220a95

/-- Stirs one character into a hash: the word is turned by five bits, the character is added without
carry, and all is multiplied. -/
def stir (hash : UInt64) (c : Char) : UInt64 :=
  (((hash <<< 5) ||| (hash >>> 59)) ^^^ c.toNat.toUInt64) * hashFactor

/-- The hash of a text. -/
def hash (s : String) : UInt64 := s.toList.foldl stir 0

end RequestGraph.Text
