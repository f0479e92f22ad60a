import RequestGraph.Text.Unprintable
import RequestGraph.Text.Extender

/-!
# Quoted text

A key or a message inside a diagnostic is written between double quotes, so that what is printed
shows exactly which characters the text holds. Each character has one written form:

    written c = [c]           iff c stands for itself
    written c = '\\' :: …      otherwise

A quote, a backslash and the common controls have an escape of their own; every other character that
would not be seen is written as its code point, `\u` with lower case hexadecimal digits between
braces.
-/

namespace RequestGraph.Text

/-- Whether a code point lies in one of the ranges. -/
def inRanges (ranges : Array (Nat × Nat)) (n : Nat) : Bool :=
  ranges.any fun r => r.1 ≤ n && n ≤ r.2

/-- The letters that are drawn as nothing: the two fillers of conjoining Hangul, the filler of the
compatibility block and its halfwidth form. -/
def isFiller (n : Nat) : Bool :=
  n == 0x115f || n == 0x1160 || n == 0x3164 || n == 0xffa0

/-- Whether a character is seen on its own: it is printable, and it does not attach to the character
before it. Between space and tilde every character is. -/
def isVisible (c : Char) : Bool :=
  let n := c.toNat
  if n < 0x20 then false
  else if n < 0x7f then true
  else !(inRanges unprintableRanges n || inRanges extenderRanges n || isFiller n)

/-- The lower case hexadecimal digits of a code point. -/
def hexDigits (n : Nat) : List Char := Nat.toDigits 16 n

/-- How one character is written between quotes. -/
def written (c : Char) : List Char :=
  match c with
  | '\x00' => ['\\', '0']
  | '\t' => ['\\', 't']
  | '\n' => ['\\', 'n']
  | '\r' => ['\\', 'r']
  | '"' => ['\\', '"']
  | '\\' => ['\\', '\\']
  | _ => if isVisible c then [c] else ['\\', 'u', '\x7b'] ++ hexDigits c.toNat ++ ['\x7d']

/-- A text between double quotes, each of its characters in written form. -/
def quoted (s : String) : String :=
  String.ofList ('"' :: s.toList.flatMap written ++ ['"'])

end RequestGraph.Text
