import RequestGraph.Text.Quoted

/-!
# Diagnostic layout

The layouts of which every diagnostic text is built: records with named fields, variants with one
argument, sequences and sets. All of them separate their parts by a comma and a space.
-/

namespace RequestGraph.Text

/-- The parts, separated by a comma and a space. -/
def commaSeparated (parts : List String) : String := ", ".intercalate parts

/-- `[a, b]` -/
def sequence (parts : List String) : String := "[" ++ commaSeparated parts ++ "]"

/-- `(a, b)` -/
def tuple (parts : List String) : String := "(" ++ commaSeparated parts ++ ")"

/-- A set of parts between braces, in the order given. -/
def set (parts : List String) : String := "\x7b" ++ commaSeparated parts ++ "\x7d"

/-- A variant with one argument: `Name(argument)`. -/
def variant (name argument : String) : String := name ++ "(" ++ argument ++ ")"

/-- A record with all of its fields: the name, and the fields between braces. -/
def record (name : String) (fields : List (String × String)) : String :=
  name ++ " \x7b " ++ commaSeparated (fields.map fun f => f.1 ++ ": " ++ f.2) ++ " \x7d"

/-- A record of which only some fields are shown; two dots stand for the others. -/
def openRecord (name : String) (fields : List (String × String)) : String :=
  name ++ " \x7b " ++ commaSeparated (fields.map (fun f => f.1 ++ ": " ++ f.2) ++ [".."]) ++ " \x7d"

/-- `true` or `false`. -/
def flag (b : Bool) : String := if b then "true" else "false"

/-- Decimal digits, after a minus sign for a negative number. -/
def integer (n : Int) : String :=
  if n < 0 then "-" ++ String.ofList (Nat.toDigits 10 n.natAbs)
  else String.ofList (Nat.toDigits 10 n.natAbs)

/-- Decimal digits. -/
def natural (n : Nat) : String := String.ofList (Nat.toDigits 10 n)

end RequestGraph.Text
