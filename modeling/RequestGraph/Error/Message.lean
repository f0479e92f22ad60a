import RequestGraph.Error.Basic

/-!
# Texts of errors

An error has two texts: a message for people, and a diagnostic that shows its structure. The message
of an enriched error ends with the message of its cause.
-/

namespace RequestGraph

/-- The message of a violated ownership. -/
def OwnershipError.message : OwnershipError → String
  | .mismatch => "cell is owned by another token"
  | .superfluous => "token presented for an unowned cell"
  | .missing => "cell is owned, completion requires its token"

/-- The name of a violated ownership. -/
def OwnershipError.name : OwnershipError → String
  | .mismatch => "Mismatch"
  | .superfluous => "Superfluous"
  | .missing => "Missing"

/-- The message of a refused freeze. -/
def ContextError.message : ContextError → String
  | .alreadyFrozen => "context is already frozen"

namespace Failure

/-- The message of a failed computation. -/
def message : Failure → String
  | .trail text _ => text
  | .ownership e => e.message

/-- The lines of a cause, of which the first and all later ones have something in front. -/
def indented (first later : String) (text : String) : String :=
  match text.splitOn "\n" with
  | [] => first
  | line :: lines => "\n".intercalate ((first ++ line) :: lines.map (later ++ ·))

/-- The label of a numbered cause: its number in a field of five places, and a colon. -/
def label (n : Nat) : String :=
  let digits := Text.natural n
  String.ofList (List.replicate (5 - digits.length) ' ') ++ digits ++ ": "

/-- The causes of a message, one below the other. A single cause has no number. -/
def causeLines : List String → List String
  | [cause] => [indented "    " "    " cause]
  | causes => causes.zipIdx.map fun (cause, n) => indented (label n) "       " cause

/-- The diagnostic of a failed computation: its message, and below it what caused it. -/
def render : Failure → String
  | .trail text [] => text
  | .trail text causes => "\n".intercalate ((text ++ "\n\nCaused by:") :: causeLines causes)
  | .ownership e => e.name

end Failure

namespace Error

/-- How a list of keys is shown. -/
def renderKeys (keys : List String) : String := Text.sequence (keys.map Text.quoted)

/-- The message of an error. -/
def message : Error → String
  | .computation failure => failure.message
  | .revoked _ => "revoked"
  | .contextFinished => "context finished"
  | .cancelled _ => "cancelled"
  | .nonError raised => "non-error value raised: " ++ raised.rendered
  | .unknownNode key => "no node registered for key " ++ key
  | .timeout after => "timed out after " ++ after.render
  | .yank cause requested _ => "failed to resolve " ++ renderKeys requested ++ ": " ++ cause.message

/-- The diagnostic of an error. -/
def render : Error → String
  | .computation failure => Text.variant "Computation" failure.render
  | .revoked none => Text.record "Revoked" [("cause", "None")]
  | .revoked (some cause) => Text.record "Revoked" [("cause", Text.variant "Some" cause.render)]
  | .contextFinished => "ContextFinished"
  | .cancelled none => Text.record "Cancelled" [("cause", "None")]
  | .cancelled (some cause) => Text.record "Cancelled" [("cause", Text.variant "Some" cause.render)]
  | .nonError raised =>
    Text.variant "NonError" (Text.variant "NonError" (Text.quoted raised.rendered))
  | .unknownNode key => Text.record "UnknownNode" [("key", Text.quoted key)]
  | .timeout after => Text.variant "Timeout" after.render
  | .yank cause requested _ =>
    Text.variant "Yank" (Text.openRecord "YankError"
      [("cause", cause.render), ("requested", Text.quoted (renderKeys requested))])

/-- The messages of what an error was caused by, nearest first. A failed computation keeps its causes
to itself. -/
def sources : Error → List String
  | .revoked (some cause) => cause.message :: cause.sources
  | .cancelled (some cause) => cause.message :: cause.sources
  | .yank cause _ _ => cause.message :: cause.sources
  | _ => []

end Error

end RequestGraph
