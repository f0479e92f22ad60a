import RequestGraph.Duration
import RequestGraph.View.Basic

/-!
# Errors

The errors with which a cell may end. Each constructor is a cause of failure in the domain; texts are
made from it in one place, so that an error is compared by what it means.

A request that fails enriches the error that made it fail; taking the enrichment off again, however
often it was put on, gives the root:

    root (yank cause keys view) = root cause
-/

namespace RequestGraph

/-- The assumptions that the library makes about its own state. They are checked where they are used,
and no run breaks them as long as there are indices left. -/
inductive Assumption where
  /-- A completed cell has an outcome. -/
  | outcomePresent
  /-- The listeners of a pending cell can be added to. -/
  | listenersOpen
  /-- A countdown that settles still has its continuation. -/
  | continuationPresent
  /-- A frozen ledger can be read. -/
  | ledgerReadable
  /-- There is an index left for a new key. -/
  | indexLeft
deriving Repr, DecidableEq

/-- The text of a broken assumption. -/
def Assumption.message : Assumption → String
  | .outcomePresent => "a completed cell has no outcome"
  | .listenersOpen => "the listeners of a pending cell are closed"
  | .continuationPresent => "a countdown settled twice"
  | .ledgerReadable => "a frozen ledger cannot be read"
  | .indexLeft => "every index is given away"

/-- What code that breaks off carries with it. -/
inductive Panic where
  /-- A message. -/
  | message (text : String)
  /-- Something that is no text. -/
  | foreign
  /-- An assumption of the library that turned out wrong. -/
  | broken (assumption : Assumption)
deriving Repr, DecidableEq

/-- What setting a deadline breaks off with if the clock cannot show it. -/
def Panic.beyondClock : Panic := .message "overflow when adding duration to instant"

/-- A completion that presents the wrong token. -/
inductive OwnershipError where
  /-- The cell is owned by another token. -/
  | mismatch
  /-- Nobody owns the cell, yet a token was presented. -/
  | superfluous
  /-- The cell is owned, yet no token was presented. -/
  | missing
deriving Repr, DecidableEq

/-- Why a computation failed. -/
inductive Failure where
  /-- A message, and the messages of what it was caused by, down to the first cause. -/
  | trail (message : String) (causes : List String)
  /-- A completion presented the wrong token. -/
  | ownership (e : OwnershipError)
deriving Repr, DecidableEq

/-- A plain value that was raised where an error was expected. -/
inductive PlainValue where
  | number (n : Int64)
  | text (s : String)
  | flag (b : Bool)
  | unit
  | numbers (ns : List Int64)
deriving Repr, DecidableEq

/-- A raised value with its text. -/
structure Raised where
  /-- How the value is shown. -/
  rendered : String
  /-- The value itself, if it could be kept. -/
  value : Option PlainValue
deriving Repr, DecidableEq

/-- The errors with which a cell ends. -/
inductive Error where
  /-- A node or a transformation failed. -/
  | computation (failure : Failure)
  /-- The cell that this one depended on was completed first; the cause is that cell's error. -/
  | revoked (cause : Option Error)
  /-- The context was frozen before the cell could be registered. -/
  | contextFinished
  /-- The context was cancelled while the cell was pending. -/
  | cancelled (cause : Option Error)
  /-- Something that is no error was raised. -/
  | nonError (raised : Raised)
  /-- No node is registered for a key, which is given as it is shown. -/
  | unknownNode (key : String)
  /-- Waiting took longer than allowed. -/
  | timeout (after : Duration)
  /-- A whole request failed: the error that made it fail, the keys it asked for, and what it had
  produced by then. -/
  | yank (cause : Error) (requested : List String) (snapshot : View)
deriving Repr

/-- A context that was frozen a second time. -/
inductive ContextError where
  | alreadyFrozen
deriving Repr, DecidableEq

namespace PlainValue

/-- How a value is shown. -/
def render : PlainValue → String
  | .number n => Text.integer n.toInt
  | .text s => Text.quoted s
  | .flag b => Text.flag b
  | .unit => "()"
  | .numbers ns => Text.sequence (ns.map fun n => Text.integer n.toInt)

end PlainValue

namespace Error

instance : Inhabited Error := ⟨.contextFinished⟩

/-- A failure with a message. -/
def ofMessage (text : String) : Error := .computation (.trail text [])

/-- A failure with a message and the messages of its causes. -/
def ofTrail (text : String) (causes : List String) : Error := .computation (.trail text causes)

/-- A violated ownership, as the failure of a computation. -/
def ofOwnership (e : OwnershipError) : Error := .computation (.ownership e)

/-- A value that was raised. -/
def ofValue (v : PlainValue) : Error := .nonError ⟨v.render, some v⟩

/-- What was caught when code broke off. A message is kept as a value and shown as it is. -/
def ofPanic : Panic → Error
  | .message text => .nonError ⟨text, some (.text text)⟩
  | .foreign => .nonError ⟨"opaque panic payload", none⟩
  | .broken assumption => .nonError ⟨assumption.message, some (.text assumption.message)⟩

/-- A refusal to freeze a context, as an error of a cell. -/
def ofContextError : ContextError → Error
  | .alreadyFrozen => .contextFinished

/-- Whether a context raised this as a cancellation. -/
def isCancelled : Error → Bool
  | .cancelled _ => true
  | _ => false

/-- Whether another cell raised this as a revocation. -/
def isRevoked : Error → Bool
  | .revoked _ => true
  | _ => false

/-- Whether this is the failure of a whole request. -/
def isYank : Error → Bool
  | .yank .. => true
  | _ => false

/-- The error below all enrichment. -/
def root : Error → Error
  | .yank cause _ _ => cause.root
  | e => e

/-- A wrapped error has the root of its cause. -/
@[simp] theorem root_yank (cause : Error) (requested : List String) (snapshot : View) :
    (yank cause requested snapshot).root = cause.root := rfl

end Error

end RequestGraph
