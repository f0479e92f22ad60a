import RequestGraph.AppendList.Basic
import RequestGraph.Error.Message

/-!
# Cells

A cell is a value that is assigned once, now or later. It starts pending and is completed exactly
once, with a value or an error; listeners that were registered while it was pending are told then.

A pending cell may be *owned*: a token is bound to it, and from then on only completions that present
this token are accepted. A completion without any claim to ownership is refused quietly, one that
presents the wrong token is told so:

    c.complete o a = .completed ..           iff   c is pending and accepts a
    c.complete o a = .refused c (.error e)   iff   c is pending and a presents the wrong token

Every change of a cell happens between `enter`, which replaces a pending phase by the locked one, and
`leave`, which ends the locked phase. A change that is refused leaves with the phase that was replaced,
and so gives back the very cell it entered.
-/

namespace RequestGraph

/-- The number of a cell. -/
abbrev CellId := Nat

/-- What a token is known by. -/
abbrev Token := Nat

/-- What a cell is completed with when it succeeds. -/
inductive Value where
  /-- What nodes and transformations produce. -/
  | number (n : Int64)
  /-- What a whole request produces. -/
  | view (v : View)
deriving Repr, DecidableEq

/-- The number that a value is. A view is none. -/
def Value.number? : Value → Option Int64
  | .number n => some n
  | .view _ => none

/-- The number that a value is, or zero for a view. -/
def Value.toNumber (v : Value) : Int64 := v.number?.getD 0

/-- What a cell is completed with. -/
abbrev Outcome := Except Error Value

/-- The error of an outcome. -/
def Outcome.error? : Outcome → Option Error
  | .ok _ => none
  | .error e => some e

/-- How far a cell has come. -/
inductive Phase where
  /-- Pending, and nobody has shown interest. -/
  | empty
  /-- Pending, with listeners or an owner. -/
  | listening
  /-- Pending, in the middle of a change. -/
  | locked
  /-- Completed with a value. -/
  | succeeded
  /-- Completed with an error. -/
  | failed
deriving Repr, DecidableEq

namespace Phase

/-- Whether a cell in this phase has been completed. -/
def isRealized : Phase → Bool
  | .succeeded | .failed => true
  | _ => false

/-- The name of a phase. -/
def name : Phase → String
  | .empty => "Empty"
  | .listening => "Listening"
  | .locked => "Locked"
  | .succeeded => "Succeeded"
  | .failed => "Failed"

/-- The phase of a cell completed with an outcome. -/
def ofOutcome : Outcome → Phase
  | .ok _ => .succeeded
  | .error _ => .failed

end Phase

/-- The gate before which waiting threads stand. One gate serves all who wait for a cell. -/
inductive Latch where
  /-- Nobody has waited. -/
  | absent
  /-- Somebody has waited, and the cell has not told the gate that it was completed. -/
  | shut
  /-- The gate lets everybody through. -/
  | opened
deriving Repr, DecidableEq

/-- In whose name a cell is completed. -/
inductive Authority where
  /-- In nobody's; refused without a word if the cell is owned. -/
  | unowned
  /-- Presenting a token, or expressly none; a wrong one is reported. -/
  | presenting (token : Option Token)
deriving Repr, DecidableEq

/-- The answer to a completion: whether it was this one that completed the cell, or what was wrong
with its token. -/
abbrev Verdict := Except OwnershipError Bool

/-- A single assignment value, with listeners of some kind. -/
structure Cell (κ : Type) where
  phase : Phase := .empty
  /-- The token that the cell is bound to. -/
  owner : Option Token := none
  outcome : Option Outcome := none
  /-- Who is told about the completion, first registered first. -/
  listeners : AppendList κ := {}
  /-- The cell that is revoked after everybody was told. Only cells can be revoked, so that what a
  revocation does is known: it completes that cell, unless that is realized or owned. -/
  revokee : Option CellId := none
  /-- A text that may be attached once. -/
  label : Option String := none
  latch : Latch := .absent

namespace Cell

variable {κ : Type}

instance : Inhabited (Cell κ) := ⟨{}⟩

/-- A pending cell owned by a token. -/
def owned (token : Token) : Cell κ := { phase := .listening, owner := some token }

/-- A cell that was completed from the start. -/
def realized (outcome : Outcome) : Cell κ :=
  { phase := .ofOutcome outcome, outcome := some outcome }

/-- Whether the cell has been completed. -/
def isRealized (c : Cell κ) : Bool := c.phase.isRealized

/-- The outcome of a completed cell. -/
def peek (c : Cell κ) : Option Outcome := if c.isRealized then c.outcome else none

/-- The value of a cell that succeeded. -/
def value? (c : Cell κ) : Option Value :=
  match c.peek with
  | some (.ok v) => some v
  | _ => none

/-- The error of a cell that failed. -/
def error? (c : Cell κ) : Option Error :=
  match c.peek with
  | some (.error e) => some e
  | _ => none

/-- Whether a token is bound. -/
def isClaimed (c : Cell κ) : Bool := c.owner.isSome

/-! ### The locked phase -/

/-- What trying to enter the locked phase of a cell gives. -/
inductive Entry (κ : Type) where
  /-- The cell was pending, in the phase that is given, and is locked now. -/
  | entered (replaced : Phase) (cell : Cell κ)
  /-- The cell is completed. -/
  | realized
  /-- Somebody is changing the cell. -/
  | busy

/-- Tries to enter the locked phase. -/
def enter (c : Cell κ) : Entry κ :=
  match c.phase with
  | .empty | .listening => .entered c.phase { c with phase := .locked }
  | .locked => .busy
  | .succeeded | .failed => .realized

/-- Ends the locked phase. -/
def leave (c : Cell κ) (phase : Phase) : Cell κ := { c with phase }

/-- Leaving restores the phase that entering has replaced. -/
theorem leave_of_enter {c locked : Cell κ} {replaced : Phase}
    (h : c.enter = .entered replaced locked) : locked.leave replaced = c := by
  cases c with
  | mk phase => cases phase <;> cases h <;> rfl

/-! ### Changes of a pending cell -/

/-- What claiming a cell gives. -/
inductive Claiming (κ : Type) where
  | claimed (cell : Cell κ)
  /-- The cell is owned or completed. -/
  | refused (cell : Cell κ)
  | busy

/-- Binds a token to a pending cell that has none. -/
def claim (c : Cell κ) (token : Token) : Claiming κ :=
  match c.enter with
  | .busy => .busy
  | .realized => .refused c
  | .entered replaced locked =>
    if locked.isClaimed then .refused (locked.leave replaced)
    else .claimed ({ locked with owner := some token }.leave .listening)

/-- Why an authority may not complete a cell with such an owner: quietly (`none`) or with a reason. -/
def violation? (owner : Option Token) : Authority → Option (Option OwnershipError)
  | .unowned => if owner.isSome then some none else none
  | .presenting presented =>
    match owner, presented with
    | none, none => none
    | none, some _ => some (some .superfluous)
    | some _, none => some (some .missing)
    | some o, some t => if o = t then none else some (some .mismatch)

/-- What completing a cell gives. -/
inductive Completion (κ : Type) where
  /-- The cell is completed; these are to be told, and this one is to be revoked. -/
  | completed (cell : Cell κ) (listeners : List κ) (revokee : Option CellId)
  /-- The completion was refused. -/
  | refused (cell : Cell κ) (verdict : Verdict)
  | busy

/-- Completes a pending cell that accepts the authority. Its listeners and its revokee are taken out. -/
def complete (c : Cell κ) (outcome : Outcome) (authority : Authority) : Completion κ :=
  match c.enter with
  | .busy => .busy
  | .realized => .refused c (.ok false)
  | .entered replaced locked =>
    match violation? locked.owner authority with
    | some none => .refused (locked.leave replaced) (.ok false)
    | some (some e) => .refused (locked.leave replaced) (.error e)
    | none =>
      .completed
        ({ locked with outcome := some outcome, listeners := {}, revokee := none }.leave
          (.ofOutcome outcome))
        locked.listeners.toList locked.revokee

/-- What registering with a cell gives. -/
inductive Registration (κ : Type) where
  /-- The cell will tell; `accepted` says whether the list of listeners took the new one. -/
  | registered (cell : Cell κ) (accepted : Bool)
  /-- The cell is completed. -/
  | realized
  | busy

/-- Registers a listener with a pending cell. -/
def subscribe (c : Cell κ) (listener : κ) : Registration κ :=
  match c.enter with
  | .busy => .busy
  | .realized => .realized
  | .entered _ locked =>
    match locked.listeners.push listener with
    | (listeners, .accepted) => .registered ({ locked with listeners }.leave .listening) true
    | (listeners, .rejected _) => .registered ({ locked with listeners }.leave .listening) false

/-- Links a cell that is revoked once a pending cell is completed, in place of any linked before. The
phase stays as it is. -/
def link (c : Cell κ) (dependent : CellId) : Registration κ :=
  match c.enter with
  | .busy => .busy
  | .realized => .realized
  | .entered replaced locked =>
    .registered ({ locked with revokee := some dependent }.leave replaced) true

/-- The text that shows a cell. -/
def render (c : Cell κ) : String :=
  let outcome := match c.peek with
    | none => []
    | some (.ok v) => [("outcome", Text.variant "Ok" (match v with
        | .number n => Text.integer n.toInt
        | .view v => v.render))]
    | some (.error e) => [("outcome", Text.variant "Err" e.render)]
  Text.record "Deferred"
    ([("state", c.phase.name)] ++ outcome ++ [("claimed", Text.flag c.isClaimed)])

end Cell

end RequestGraph
