import RequestGraph.SlotTable.Basic

/-!
# Programs on a slot table

The value that fills a slot is made by code of the caller, and that code may itself use the table:
fill other slots, or the very same one, or break off. A program is a list of steps, and a step that
fills a slot carries the steps that its maker runs first. What a run leaves behind is the table and an
answer for every step that came to its end.

The maker runs exactly when the slot is empty on entry; when it breaks off, so do all steps around it,
and none of them fills its slot.
-/

namespace RequestGraph.SlotTable

/-- The end of a maker: the value it makes, or the text it breaks off with. -/
inductive Made (α : Type) where
  | value (v : α)
  | panic (message : String)
deriving Repr

/-- One use of a table. -/
inductive Step (α : Type) where
  /-- Reads a slot. -/
  | get (index : UInt64)
  /-- Fills a slot unless it is filled, with what is made after the nested steps have run. -/
  | put (index : UInt64) (nested : List (Step α)) (made : Made α)
  /-- Shows the table. -/
  | render

/-- What a step answers. -/
inductive Answer (α : Type) where
  /-- The value of the slot of an index. -/
  | found (index : UInt64) (value : Option α)
  /-- The value of the slot of an index after a put, whether it was installed, and whether its maker
  ran. -/
  | put (index : UInt64) (value : α) (installed made : Bool)
  /-- A shown table. -/
  | text (s : String)
deriving Repr, DecidableEq

/-- The text that an index without a segment breaks off with. -/
def outOfBounds (index : UInt64) : String :=
  "index out of bounds: the len is " ++ Text.natural Location.segmentCount ++
    " but the index is " ++ Text.natural (Location.of index).segment.toNat

/-- What a step or a list of steps leaves behind: the table, the answers of the nested steps that came
to their end, in that order, and the end itself. -/
structure Outcome (α ε : Type) where
  table : SlotTable α
  nested : List (Answer α) := []
  result : Except String ε

variable {α : Type}

mutual

/-- Runs one step. -/
def Step.run (t : SlotTable α) : Step α → Outcome α (Answer α)
  | .render => ⟨t, [], .ok (.text t.render)⟩
  | .get index =>
    if (Location.of index).addressable then ⟨t, [], .ok (.found index (t.lookup index))⟩
    else ⟨t, [], .error (outOfBounds index)⟩
  | .put index nested made =>
    if (Location.of index).addressable then
      match t.lookup index with
      | some there => ⟨t, [], .ok (.put index there false false)⟩
      | none =>
        let inner := runNested (t.allocate index) nested
        match inner.result, made with
        | .error message, _ => ⟨inner.table, inner.nested, .error message⟩
        | .ok _, .panic message => ⟨inner.table, inner.nested, .error message⟩
        | .ok _, .value v =>
          let installed := inner.table.install index v
          ⟨installed.table, inner.nested, .ok (.put index installed.value installed.won true)⟩
    else ⟨t, [], .error (outOfBounds index)⟩

/-- Runs the steps of a maker, one after another, until one breaks off. -/
def runNested (t : SlotTable α) : List (Step α) → Outcome α Unit
  | [] => ⟨t, [], .ok ()⟩
  | step :: rest =>
    let first := step.run t
    match first.result with
    | .error message => ⟨first.table, first.nested, .error message⟩
    | .ok answer =>
      let others := runNested first.table rest
      ⟨others.table, first.nested ++ answer :: others.nested, others.result⟩

end

/-- The outcome of one top level step: the answers of its nested steps, and its own answer or the text
it broke off with. -/
structure Entry (α : Type) where
  nested : List (Answer α)
  result : Except String (Answer α)

/-- Runs a program; a step that breaks off does not keep the next from running. -/
def runProgram (t : SlotTable α) : List (Step α) → List (Entry α)
  | [] => []
  | step :: rest =>
    let first := step.run t
    ⟨first.nested, first.result⟩ :: runProgram first.table rest

end RequestGraph.SlotTable
