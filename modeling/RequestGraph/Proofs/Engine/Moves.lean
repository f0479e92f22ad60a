import RequestGraph.Engine.Machine
import RequestGraph.Proofs.Cell.Soundness

/-!
# Moves in sound worlds

In a world whose cells are all sound, no cell is ever found locked, and a realized cell has an outcome.
What a move does to a cell then has one plain description, without the branches that are never taken.
-/

namespace RequestGraph.World

/-- All cells of the world are sound. -/
def Sound (w : World) : Prop := ∀ c, (w.cell c).Sound

/-- What is read after a cell has been replaced: writing out of bounds changes nothing. -/
@[simp] theorem cell_setCell (w : World) (c d : CellId) (cell : Cell Subscription) :
    (w.setCell c cell).cell d = if c = d ∧ c < w.cells.size then cell else w.cell d :=
  Arena.get_set w.cells c d cell

theorem cell_setCell_self {w : World} {c : CellId} {cell : Cell Subscription}
    (there : c < w.cells.size) : (w.setCell c cell).cell c = cell := Arena.get_set_self there

theorem cell_setCell_of_ne {w : World} {c d : CellId} {cell : Cell Subscription} (h : c ≠ d) :
    (w.setCell c cell).cell d = w.cell d := Arena.get_set_of_ne h

/-- A new cell comes after all others, and those stay as they are. -/
@[simp] theorem cell_addCell (w : World) (cell : Cell Subscription) (c : CellId) :
    (w.addCell cell).cell c = if c = w.cells.size then cell else w.cell c :=
  Arena.get_push w.cells cell c

/-- Putting a cell back where it is changes nothing. -/
@[simp] theorem setCell_cell (w : World) (c : CellId) : w.setCell c (w.cell c) = w := by
  rw [setCell, cell, Arena.set_get_self]

/-- Where there is no cell yet, a pending one that nobody has touched is read. -/
theorem cell_of_size_le {w : World} {c : CellId} (h : w.cells.size ≤ c) : w.cell c = default :=
  Arena.get_of_size_le w.cells h

/-- Soundness is a property of each cell, so replacing one by a sound one keeps it. -/
theorem Sound.setCell {w : World} (h : w.Sound) (c : CellId) {cell : Cell Subscription}
    (hcell : cell.Sound) : (w.setCell c cell).Sound := by
  intro d
  rw [cell_setCell]
  split
  · exact hcell
  · exact h d

theorem Sound.addCell {w : World} (h : w.Sound) {cell : Cell Subscription} (hcell : cell.Sound) :
    (w.addCell cell).Sound := by
  intro d
  rw [cell_addCell]
  split
  · exact hcell
  · exact h d

/-- Soundness does not depend on anything but the cells. -/
theorem Sound.of_cells_eq {w w' : World} (h : w.Sound) (hcells : w'.cells = w.cells) :
    w'.Sound := by
  intro c
  rw [cell, hcells]
  exact h c

/-- A realized cell of a sound world has an outcome to be seen. -/
theorem peek_of_isRealized {w : World} (h : w.Sound) {c : CellId}
    (hr : (w.cell c).isRealized = true) : ∃ o, (w.cell c).peek = some o := by
  rw [← Option.isSome_iff_exists, (h c).isSome_peek, hr]

/-! ## The moves that change a cell

Four moves touch the state of a cell. Each is written out by cases on what the cell looks like, and the
cases in which a cell would be locked are gone.
-/

/-- Completing, case by case: a realized cell answers `false`, a violation of ownership is answered, and
otherwise the outcome is stored and delivered. -/
theorem complete_eq {w : World} (h : w.Sound) (c : CellId) (o : Outcome) (a : Authority) :
    w.complete c o a =
      if (w.cell c).isRealized then w.ret (.verdict (.ok false))
      else match Cell.violation? (w.cell c).owner a with
        | some none => w.ret (.verdict (.ok false))
        | some (some e) => w.ret (.verdict (.error e))
        | none => (w.setCell c ((w.cell c).completed o)).call
            (.deliver (w.cell c).listeners.toList (w.cell c).revokee o) := by
  rw [complete, (h c).complete_eq o a]
  cases (w.cell c).isRealized with
  | true => simp
  | false =>
    cases Cell.violation? (w.cell c).owner a with
    | none => simp
    | some v => cases v <;> simp

/-- A cell is claimed, with a fresh token, if it is neither realized nor claimed. -/
theorem tryClaim_eq {w : World} (h : w.Sound) (c : CellId) :
    w.tryClaim c =
      if (w.cell c).isRealized || (w.cell c).isClaimed then .refused w
      else .granted ({ w with freshToken := w.freshToken + 1 }.setCell c
        { w.cell c with phase := .listening, owner := some w.freshToken }) ⟨c, w.freshToken⟩ := by
  rw [tryClaim, (h c).claim_eq w.freshToken]
  cases (w.cell c).isRealized || (w.cell c).isClaimed <;> simp

/-- Subscribing to a realized cell notifies at once, and otherwise the listener comes last. -/
theorem subscribe_eq {w : World} (h : w.Sound) (c : CellId) (l : Listener) :
    w.subscribe c l =
      match (w.cell c).peek with
      | some o => { w with freshTicket := w.freshTicket + 1 }.call (.notify ⟨w.freshTicket, l⟩ o)
      | none => ({ w with freshTicket := w.freshTicket + 1 }.setCell c
          ((w.cell c).listened ⟨w.freshTicket, l⟩)).ret .unit := by
  rw [subscribe, (h c).subscribe_eq ⟨w.freshTicket, l⟩]
  cases hr : (w.cell c).isRealized with
  | true =>
    obtain ⟨o, ho⟩ := peek_of_isRealized h hr
    simp [ho]
  | false => simp [Cell.peek_of_pending hr]

/-- Linking a realized cell revokes the dependent at once, and otherwise replaces the revokee. -/
theorem link_eq {w : World} (h : w.Sound) (c d : CellId) :
    w.link c d =
      match (w.cell c).peek with
      | some o => w.call (.revoke d (Outcome.error? o))
      | none => (w.setCell c { w.cell c with revokee := some d }).ret .unit := by
  rw [link, (h c).link_eq d]
  cases hr : (w.cell c).isRealized with
  | true =>
    obtain ⟨o, ho⟩ := peek_of_isRealized h hr
    simp [ho]
  | false => simp [Cell.peek_of_pending hr]

/-! ## Completions

Whether a completion is accepted depends on the cell and its owner, and not on the outcome. So refusals are
computed by themselves.
-/

section Completions

variable {w : World} {c : CellId} {o : Outcome} {a : Authority}

/-- What a completion comes to that its cell refuses, or `none` if the cell accepts it. -/
def refusal? (w : World) (c : CellId) (a : Authority) : Option Verdict :=
  if (w.cell c).isRealized then some (.ok false)
  else match Cell.violation? (w.cell c).owner a with
    | some none => some (.ok false)
    | some (some e) => some (.error e)
    | none => none

/-- A completion that is refused answers why and changes nothing. -/
theorem complete_of_refusal (h : w.Sound) {v : Verdict} (hv : w.refusal? c a = some v) :
    w.invoke (.complete c o a) = w.ret (.verdict v) := by
  show w.complete c o a = _
  rw [complete_eq h]
  unfold refusal? at hv
  split at hv
  · next hr =>
      cases hv
      rw [if_pos hr]
  · next hr =>
      rw [if_neg hr]
      split at hv
      · cases hv
        rfl
      · cases hv
        rfl
      · cases hv

/-- A completion that is accepted stores its outcome before it delivers it. -/
theorem complete_of_accepted (h : w.Sound) (hv : w.refusal? c a = none) :
    w.invoke (.complete c o a) = (w.setCell c ((w.cell c).completed o)).call
      (.deliver (w.cell c).listeners.toList (w.cell c).revokee o) := by
  show w.complete c o a = _
  rw [complete_eq h]
  unfold refusal? at hv
  split at hv
  · cases hv
  · next hr =>
      rw [if_neg hr]
      split at hv
      · cases hv
      · cases hv
      · rfl

end Completions

end RequestGraph.World
