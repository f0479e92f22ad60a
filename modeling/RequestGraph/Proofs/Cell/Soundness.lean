import RequestGraph.Cell.Basic
import RequestGraph.Proofs.AppendList.Shape

/-!
# Soundness of cells

Between two changes a cell is never locked, it has an outcome exactly when it is realized, a realized
cell has nothing left to tell or to revoke, and a pending one is empty exactly when it has neither an
owner nor a listener. On such cells every change has one plain description:

    c.complete o a  =  .refused c (.ok false)     if c is realized
    c.complete o a  =  .refused c ..              if a may not complete a cell with c's owner
    c.complete o a  =  .completed (c.completed o) c.listeners.toList c.revokee    otherwise
-/

namespace RequestGraph

namespace Phase

/-- The phase that an outcome leads to is a realized one. -/
theorem isRealized_ofOutcome (o : Outcome) : (ofOutcome o).isRealized = true := by
  cases o <;> rfl

/-- No outcome leads to the phase that is only held during a change. -/
theorem ofOutcome_ne_locked (o : Outcome) : ofOutcome o ≠ .locked := by
  cases o <;> exact Phase.noConfusion

end Phase

namespace Cell

variable {κ : Type}

/-- What holds of every cell between two changes. -/
structure Sound (c : Cell κ) : Prop where
  unlocked : c.phase ≠ .locked
  /-- A realized cell has an outcome. -/
  present : c.isRealized = true → c.outcome.isSome = true
  /-- An outcome is that of a realized cell, and of the right kind. -/
  phase_of_outcome : ∀ o, c.outcome = some o → c.phase = .ofOutcome o
  /-- A realized cell has nobody left to tell, and nobody to revoke. -/
  emptied : c.isRealized = true → c.listeners.toList = [] ∧ c.revokee = none
  /-- Every cell can take listeners. -/
  takes : c.listeners.IsOpen
  /-- A pending cell is empty exactly if nobody has shown interest. -/
  idle : c.isRealized = false → (c.phase = .empty ↔ c.owner = none ∧ c.listeners.toList = [])

/-- The cell after its completion. -/
def completed (c : Cell κ) (o : Outcome) : Cell κ :=
  { c with phase := .ofOutcome o, outcome := some o, listeners := {}, revokee := none }

/-- The cell after a listener was registered with it. -/
def listened (c : Cell κ) (l : κ) : Cell κ :=
  { c with phase := .listening, listeners := (c.listeners.push l).1 }

/-! ## What is to be seen of a cell

The phase says whether the outcome may be read. In a sound cell the two agree, so reading the outcome and
asking for the phase come to the same.
-/

/-- In a sound cell the phase never hides the outcome that is stored. -/
theorem Sound.peek_eq_outcome {c : Cell κ} (h : c.Sound) : c.peek = c.outcome := by
  rw [peek]
  split
  · rfl
  · next hpending =>
    cases ho : c.outcome with
    | none => rfl
    | some o =>
      have := h.phase_of_outcome o ho
      rw [isRealized, this, Phase.isRealized_ofOutcome] at hpending
      exact absurd rfl hpending

/-- There is an outcome to be seen exactly if the cell is realized. -/
theorem Sound.isSome_peek {c : Cell κ} (h : c.Sound) : c.peek.isSome = c.isRealized := by
  cases hr : c.isRealized with
  | true => rw [h.peek_eq_outcome, h.present hr]
  | false => simp [peek, hr]

/-- A pending cell shows no outcome. -/
theorem peek_of_pending {c : Cell κ} (h : c.isRealized = false) : c.peek = none := by
  simp [peek, h]

/-- What shows an outcome is realized, sound or not. -/
theorem isRealized_of_peek {c : Cell κ} {o : Outcome} (h : c.peek = some o) :
    c.isRealized = true := by
  rw [peek] at h
  split at h
  · next hr => exact hr
  · cases h

@[simp] theorem isRealized_completed (c : Cell κ) (o : Outcome) :
    (c.completed o).isRealized = true := Phase.isRealized_ofOutcome o

/-- A value that can be read is the outcome to be seen. -/
theorem peek_of_value? {c : Cell κ} {v : Value} (h : c.value? = some v) : c.peek = some (.ok v) := by
  rw [value?] at h
  split at h
  · next hv =>
    cases h
    exact hv
  · cases h

@[simp] theorem peek_completed (c : Cell κ) (o : Outcome) : (c.completed o).peek = some o := by
  rw [peek, isRealized_completed, if_pos rfl, completed]

/-- A sound pending cell is empty or listening. -/
theorem Sound.phase_of_pending {c : Cell κ} (h : c.Sound) (hp : c.isRealized = false) :
    c.phase = .empty ∨ c.phase = .listening := by
  have hunlocked := h.unlocked
  rw [isRealized] at hp
  cases hphase : c.phase <;> simp_all [Phase.isRealized]

/-! ## Changes of sound cells

Each change locks the cell, looks at its phase, and leaves it again. A sound cell is never found locked, so
the change is made at once or not at all.
-/

/-- The spin on a pending cell ends at once: nobody is in the middle of a change. -/
theorem Sound.enter_pending {c : Cell κ} (h : c.Sound) (hp : c.isRealized = false) :
    c.enter = .entered c.phase { c with phase := .locked } := by
  rcases h.phase_of_pending hp with hphase | hphase <;> simp [enter, hphase]

/-- A realized cell is never locked again. -/
theorem enter_realized {c : Cell κ} (h : c.isRealized = true) : c.enter = .realized := by
  rw [isRealized] at h
  cases hphase : c.phase <;> simp_all [Phase.isRealized, enter]

/-- Completing a sound cell, without the branches of `enter` that are never taken. -/
theorem Sound.complete_eq {c : Cell κ} (h : c.Sound) (o : Outcome) (a : Authority) :
    c.complete o a =
      if c.isRealized then .refused c (.ok false)
      else match violation? c.owner a with
        | some none => .refused c (.ok false)
        | some (some e) => .refused c (.error e)
        | none => .completed (c.completed o) c.listeners.toList c.revokee := by
  cases hr : c.isRealized with
  | true => simp [complete, enter_realized hr]
  | false =>
    rw [complete, h.enter_pending hr]
    simp only [Bool.false_eq_true, if_false]
    cases hv : violation? c.owner a with
    | none => rfl
    | some v => cases v <;> rfl

/-- Claiming a sound cell: it is refused if the cell is realized or has been claimed. -/
theorem Sound.claim_eq {c : Cell κ} (h : c.Sound) (t : Token) :
    c.claim t =
      if c.isRealized || c.isClaimed then .refused c
      else .claimed { c with phase := .listening, owner := some t } := by
  cases hr : c.isRealized with
  | true => simp [claim, enter_realized hr]
  | false =>
    rw [claim, h.enter_pending hr]
    cases hc : c.isClaimed with
    | true =>
      have hlocked : ({ c with phase := .locked } : Cell κ).isClaimed = true := hc
      simp [hlocked, leave]
    | false =>
      have hlocked : ({ c with phase := .locked } : Cell κ).isClaimed = false := hc
      simp [hlocked, leave]

/-- Subscribing to a sound cell: the listener comes last if the cell is pending. -/
theorem Sound.subscribe_eq {c : Cell κ} (h : c.Sound) (l : κ) :
    c.subscribe l = if c.isRealized then .realized else .registered (c.listened l) true := by
  cases hr : c.isRealized with
  | true => simp [subscribe, enter_realized hr]
  | false =>
    have hpush : c.listeners.push l = ((c.listeners.push l).1, .accepted) := by
      rw [← (h.takes.push_eq l).1]
    rw [subscribe, h.enter_pending hr]
    simp only [Bool.false_eq_true, if_false]
    rw [hpush]
    rfl

/-- Linking a sound cell: the revokee of a pending cell is replaced. -/
theorem Sound.link_eq {c : Cell κ} (h : c.Sound) (d : CellId) :
    c.link d = if c.isRealized then .realized else .registered { c with revokee := some d } true := by
  cases hr : c.isRealized with
  | true => simp [link, enter_realized hr]
  | false => simp [link, h.enter_pending hr, leave]

/-! ## Changes keep cells sound

The fields of a cell are tied to each other by its phase: an owner or a listener is kept only while the cell
is pending, and an outcome only afterwards.
-/

/-- A new cell is sound. -/
theorem sound_default : (default : Cell κ).Sound where
  unlocked := by exact Phase.noConfusion
  present h := by cases h
  phase_of_outcome o h := by cases h
  emptied h := by cases h
  takes := .blank
  idle _ := ⟨fun _ => ⟨rfl, rfl⟩, fun _ => rfl⟩

/-- A cell that is claimed from the start is sound. -/
theorem sound_owned (t : Token) : (owned t : Cell κ).Sound where
  unlocked := by exact Phase.noConfusion
  present h := by cases h
  phase_of_outcome o h := by cases h
  emptied h := by cases h
  takes := .blank
  idle _ := ⟨nofun, fun h => nomatch h.1⟩

/-- A cell that is made with its outcome is sound. -/
theorem sound_realized (o : Outcome) : (realized o : Cell κ).Sound where
  unlocked := Phase.ofOutcome_ne_locked o
  present _ := rfl
  phase_of_outcome o' h := by cases h; rfl
  emptied _ := ⟨rfl, rfl⟩
  takes := .blank
  idle h := by
    rw [isRealized, realized, Phase.isRealized_ofOutcome] at h
    cases h

/-- Completing stores the outcome with the phase that belongs to it. -/
theorem sound_completed (c : Cell κ) (o : Outcome) : (c.completed o).Sound where
  unlocked := Phase.ofOutcome_ne_locked o
  present _ := rfl
  phase_of_outcome o' h' := by cases h'; rfl
  emptied _ := ⟨rfl, rfl⟩
  takes := .blank
  idle h' := by
    rw [isRealized_completed] at h'
    cases h'

/-- Nothing is stored in a cell that is pending. -/
theorem Sound.outcome_of_pending {c : Cell κ} (h : c.Sound) (hp : c.isRealized = false) :
    c.outcome = none := by
  rw [← h.peek_eq_outcome, peek_of_pending hp]

/-- Claiming a pending cell keeps it sound. -/
theorem Sound.claimed {c : Cell κ} (h : c.Sound) (hp : c.isRealized = false) (t : Token) :
    ({ c with phase := .listening, owner := some t } : Cell κ).Sound where
  unlocked := by exact Phase.noConfusion
  present h' := by cases h'
  phase_of_outcome o h' := by
    have := h.outcome_of_pending hp
    simp_all
  emptied h' := by cases h'
  takes := h.takes
  idle _ := ⟨nofun, fun h' => nomatch h'.1⟩

/-- A listener that is added comes after those that are there. -/
theorem Sound.toList_listened {c : Cell κ} (h : c.Sound) (l : κ) :
    (c.listened l).listeners.toList = c.listeners.toList ++ [l] := (h.takes.push_eq l).2.2

/-- Listening to a pending cell keeps it sound. -/
theorem Sound.listened {c : Cell κ} (h : c.Sound) (hp : c.isRealized = false) (l : κ) :
    (c.listened l).Sound where
  unlocked := by exact Phase.noConfusion
  present h' := by cases h'
  phase_of_outcome o h' := by
    have := h.outcome_of_pending hp
    simp_all [Cell.listened]
  emptied h' := by cases h'
  takes := (h.takes.push_eq l).2.1
  idle _ := by
    rw [h.toList_listened l]
    exact ⟨nofun, fun h' => by simp at h'⟩

/-- Linking a pending cell keeps it sound. -/
theorem Sound.linked {c : Cell κ} (h : c.Sound) (hp : c.isRealized = false) (d : CellId) :
    ({ c with revokee := some d } : Cell κ).Sound where
  unlocked := h.unlocked
  present h' := h.present h'
  phase_of_outcome o h' := h.phase_of_outcome o h'
  emptied h' := by
    have : c.isRealized = true := h'
    rw [hp] at this
    cases this
  takes := h.takes
  idle h' := h.idle h'

/-- The label and the latch of a cell have no part in its soundness. -/
theorem Sound.marked {c : Cell κ} (h : c.Sound) (label : Option String) (latch : Latch) :
    ({ c with label, latch } : Cell κ).Sound :=
  ⟨h.unlocked, h.present, h.phase_of_outcome, h.emptied, h.takes, h.idle⟩

end Cell

end RequestGraph
