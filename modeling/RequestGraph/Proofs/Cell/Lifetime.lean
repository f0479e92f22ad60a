import RequestGraph.Proofs.Ownership

/-!
# The life of a cell

Whatever the code of users does, and wherever it breaks off, a cell is sound at every machine of every run,
and it only moves on:

    empty  →  listening  →  succeeded or failed

It keeps its owner and its outcome for good, and one completion at most reports that it was the one that
completed the cell.
-/

namespace RequestGraph

/-! ## Phases

A cell that is completed may have skipped the phase in which it is listened to. So the order is on phases,
and does not say by how many steps a cell gets from one to the next.
-/

namespace Phase

/-- How a cell may move on. Steps may be skipped, and the end is for good. -/
inductive Advances : Phase → Phase → Prop
  | stays {p : Phase} : Advances p p
  | begins {p : Phase} : Advances .empty p
  | ends {p : Phase} (realized : p.isRealized = true) : Advances .listening p

variable {p q r : Phase}

theorem Advances.eq_of_isRealized (h : p.Advances q) (hp : p.isRealized = true) : q = p := by
  cases h with
  | stays => rfl
  | begins => cases hp
  | ends => cases hp

theorem Advances.trans (h : p.Advances q) (h' : q.Advances r) : p.Advances r := by
  cases h with
  | stays => exact h'
  | begins => exact .begins
  | ends realized =>
      obtain rfl := h'.eq_of_isRealized realized
      exact .ends realized

end Phase

/-- A completion that a cell does not refuse is accepted: the cell is pending, and may be completed by that
authority. -/
theorem World.refusal?_eq_none {w : World} {c : CellId} {a : Authority} :
    w.refusal? c a = none ↔
      (w.cell c).isRealized = false ∧ Cell.violation? (w.cell c).owner a = none := by
  unfold refusal?
  split
  · next hr => simp [hr]
  · next hr =>
      have hp := Bool.eq_false_iff.mpr hr
      split <;> simp_all

namespace Machine

/-- A completion of a cell is accepted next. -/
def Completes (m : Machine) (c : CellId) : Prop :=
  ∃ o a, m.control = .call (.complete c o a) ∧ (m.world.cell c).isRealized = false ∧
    Cell.violation? (m.world.cell c).owner a = none

variable {m : Machine} {c : CellId} {cell : Cell Subscription}

/-- One step moves a cell on, or leaves it where it is. -/
theorem Becomes.advances (h : m.Becomes c cell) (sound : (m.world.cell c).Sound) :
    (m.world.cell c).phase.Advances cell.phase := by
  cases h with
  | kept => exact .stays
  | allocated fresh =>
      rw [World.cell_of_size_le (Nat.le_of_eq fresh.symm)]
      exact .begins
  | completed _ _ pending =>
      rcases sound.phase_of_pending pending with hphase | hphase
      · exact hphase ▸ .begins
      · exact hphase ▸ .ends (Phase.isRealized_ofOutcome _)
  | claimed pending | listened _ _ pending =>
      rcases sound.phase_of_pending pending with hphase | hphase
      · exact hphase ▸ .begins
      · exact hphase ▸ .stays
  | linked => exact .stays
  | marked => exact .stays

/-- A cell that is pending after a run was pending before. -/
theorem pending_of_iterate {n : ℕ} (sound : m.world.Sound)
    (h : ((m.iterate n).world.cell c).isRealized = false) : (m.world.cell c).isRealized = false := by
  induction n generalizing m with
  | zero => exact h
  | succ n ih => exact pending_of_step sound (ih (step_sound sound) h)

/-! ## Completions that are reported

A completion reports that it was the one only if it is accepted, and then it realizes the cell in its very
first step. So a second one that reports so finds the cell realized, and there is none.
-/

/-- The next call is to complete a cell, and comes back saying that it was this one that did. -/
inductive Reports (m : Machine) (c : CellId) : Prop
  | completion {o : Outcome} {a : Authority} {w' : World} (call : m.control = .call (.complete c o a))
      (reports : m.world.Performs (.complete c o a) w' (.ret (.verdict (.ok true)))) : Reports m c
  | revocation {cause : Option Error} {w' : World} (call : m.control = .call (.revoke c cause))
      (reports : m.world.Performs (.revoke c cause) w' (.ret (.verdict (.ok true)))) : Reports m c

/-- Only a completion that the cell accepts reports so. -/
theorem refusal?_of_performs {w w' : World} {o : Outcome} {a : Authority} (sound : w.Sound)
    (h : w.Performs (.complete c o a) w' (.ret (.verdict (.ok true)))) : w.refusal? c a = none := by
  cases hv : w.refusal? c a with
  | none => rfl
  | some v =>
      obtain ⟨-, hret⟩ := (World.performs_of_refusal sound hv).mp h
      cases hret
      unfold World.refusal? at hv
      split at hv
      · cases hv
      · split at hv <;> cases hv

theorem pending_of_refusal? {w : World} {a : Authority} (h : w.refusal? c a = none) :
    (w.cell c).isRealized = false := (World.refusal?_eq_none.mp h).1

/-- A revocation that reports so was of a pending cell, and goes on with a completion. -/
theorem pending_of_revoke {w w' : World} {cause : Option Error}
    (h : w.Performs (.revoke c cause) w' (.ret (.verdict (.ok true)))) :
    (w.cell c).isRealized = false ∧
      w.invoke (.revoke c cause) = w.call (.complete c (.error (.revoked cause)) .unowned) := by
  have hinvoke : w.invoke (.revoke c cause) = w.revoke c cause := rfl
  unfold World.revoke at hinvoke
  split at hinvoke
  · obtain ⟨-, hret⟩ := (World.performs_end hinvoke rfl).mp h
    cases hret
  · next hp => exact ⟨Bool.eq_false_iff.mpr hp, hinvoke⟩

/-- Only a pending cell is completed by a call that reports so. -/
theorem Reports.pending (h : m.Reports c) (sound : m.world.Sound) :
    (m.world.cell c).isRealized = false := by
  cases h with
  | completion _ reports => exact pending_of_refusal? (refusal?_of_performs sound reports)
  | revocation _ reports => exact (pending_of_revoke reports).1

theorem Reports.busy (h : m.Reports c) : m.atRest = false := by
  obtain ⟨w, control, stack⟩ := m
  cases h with
  | completion call => cases call; rfl
  | revocation call => cases call; rfl

/-- A completion that reports so realizes the cell at once. -/
theorem realized_of_completion {o : Outcome} {a : Authority} {w' : World} (sound : m.world.Sound)
    (there : c < m.world.cells.size) (call : m.control = .call (.complete c o a))
    (reports : m.world.Performs (.complete c o a) w' (.ret (.verdict (.ok true)))) :
    (m.step.world.cell c).isRealized = true := by
  rw [step_call call, World.complete_of_accepted sound (refusal?_of_performs sound reports)]
  show ((m.world.setCell c _).cell c).isRealized = true
  rw [World.cell_setCell_self there, Cell.isRealized_completed]

end Machine

/-! ## Whole runs

Soundness and the order of phases hold at every machine, since every step keeps them. What is reported is
followed from the machine where the completion is called to the one where it comes back.
-/

/-- What holds of a cell at a machine of a run. -/
structure Lifetime (m : Machine) (past : List Machine) (c : CellId) : Prop where
  /-- It is never left in the middle of a change. -/
  unlocked : (m.world.cell c).phase ≠ .locked
  /-- It has an outcome exactly if it is realized: a value if it succeeded, and an error if it failed. -/
  outcome : (m.world.cell c).outcome.isSome = (m.world.cell c).isRealized
  succeeded : (m.world.cell c).phase = .succeeded ↔ ∃ v, (m.world.cell c).outcome = some (.ok v)
  failed : (m.world.cell c).phase = .failed ↔ ∃ e, (m.world.cell c).outcome = some (.error e)
  /-- Once realized, it has nobody left to tell or to revoke. -/
  emptied : (m.world.cell c).isRealized = true →
    (m.world.cell c).listeners.toList = [] ∧ (m.world.cell c).revokee = none
  /-- While pending, it is empty exactly if it has neither an owner nor a listener, and listening
  otherwise. -/
  empty : (m.world.cell c).isRealized = false →
    ((m.world.cell c).phase = .empty ↔
      (m.world.cell c).owner = none ∧ (m.world.cell c).listeners.toList = [])
  listening : (m.world.cell c).isRealized = false →
    ((m.world.cell c).phase = .listening ↔
      (m.world.cell c).owner ≠ none ∨ (m.world.cell c).listeners.toList ≠ [])
  /-- It has only moved on so far. -/
  advances : ∀ x ∈ past, (x.world.cell c).phase.Advances (m.world.cell c).phase
  /-- Its end and its outcome are for good. -/
  final : ∀ x ∈ past, (x.world.cell c).isRealized = true →
    (m.world.cell c).phase = (x.world.cell c).phase ∧
      (m.world.cell c).outcome = (x.world.cell c).outcome
  /-- So is its owner. -/
  owner : ∀ x ∈ past, ∀ t, (x.world.cell c).owner = some t → (m.world.cell c).owner = some t
  /-- No two completions report that it was they who completed it, apart from a revocation, which passes
  on what the completion says that it makes. -/
  once : (m :: past).Pairwise fun later earlier =>
    later.Reports c → earlier.Reports c → c < earlier.world.cells.size →
      (∃ cause, earlier.control = .call (.revoke c cause)) ∧ later = earlier.step
  /-- Completing it, registering with it and linking it do not break off by themselves. -/
  unbroken : ∀ call, m.control = .call call →
    (∃ o a, call = .complete c o a) ∨ (∃ l, call = .subscribe c l) ∨ (∃ d, call = .link c d) →
      ∀ p, m.step.control ≠ .raise p

namespace Cell

variable {κ : Type} {c : Cell κ}

theorem Sound.isSome_outcome (h : c.Sound) : c.outcome.isSome = c.isRealized := by
  rw [← h.peek_eq_outcome, h.isSome_peek]

theorem Sound.succeeded_iff (h : c.Sound) :
    c.phase = .succeeded ↔ ∃ v, c.outcome = some (.ok v) := by
  constructor
  · intro hphase
    have hr : c.isRealized = true := by rw [isRealized, hphase]; rfl
    obtain ⟨o, ho⟩ := Option.isSome_iff_exists.mp (h.present hr)
    cases o with
    | ok v => exact ⟨v, ho⟩
    | error e => cases hphase.symm.trans (h.phase_of_outcome _ ho)
  · rintro ⟨v, ho⟩
    exact h.phase_of_outcome _ ho

theorem Sound.failed_iff (h : c.Sound) : c.phase = .failed ↔ ∃ e, c.outcome = some (.error e) := by
  constructor
  · intro hphase
    have hr : c.isRealized = true := by rw [isRealized, hphase]; rfl
    obtain ⟨o, ho⟩ := Option.isSome_iff_exists.mp (h.present hr)
    cases o with
    | ok v => cases hphase.symm.trans (h.phase_of_outcome _ ho)
    | error e => exact ⟨e, ho⟩
  · rintro ⟨e, ho⟩
    exact h.phase_of_outcome _ ho

theorem Sound.listening_iff (h : c.Sound) (hp : c.isRealized = false) :
    c.phase = .listening ↔ c.owner ≠ none ∨ c.listeners.toList ≠ [] := by
  have hidle := h.idle hp
  rcases h.phase_of_pending hp with hphase | hphase
  · rw [hphase] at hidle ⊢
    have := hidle.mp rfl
    simp [this]
  · rw [hphase] at hidle ⊢
    rw [← not_and_or]
    simpa using hidle

end Cell

namespace World

variable {w : World} {c : CellId}

/-- A change of a sound cell does not break off by itself. -/
theorem invoke_not_raise (sound : w.Sound) {call : Call}
    (h : (∃ o a, call = .complete c o a) ∨ (∃ l, call = .subscribe c l) ∨ (∃ d, call = .link c d))
    (p : Panic) : (w.invoke call).control ≠ .raise p := by
  have hspec := invoke_spec sound call
  generalize w.invoke call = mv at hspec
  intro hraise
  rcases h with ⟨o, a, rfl⟩ | ⟨l, rfl⟩ | ⟨d, rfl⟩ <;> cases hspec <;> cases hraise

end World

namespace History

variable {capacity : Nat} {m : Machine} {past : List Machine} {c : CellId}

theorem advances (h : History capacity m past) {x : Machine} (hx : x ∈ past) (c : CellId) :
    (x.world.cell c).phase.Advances (m.world.cell c).phase :=
  h.persists (P := fun w => (x.world.cell c).phase.Advances (w.cell c).phase)
    (List.mem_cons_of_mem _ hx) .stays
    (fun before _ advances =>
      advances.trans ((Machine.step_cell before.sound c).advances (before.sound c)))
    fun _ _ advances => advances

/-- After a machine that is busy comes the next step. -/
theorem step_of_mem (h : History capacity m past) {x : Machine} (hx : x ∈ past)
    (busy : x.atRest = false) : m = x.step ∨ x.step ∈ past := by
  induction h with
  | start => cases hx
  | step before _ ih =>
      rcases List.mem_cons.mp hx with rfl | hx
      · exact .inl rfl
      · rcases ih hx with rfl | hmem
        · exact .inr List.mem_cons_self
        · exact .inr (List.mem_cons_of_mem _ hmem)
  | enter before rest _ _ _ ih =>
      rcases List.mem_cons.mp hx with rfl | hx
      · exact nomatch rest.symm.trans busy
      · rcases ih hx with rfl | hmem
        · exact .inr List.mem_cons_self
        · exact .inr (List.mem_cons_of_mem _ hmem)

theorem realized_later (h : History capacity m past) {x : Machine} (hx : x ∈ past)
    (hr : (x.world.cell c).isRealized = true) : (m.world.cell c).isRealized = true := by
  obtain ⟨past', hpast, -⟩ := h.of_mem hx
  obtain ⟨o, ho⟩ := World.peek_of_isRealized hpast.sound hr
  exact Cell.isRealized_of_peek ((h.later hx c).peek o ho)

/-- A completion that is reported after another one is that of the revocation reported before. -/
theorem reports_again (h : History capacity m past) {x : Machine} (hx : x ∈ past)
    (later : m.Reports c) (earlier : x.Reports c) (there : c < x.world.cells.size) :
    (∃ cause, x.control = .call (.revoke c cause)) ∧ m = x.step := by
  obtain ⟨past', hpast, -⟩ := h.of_mem hx
  have sound := hpast.sound
  have pending := later.pending h.sound
  -- From the step on that realizes the cell, nothing is reported.
  have realized_at {y : Machine} (hy : m = y ∨ y ∈ past)
      (hr : (y.world.cell c).isRealized = true) : False := by
    rcases hy with rfl | hy
    · exact nomatch pending.symm.trans hr
    · exact nomatch pending.symm.trans (h.realized_later hy hr)
  cases earlier with
  | completion call reports =>
      have hr := Machine.realized_of_completion sound there call reports
      exact (realized_at (h.step_of_mem hx (Machine.Reports.completion call reports).busy) hr).elim
  | @revocation cause w' call reports =>
      refine ⟨⟨cause, call⟩, ?_⟩
      obtain ⟨-, hinvoke⟩ := Machine.pending_of_revoke reports
      have hstep : x.step = ⟨x.world, .call (.complete c (.error (.revoked cause)) .unowned),
          x.stack⟩ := by
        rw [Machine.step_call call, hinvoke]
        rfl
      have completes : x.step.control = .call (.complete c (.error (.revoked cause)) .unowned) := by
        rw [hstep]
      have reports' : x.step.world.Performs (.complete c (.error (.revoked cause)) .unowned) w'
          (.ret (.verdict (.ok true))) := by
        rw [hstep]
        exact (World.performs_tail hinvoke).mp reports
      rcases h.step_of_mem hx (Machine.Reports.revocation call reports).busy with hm | hmem
      · exact hm
      · have hr := Machine.realized_of_completion (Machine.step_sound sound)
          (there.trans_le (Machine.size_step sound)) completes reports'
        have busy := (Machine.Reports.completion completes reports').busy
        exact (realized_at (h.step_of_mem hmem busy) hr).elim

theorem reports_once (h : History capacity m past) (c : CellId) :
    (m :: past).Pairwise fun later earlier =>
      later.Reports c → earlier.Reports c → c < earlier.world.cells.size →
        (∃ cause, earlier.control = .call (.revoke c cause)) ∧ later = earlier.step := by
  induction h with
  | start => exact List.pairwise_singleton _ _
  | step before busy ih =>
      exact List.pairwise_cons.mpr
        ⟨fun x hx later earlier there => (before.step busy).reports_again hx later earlier there, ih⟩
  | enter before rest thread log outside ih =>
      exact List.pairwise_cons.mpr ⟨fun x hx later earlier there =>
        (before.enter rest thread log outside).reports_again hx later earlier there, ih⟩

/-- **Cells are sound and only move on**, at every machine of every run. -/
theorem lifetime (h : History capacity m past) (c : CellId) : Lifetime m past c where
  unlocked := (h.sound c).unlocked
  outcome := (h.sound c).isSome_outcome
  succeeded := (h.sound c).succeeded_iff
  failed := (h.sound c).failed_iff
  emptied := (h.sound c).emptied
  empty := (h.sound c).idle
  listening := (h.sound c).listening_iff
  advances x hx := h.advances hx c
  final x hx hr := by
    refine ⟨(h.advances hx c).eq_of_isRealized hr, ?_⟩
    obtain ⟨past', hpast, -⟩ := h.of_mem hx
    obtain ⟨o, ho⟩ := World.peek_of_isRealized hpast.sound hr
    rw [← (h.sound c).peek_eq_outcome, ← (hpast.sound c).peek_eq_outcome, ho]
    exact (h.later hx c).peek o ho
  owner x hx t ht := (h.later hx c).owner t ht
  once := h.reports_once c
  unbroken call hcall changes p := by
    rw [Machine.step_call hcall]
    exact World.invoke_not_raise h.sound changes p

end History

/-- A run in which a cell is completed. -/
theorem lifetime_of_completed : ∃ m past, History 8 m past ∧
    (m.world.cell 0).phase = .succeeded ∧ (∃ x ∈ past, (x.world.cell 0).phase = .listening) ∧
      Lifetime m past 0 := by
  have empty : History 8 _ _ := .start
  have created := (empty.enter rfl {} [] (.operate (.cell (.create "c")))).step rfl
  have listened := (((created.enter rfl {} []
    (.operate (.cell (.listen "c" "heard" [] [])))).step rfl).step rfl).step rfl
  have completed := ((listened.enter rfl {} []
    (.operate (.cell (.complete "c" (.ok (.constant 7)))))).step rfl).step rfl
  exact ⟨_, _, completed, rfl, ⟨_, List.mem_cons_self, rfl⟩, completed.lifetime 0⟩

end RequestGraph
