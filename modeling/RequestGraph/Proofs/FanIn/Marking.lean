import RequestGraph.Proofs.FanIn.Standing

/-!
# The count of a fan-in after a failure

A success that comes after a failure is still counted. So the count and the mark of the failure can share one word,
the mark in its topmost bit, only if counting never borrows from that bit. For this the count has to stay ahead of
the signals that are due, and by one more when there was a failure:

    due + 1   ≤   remaining        once a failure has settled the fan-in

It does, because the call that sets a fan-in up counts a cell before it watches it, and counts itself; and because
the failure that settles a fan-in is a signal that was due, and is never subtracted.
-/

namespace RequestGraph

namespace FanIn

variable {κ : Type}

/-- The count of a fan-in in one word with the mark of its failure, which is the topmost of 64 bits. -/
def word (f : FanIn κ) : ℕ := f.failed.toNat * 2 ^ 63 + f.remaining

/-- Reading the word as one, as the last signal does, means that one signal is missing and none has
failed. -/
theorem word_eq_one_iff (f : FanIn κ) : f.word = 1 ↔ f.remaining = 1 ∧ f.failed = false := by
  unfold word
  cases f.failed with
  | false => simp
  | true =>
      simp only [Bool.toNat_true, Bool.true_eq_false, and_false, iff_false]
      omega

end FanIn

namespace Machine

variable {m : Machine} {f : FanInId}

/-- The signals that are due to a fan-in and the mark of its failure are within its count. -/
def KeepsCount (m : Machine) : Prop :=
  ∀ f, m.due f + (m.world.fanIn f).failed.toNat ≤ (m.world.fanIn f).remaining

/-- A step adds at most one signal to those that are due. -/
theorem added_le_one (m : Machine) (f : FanInId) : m.added f ≤ 1 := by
  unfold added
  split
  · split <;> omega
  · split <;> omega
  · exact Nat.zero_le 1

/-- A signal adds to the count of a fan-in only when that is there. -/
theorem Fresh.there_of_due (h : m.Fresh) (due : 0 < m.due f) : f < m.world.fanIns.size := by
  by_contra absent
  rw [h f (Nat.le_of_not_lt absent)] at due
  exact Nat.lt_irrefl 0 due

/-- A count that stays ahead of what is due does so after any step, one case for each change of the
fan-ins. -/
theorem KeepsCount.step (h : m.KeepsCount) (fresh : m.Fresh) (sound : m.world.Sound) : m.step.KeepsCount := by
  intro f
  have hdue := step_due f sound
  have hbefore : m.due f + (m.world.fanIns.get f).failed.toNat ≤ (m.world.fanIns.get f).remaining := h f
  have hadded := m.added_le_one f
  have hchange := step_fanIns sound
  unfold World.fanIn
  generalize m.step.world.fanIns = fanIns at hchange
  cases hchange with
  | kept idle =>
      rw [idle f] at hdue
      omega
  -- A new fan-in has counted its set-up, the one signal that is due then.
  | @started cells k starts =>
      by_cases new : f = m.world.fanIns.size
      · have hfresh := fresh f (Nat.le_of_eq new.symm)
        rw [new, Arena.get_push_size, ← new]
        show m.step.due f + 0 ≤ 1
        omega
      · have unadded : m.added f = 0 := by
          rw [added, starts.1]
          apply if_neg
          rintro ⟨same, -⟩
          exact new same.symm
        rw [Arena.get_push_of_ne _ _ new]
        omega
  -- Watching a cell counts it before it is registered, so the signal that comes with it is accounted for.
  | @awaited f' c rest call left =>
      by_cases same : f' = f
      · subst same
        have due : 0 < m.due f' := by
          have hcontrol : m.control.due f' = 1 := by
            rw [call]
            exact if_pos rfl
          rw [Machine.due, hcontrol]
          omega
        rw [Arena.get_set_self (fresh.there_of_due due)]
        show _ + (m.world.fanIns.get f').failed.toNat ≤ (m.world.fanIns.get f').remaining + 1
        omega
      · have unadded : m.added f = 0 := by
          rw [added, call]
          exact if_neg fun h => same h.1
        rw [Arena.get_set_of_ne same]
        omega
  -- A success is subtracted, but it was due, and is so no longer.
  | @counted f' call =>
      have unadded : m.added f = 0 := by rw [added, call]
      by_cases same : f' = f
      · subst same
        rw [spent_of_signal call] at hdue
        rw [Arena.get_set_self (fresh.there_of_due (due_pos call))]
        show _ + (m.world.fanIns.get f').failed.toNat ≤ (m.world.fanIns.get f').remaining - 1
        omega
      · rw [Arena.get_set_of_ne same]
        omega
  -- The signal that settles the fan-in is spent: a success is subtracted, and a failure sets the mark.
  | @fired f' failure call calm last =>
      have unadded : m.added f = 0 := by rw [added, call]
      by_cases same : f' = f
      · subst same
        rw [spent_of_signal call] at hdue
        rw [Arena.get_set_self (fresh.there_of_due (due_pos call))]
        have hcalm : (m.world.fanIns.get f').failed = false := calm
        rw [hcalm] at hbefore
        cases failure with
        | none =>
            show m.step.due f' + 0 ≤ (m.world.fanIns.get f').remaining - 1
            have hbefore : m.due f' + 0 ≤ (m.world.fanIns.get f').remaining := hbefore
            omega
        | some e =>
            show m.step.due f' + 1 ≤ (m.world.fanIns.get f').remaining
            have hbefore : m.due f' + 0 ≤ (m.world.fanIns.get f').remaining := hbefore
            omega
      · rw [Arena.get_set_of_ne same]
        omega

/-- A success takes one from the word of a fan-in, and settles the fan-in if nothing else was left of the word. -/
theorem KeepsCount.step_word (h : m.KeepsCount) (fresh : m.Fresh) (sound : m.world.Sound)
    (call : m.control = .call (.signal f none)) :
    (m.step.world.fanIn f).word = (m.world.fanIn f).word - 1 ∧
      (m.step.control = .ret .unit ↔ (m.world.fanIn f).word ≠ 1) := by
  have hcount := h f
  have hdue := due_pos call
  have there := fresh.there_of_due hdue
  have hspec := World.invoke_spec sound (.signal f none)
  rw [step_call call]
  generalize m.world.invoke (.signal f none) = mv at hspec
  have read (fanIn : FanIn Continuation) : (m.world.setFanIn f fanIn).fanIn f = fanIn := Arena.get_set_self there
  cases hspec with
  | returned may => cases may
  | counted early =>
      constructor
      · show ((m.world.setFanIn f _).fanIn f).word = _
        rw [read]
        have positive : 0 < (m.world.fanIn f).remaining := by omega
        exact (Nat.add_sub_assoc positive _).symm
      · refine iff_of_true rfl ?_
        rw [Ne, FanIn.word_eq_one_iff]
        exact early
  | fired calm last | firedTwice calm last =>
      constructor
      · show ((m.world.setFanIn f _).fanIn f).word = _
        rw [read, FanIn.word, FanIn.word, calm]
        show 0 * _ + (_ - 1) = 0 * _ + _ - 1
        omega
      · refine iff_of_false nofun ?_
        rw [Ne, not_not, FanIn.word_eq_one_iff]
        exact ⟨last rfl, calm⟩

end Machine

end RequestGraph
