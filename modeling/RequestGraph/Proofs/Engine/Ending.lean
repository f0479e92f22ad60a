import RequestGraph.Engine.Machine
import RequestGraph.Proofs.Engine.Operations

/-!
# How calls end

A machine *ends* when it comes to rest, in a world and with a result or a panic, and a call is *performed*
by the machine that does nothing else. A run above some frames first does what it would do without them,
and hands what that ends with to the frames:

    (m.above frames).Ends w e   ↔   m.Ends w₁ e₁ and ⟨w₁, e₁, frames⟩.Ends w e, for some w₁ and e₁
-/

namespace RequestGraph

namespace Machine

variable {m : Machine} {w w' : World} {e e' : Control}

/-- The machine comes to rest in a world, with a result or a panic. -/
def Ends (m : Machine) (w : World) (e : Control) : Prop :=
  e.isCall = false ∧ ∃ n, m.iterate n = ⟨w, e, []⟩

/-- At rest there is nothing to call and nothing to go on with. -/
theorem atRest_iff : m.atRest = true ↔ m.control.isCall = false ∧ m.stack = [] := by
  obtain ⟨w, control, stack⟩ := m
  cases control <;> cases stack <;> simp [atRest, Control.isCall]

/-- A machine that is at a call has something left to do. -/
theorem busy_of_call {c : Call} (call : m.control = .call c) : m.atRest = false := by
  rw [atRest, call]

theorem atRest_mk (he : e.isCall = false) : (⟨w, e, []⟩ : Machine).atRest = true :=
  atRest_iff.mpr ⟨he, rfl⟩

/-- What is at rest has ended. -/
theorem Ends.refl (he : e.isCall = false) : (⟨w, e, []⟩ : Machine).Ends w e := ⟨he, 0, rfl⟩

/-- Where control and stack show the end, the world is the one in which the machine ends. -/
theorem Ends.of_iterate (n : ℕ) (he : e.isCall = false) (control : (m.iterate n).control = e)
    (stack : (m.iterate n).stack = []) : m.Ends (m.iterate n).world e := by
  refine ⟨he, n, ?_⟩
  rw [← control, ← stack]

/-- A machine that is seen to rest with a result has ended with it. -/
theorem Ends.of_rest (n : ℕ) (rest : (m.iterate n).atRest = true)
    (returns : ((m.iterate n).control matches .ret _) = true) : ∃ w r, m.Ends w (.ret r) := by
  split at returns
  · next r control => exact ⟨_, r, .of_iterate n rfl control (atRest_iff.mp rest).2⟩
  · cases returns

/-- The end of a machine is the end of its next step. -/
theorem ends_iff_step : m.Ends w e ↔ m.step.Ends w e := by
  constructor
  · rintro ⟨he, n, hn⟩
    refine ⟨he, n, ?_⟩
    show m.iterate (n + 1) = _
    rw [iterate_add, hn]
    exact step_of_atRest (atRest_mk he)
  · rintro ⟨he, n, hn⟩
    exact ⟨he, n + 1, hn⟩

/-- The end of a machine does not depend on how many steps are made before one looks. -/
theorem ends_iff_iterate (n : Nat) : m.Ends w e ↔ (m.iterate n).Ends w e := by
  induction n generalizing m with
  | zero => rfl
  | succ n ih => rw [ends_iff_step, ih, iterate]

/-- A machine at rest ends where it is. -/
theorem ends_of_atRest (hr : m.atRest = true) : m.Ends w e ↔ m = ⟨w, e, []⟩ := by
  constructor
  · rintro ⟨_, n, hn⟩
    rw [← hn, iterate_of_atRest hr]
  · rintro rfl
    exact .refl (atRest_iff.mp hr).1

/-- A machine ends in one way only. -/
theorem Ends.unique (h : m.Ends w e) (h' : m.Ends w' e') : w = w' ∧ e = e' := by
  obtain ⟨he, n, hn⟩ := h
  have hrest : (⟨w, e, []⟩ : Machine).Ends w' e' := hn ▸ (ends_iff_iterate n).mp h'
  have := (ends_of_atRest (atRest_mk he)).mp hrest
  exact ⟨congrArg world this, congrArg control this⟩

/-! ## Runs above other frames

A run that is made above other frames does not look at them until it ends. So a call can be studied alone,
on an empty stack, and then put where it is made.
-/

@[simp] theorem above_nil (m : Machine) : m.above [] = m := by
  obtain ⟨w, control, stack⟩ := m
  simp [above]

/-- As long as a machine is not at rest, frames below it do not matter. -/
theorem iterate_above (frames : List Frame) (n : Nat) :
    (m.above frames).iterate n = (m.iterate n).above frames ∨
      ∃ k ≤ n, (m.iterate k).atRest = true ∧
        (m.above frames).iterate n = ((m.iterate k).above frames).iterate (n - k) := by
  induction n generalizing m with
  | zero => exact .inl rfl
  | succ n ih =>
      cases hr : m.atRest with
      | true => exact .inr ⟨0, Nat.zero_le _, hr, rfl⟩
      | false =>
          rw [iterate, step_above hr]
          rcases ih (m := m.step) with h | ⟨k, hk, hrest, h⟩
          · exact .inl h
          · refine .inr ⟨k + 1, Nat.succ_le_succ hk, hrest, ?_⟩
            rw [h, Nat.add_sub_add_right, iterate]

/-- A machine that ends does so above any frames. -/
theorem Ends.reaches (h : m.Ends w e) (frames : List Frame) :
    ∃ n, (m.above frames).iterate n = ⟨w, e, frames⟩ := by
  obtain ⟨he, n, hn⟩ := h
  induction n generalizing m with
  | zero =>
      rw [iterate] at hn
      exact ⟨0, by rw [hn]; rfl⟩
  | succ n ih =>
      cases hr : m.atRest with
      | true =>
          rw [iterate_of_atRest hr] at hn
          exact ⟨0, by rw [hn]; rfl⟩
      | false =>
          obtain ⟨k, hk⟩ := ih hn
          refine ⟨k + 1, ?_⟩
          rw [iterate, step_above hr, hk]

/-- A run above other frames comes to its own end first, and then goes on with them. -/
theorem ends_above {frames : List Frame} :
    (m.above frames).Ends w e ↔
      ∃ w₁ e₁, m.Ends w₁ e₁ ∧ (⟨w₁, e₁, frames⟩ : Machine).Ends w e := by
  have rest_above {w₁ : World} {e₁ : Control} :
      (⟨w₁, e₁, []⟩ : Machine).above frames = ⟨w₁, e₁, frames⟩ := rfl
  constructor
  · rintro ⟨he, n, hn⟩
    rcases iterate_above (m := m) frames n with h | ⟨k, -, hrest, h⟩
    · -- No rest was seen on the way, so that the frames are none and the end is that of the machine.
      rw [hn] at h
      have hframes : (m.iterate n).stack ++ frames = [] := (congrArg stack h).symm
      obtain ⟨hstack, rfl⟩ := List.append_eq_nil_iff.mp hframes
      rw [above_nil] at h
      exact ⟨w, e, ⟨he, n, h.symm⟩, .refl he⟩
    · obtain ⟨hcontrol, hstack⟩ := atRest_iff.mp hrest
      have hk : m.iterate k = ⟨(m.iterate k).world, (m.iterate k).control, []⟩ := by rw [← hstack]
      refine ⟨_, _, ⟨hcontrol, k, hk⟩, he, n - k, ?_⟩
      rw [← rest_above, ← hk, ← h, hn]
  · rintro ⟨w₁, e₁, ⟨he₁, n, hn⟩, hends⟩
    rcases iterate_above (m := m) frames n with h | ⟨k, -, hrest, h⟩
    · rw [ends_iff_iterate n, h, hn]
      exact hends
    · -- The machine was at rest before already, and stayed so.
      have hk : m.iterate k = ⟨w₁, e₁, []⟩ := by
        have : (m.iterate k).Ends w₁ e₁ := (ends_iff_iterate k).mp ⟨he₁, n, hn⟩
        exact (ends_of_atRest hrest).mp this
      rw [ends_iff_iterate n, h, hk, rest_above, ← ends_iff_iterate]
      exact hends

end Machine

namespace World

variable {w w' w₁ : World} {c c' : Call} {e : Control}

/-- A call ends in a world, with a result or a panic, if nothing else is done. -/
def Performs (w : World) (c : Call) (w' : World) (e : Control) : Prop :=
  (⟨w, .call c, []⟩ : Machine).Ends w' e

/-- A call has one end. -/
theorem Performs.unique {w₂ : World} {e' : Control} (h : w.Performs c w₁ e)
    (h' : w.Performs c w₂ e') : w₁ = w₂ ∧ e = e' := Machine.Ends.unique h h'

/-- A call ends as its move does. -/
theorem performs_iff_move :
    w.Performs c w' e ↔ (Machine.ofMove (w.invoke c) []).Ends w' e := Machine.ends_iff_step

/-- A call that ends does so above any frames. -/
theorem Performs.reaches (h : w.Performs c w' e) (frames : List Frame) :
    ∃ n, (⟨w, .call c, frames⟩ : Machine).iterate n = ⟨w', e, frames⟩ :=
  Machine.Ends.reaches (m := ⟨w, .call c, []⟩) h frames

/-- A call that goes on with another one above some frames. -/
theorem performs_call {frames : List Frame} (h : w.invoke c = w₁.call c' frames) :
    w.Performs c w' e ↔
      ∃ w₂ e₂, w₁.Performs c' w₂ e₂ ∧ (⟨w₂, e₂, frames⟩ : Machine).Ends w' e := by
  rw [performs_iff_move, h]
  show ((⟨w₁, .call c', frames ++ []⟩ : Machine)).Ends w' e ↔ _
  rw [List.append_nil]
  exact Machine.ends_above (m := ⟨w₁, .call c', []⟩)

/-- A call that goes on with another one in its place. -/
theorem performs_tail (h : w.invoke c = w₁.call c') : w.Performs c w' e ↔ w₁.Performs c' w' e := by
  rw [performs_iff_move, h]
  rfl

/-- A call that ends at once. -/
theorem performs_end {e₁ : Control} (h : w.invoke c = ⟨w₁, e₁, []⟩) (he : e₁.isCall = false) :
    w.Performs c w' e ↔ w' = w₁ ∧ e = e₁ := by
  rw [performs_iff_move, h]
  show ((⟨w₁, e₁, []⟩ : Machine)).Ends w' e ↔ _
  rw [Machine.ends_of_atRest (Machine.atRest_mk he), Machine.mk.injEq]
  exact ⟨fun h => ⟨h.1.symm, h.2.1.symm⟩, fun h => ⟨h.1.symm, h.2.symm, rfl⟩⟩

end World

end RequestGraph
