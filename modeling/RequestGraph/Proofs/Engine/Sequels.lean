import Mathlib.Data.Nat.Find
import RequestGraph.Proofs.Cell.Lifetime
import RequestGraph.Proofs.Delivery.Order

/-!
# What calls lead to

A history goes on with the step of a machine as long as that is busy. So when nothing is left to be done,
every call that was ever made has come to its end, with a result or a panic, and the machine that takes
either is part of the history:

    ⟨w, .call c, stack⟩ ∈ m :: past   →   w.Performs c w' e  and  ⟨w', e, stack⟩ ∈ m :: past

A call that is calm has come back with a result if the sink has always returned.
-/

namespace RequestGraph

namespace Machine

theorem atRest_above {m : Machine} (h : m.atRest = false) (frames : List Frame) :
    (m.above frames).atRest = false := by
  obtain ⟨w, control, stack⟩ := m
  cases control <;> cases stack <;> simp_all [atRest, above]

/-- Frames below do not matter before the machine comes to rest. -/
theorem iterate_above_of_busy {m : Machine} {n : ℕ} (busy : ∀ i < n, (m.iterate i).atRest = false)
    (frames : List Frame) : (m.above frames).iterate n = (m.iterate n).above frames := by
  induction n with
  | zero => rfl
  | succ n ih =>
    have hn := ih fun i hi => busy i (Nat.lt_succ_of_lt hi)
    rw [iterate_succ, iterate_succ, hn, step_above (busy n (Nat.lt_succ_self n))]

end Machine

namespace History

variable {capacity : ℕ} {m x : Machine} {past : List Machine} {w : World} {c : Call}
  {stack : List Frame}

/-- From every machine of a history the last one is reached, or rest before that. -/
theorem reaches (h : History capacity m past) (hx : x ∈ m :: past) :
    ∃ n, x.iterate n = m ∨ (x.iterate n).atRest = true := by
  induction h with
  | start => exact ⟨0, .inl (List.mem_singleton.mp hx)⟩
  | step before busy ih =>
    rcases List.mem_cons.mp hx with rfl | hx
    · exact ⟨0, .inl rfl⟩
    · obtain ⟨n, hn | hrest⟩ := ih hx
      · exact ⟨n + 1, .inl (by rw [Machine.iterate_succ, hn])⟩
      · exact ⟨n, .inr hrest⟩
  | enter before rest thread log outside ih =>
    rcases List.mem_cons.mp hx with rfl | hx
    · exact ⟨0, .inl rfl⟩
    · obtain ⟨n, rfl | hrest⟩ := ih hx
      · exact ⟨n, .inr rest⟩
      · exact ⟨n, .inr hrest⟩

theorem mem_of_busy (rest : m.atRest = true) (hx : x ∈ m :: past) (busy : x.atRest = false) :
    x ∈ past := by
  rcases List.mem_cons.mp hx with rfl | hx
  · exact nomatch rest.symm.trans busy
  · exact hx

/-- A history can be looked at from any of its machines on, with those before it. -/
theorem of_append {newer older : List Machine} (h : History capacity m (newer ++ x :: older)) :
    History capacity x older := by
  induction newer generalizing m with
  | nil => exact h.before
  | cons z newer ih => exact ih h.before

/-- After a machine that is busy comes its step. -/
theorem step_of_append {newer older : List Machine} (h : History capacity m (newer ++ x :: older))
    (busy : x.atRest = false) : (newer = [] ∧ m = x.step) ∨ ∃ newer', newer = newer' ++ [x.step] := by
  rcases newer.eq_nil_or_concat with rfl | ⟨newer', z, rfl⟩
  · rcases h.step_or_enter with ⟨-, rfl⟩ | ⟨rest, -⟩
    · exact .inl ⟨rfl, rfl⟩
    · exact nomatch busy.symm.trans rest
  · rw [List.concat_eq_append, List.append_assoc] at h
    rcases h.of_append.step_or_enter with ⟨-, rfl⟩ | ⟨rest, -⟩
    · exact .inr ⟨newer', List.concat_eq_append⟩
    · exact nomatch busy.symm.trans rest

section Rest

variable (h : History capacity m past) (rest : m.atRest = true)
include h rest

/-- A busy machine of a history goes on in the history, and no earlier than it is there. -/
theorem sequel_of_prefix {newer : List Machine} (recent : newer <+: past) (hx : x ∈ m :: newer)
    (busy : x.atRest = false) : x.step ∈ m :: newer := by
  obtain ⟨older, rfl⟩ := recent
  obtain ⟨later, between, rfl⟩ := List.append_of_mem (mem_of_busy rest hx busy)
  rw [List.append_assoc, List.cons_append] at h
  rcases h.step_of_append busy with ⟨rfl, rfl⟩ | ⟨later, rfl⟩
  · exact List.mem_cons_self
  · exact List.mem_cons_of_mem _ (by simp)

theorem sequel (hx : x ∈ m :: past) (busy : x.atRest = false) : x.step ∈ m :: past :=
  h.sequel_of_prefix rest List.prefix_rfl hx busy

/-- A call has been run to its end. -/
theorem ended {newer : List Machine} (recent : newer <+: past)
    (hx : ⟨w, .call c, stack⟩ ∈ m :: newer) : ∃ n w' e, e.isCall = false ∧
    (⟨w, .call c, []⟩ : Machine).iterate n = ⟨w', e, []⟩ ∧
    ∀ k ≤ n, ((⟨w, .call c, []⟩ : Machine).iterate k).above stack ∈ m :: newer := by
  generalize hy : (⟨w, .call c, []⟩ : Machine) = y
  have hx : y.above stack ∈ m :: newer := hy ▸ hx
  -- The call comes to rest by itself, or else it would not come to rest above the stack either.
  have rests : ∃ n, (y.iterate n).atRest = true := by
    by_contra hbusy
    simp only [not_exists, Bool.not_eq_true] at hbusy
    obtain ⟨n, hn⟩ := h.reaches (List.cons_subset_cons m recent.subset hx)
    rw [Machine.iterate_above_of_busy fun i _ => hbusy i] at hn
    have hbusy := Machine.atRest_above (hbusy n) stack
    rcases hn with hn | hn
    · rw [hn, rest] at hbusy
      cases hbusy
    · exact nomatch hn.symm.trans hbusy
  classical
  have first (k : ℕ) (hk : k < Nat.find rests) : (y.iterate k).atRest = false :=
    Bool.eq_false_iff.mpr (Nat.find_min rests hk)
  obtain ⟨hcontrol, hstack⟩ := Machine.atRest_iff.mp (Nat.find_spec rests)
  refine ⟨Nat.find rests, (y.iterate (Nat.find rests)).world, (y.iterate (Nat.find rests)).control,
    hcontrol, by rw [← hstack], fun k hk => ?_⟩
  induction k with
  | zero => exact hx
  | succ k ih =>
    have busy := first k hk
    have hstep := h.sequel_of_prefix rest recent (ih (Nat.le_of_succ_le hk))
      (Machine.atRest_above busy stack)
    rwa [Machine.step_above busy, ← Machine.iterate_succ] at hstep

theorem performed (hx : ⟨w, .call c, stack⟩ ∈ m :: past) :
    ∃ w' e, w.Performs c w' e ∧ ⟨w', e, stack⟩ ∈ m :: past := by
  obtain ⟨n, w', e, ends, hn, hmem⟩ := h.ended rest List.prefix_rfl hx
  have hend := hmem n (Nat.le_refl n)
  rw [hn] at hend
  exact ⟨w', e, ⟨ends, n, hn⟩, hend⟩

/-- A calm call has come back, if the sink has returned since. -/
theorem returned {newer : List Machine} (recent : newer <+: past)
    (sink : ∀ x ∈ newer, x.SinkReturns) (calm : c.isCalm = true) (sound : w.Sound)
    (hx : ⟨w, .call c, stack⟩ ∈ m :: newer) :
    ∃ w' r, w.Performs c w' (.ret r) ∧ ⟨w', .ret r, stack⟩ ∈ m :: newer := by
  obtain ⟨n, w', e, ends, hn, hmem⟩ := h.ended rest recent hx
  have hend := hmem n (Nat.le_refl n)
  rw [hn] at hend
  cases e with
  | call => cases ends
  | ret r => exact ⟨w', r, ⟨rfl, n, hn⟩, hend⟩
  | raise p =>
    refine absurd hn (Machine.calm_not_raise sound calm fun k hk e call => ?_)
    rcases List.mem_cons.mp (hmem k (Nat.le_of_lt hk)) with heq | hnewer
    · -- The last machine is at rest, so that it reports nothing.
      have hcontrol := (Machine.atRest_iff.mp rest).1
      rw [← heq] at hcontrol
      exact nomatch hcontrol.symm.trans (congrArg Control.isCall call)
    · have returns := sink _ hnewer
      exact returns e call

end Rest

end History

end RequestGraph
