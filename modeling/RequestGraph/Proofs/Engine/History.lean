import RequestGraph.Proofs.Engine.Cells
import RequestGraph.Session

/-!
# Histories

A history is a machine with all the machines before it, newest first. It starts in the empty world, goes
on step by step until the machine is at rest, and then goes on with whatever is begun from the outside,
an operation or the worker. What is begun may find another thread running, and a log that was handed
out meanwhile.

Every session is such a history, so what holds along all histories holds of every session, whatever
its scripts do and in whatever order the queued jobs are run.
-/

namespace RequestGraph

/-- What is begun from the outside. -/
inductive Call.Outside : Call → Prop
  | operate (op : Op) : Outside (.op op {})
  | work : Outside .work

/-- The runs so far: the machine, and those before it, newest first. -/
inductive History (capacity : Nat) : Machine → List Machine → Prop
  | start (clock : Clock := {}) : History capacity ⟨World.start capacity clock, .ret .unit, []⟩ []
  | step {m : Machine} {past : List Machine} (before : History capacity m past)
      (busy : m.atRest = false) : History capacity m.step (m :: past)
  | enter {m : Machine} {past : List Machine} (before : History capacity m past)
      (rest : m.atRest = true) (thread : Thread) (log : List Event) {c : Call}
      (outside : c.Outside) :
      History capacity ⟨{ m.world with thread, log }, .call c, []⟩ (m :: past)

/-- The machines that a run goes through before its end, newest first. -/
def Machine.trail (m : Machine) : Nat → List Machine
  | 0 => []
  | n + 1 => m.step.trail n ++ [m]

/-- What may become of a cell in the course of time: its outcome and its owner stay. -/
structure Cell.Later (c c' : Cell Subscription) : Prop where
  peek : ∀ o, c.peek = some o → c'.peek = some o
  owner : ∀ t, c.owner = some t → c'.owner = some t

theorem Cell.Later.refl (c : Cell Subscription) : c.Later c := ⟨fun _ h => h, fun _ h => h⟩

/-- Later is transitive: outcomes and owners stay. -/
theorem Cell.Later.trans {c c' c'' : Cell Subscription} (h : c.Later c') (h' : c'.Later c'') :
    c.Later c'' := ⟨fun o ho => h'.peek o (h.peek o ho), fun t ht => h'.owner t (h.owner t ht)⟩

namespace History

variable {capacity : Nat} {m : Machine} {past : List Machine}

/-! ## Histories of machines and of sessions

A history may be prolonged by single steps, by runs, or by whole turns of a session. This is how a concrete
run is shown to be one.
-/

/-- A history goes on with any number of steps. -/
theorem iterate (h : History capacity m past) (n : Nat) :
    ∃ past', History capacity (m.iterate n) past' := by
  induction n generalizing m past with
  | zero => exact ⟨past, h⟩
  | succ n ih =>
      cases hr : m.atRest with
      | true =>
          rw [Machine.iterate_of_atRest hr]
          exact ⟨past, h⟩
      | false => exact ih (h.step hr)

/-- A run that does not come to rest adds all the machines on the way. -/
theorem steps (h : History capacity m past) (n : Nat)
    (busy : ∀ i < n, (m.iterate i).atRest = false) :
    History capacity (m.iterate n) (m.trail n ++ past) := by
  induction n generalizing m past with
  | zero => exact h
  | succ n ih =>
      have hstep := ih (h.step (busy 0 (Nat.succ_pos n))) fun i hi =>
        busy (i + 1) (Nat.succ_lt_succ hi)
      rw [Machine.trail, List.append_assoc]
      exact hstep

/-- A history goes on with a run that ends at rest or when its steps are used up. -/
theorem run (h : History capacity m past) (n : Nat) :
    ∃ past', History capacity (m.run n) past' := by
  rw [Machine.run_eq_iterate]
  exact h.iterate n

/-- A world in which some history rests. -/
def Rests (capacity : Nat) (w : World) : Prop :=
  ∃ m past thread log, History capacity m past ∧ m.atRest = true ∧
    w = { m.world with thread, log }

/-- A session starts at rest. -/
theorem rests_start (capacity : Nat) : Rests capacity (World.start capacity) :=
  ⟨_, _, {}, [], .start, rfl, rfl⟩

/-- From rest, anything may be called that is called from outside. -/
theorem Rests.enter {w : World} (h : Rests capacity w) (thread : Thread) {c : Call}
    (outside : c.Outside) : ∃ past, History capacity ⟨{ w with thread }, .call c, []⟩ past := by
  obtain ⟨m, past, _, log, history, rest, rfl⟩ := h
  exact ⟨m :: past, history.enter rest thread log outside⟩

theorem runWorker_eq (w : World) :
    Session.runWorker w = { ((⟨{ w with thread := { isWorker := true } }, .call .work, []⟩ :
      Machine).run Session.patience).world with thread := w.thread } := by
  unfold Session.runWorker
  -- How long a run may take plays no part here, and as a number it must not be unfolded.
  generalize Session.patience = n
  rfl

/-- A turn of a session runs its operation and then the worker. -/
theorem turn_fst (w : World) (op : Op) :
    (Session.turn w op).1 =
      { Session.runWorker ((Session.begin w op).run Session.patience).world with log := [] } := by
  unfold Session.turn
  generalize Session.patience = n
  rfl

/-- A turn of a session that is seen through to its end goes from rest to rest. -/
theorem rests_turn {w : World} (h : Rests capacity w) (op : Op)
    (main : ((Session.begin w op).run Session.patience).atRest = true)
    (worker : ((⟨{ ((Session.begin w op).run Session.patience).world with
      thread := { isWorker := true } }, .call .work, []⟩ : Machine).run Session.patience).atRest
        = true) : Rests capacity (Session.turn w op).1 := by
  rw [turn_fst, runWorker_eq]
  generalize Session.patience = n at main worker ⊢
  obtain ⟨past, hbegin⟩ := h.enter w.thread (.operate op)
  obtain ⟨past, hmain⟩ := hbegin.run n
  have hrest : Rests capacity ((Session.begin w op).run n).world :=
    ⟨_, past, _, _, hmain, main, rfl⟩
  obtain ⟨past, hwork⟩ := hrest.enter { isWorker := true } .work
  obtain ⟨past, hdone⟩ := hwork.run n
  exact ⟨_, past, ((Session.begin w op).run n).world.thread, [], hdone, worker, rfl⟩

/-! ## What holds along a history

Two kinds of induction: backwards, from a machine to what has led to it, and forwards, from an earlier
machine on. What holds at one machine and is kept by steps holds at all later ones.
-/

/-- What has led to an earlier machine is a history of it. -/
theorem before {m' : Machine} (h : History capacity m' (m :: past)) : History capacity m past := by
  cases h with
  | step before => exact before
  | enter before => exact before

/-- A machine of a history comes from the one before by a step, or from outside. -/
theorem step_or_enter {m' : Machine} (h : History capacity m' (m :: past)) :
    (m.atRest = false ∧ m' = m.step) ∨
      (m.atRest = true ∧ ∃ thread log, ∃ c : Call, c.Outside ∧
        m' = ⟨{ m.world with thread, log }, .call c, []⟩) := by
  cases h with
  | step before busy => exact .inl ⟨busy, rfl⟩
  | enter before rest thread log outside => exact .inr ⟨rest, thread, log, _, outside, rfl⟩

/-- A history can be looked at from any of its machines on. -/
theorem of_mem (h : History capacity m past) {x : Machine} (hx : x ∈ past) :
    ∃ past', History capacity x past' ∧ x :: past' <:+ past := by
  induction h with
  | start => cases hx
  | @step m past before busy ih =>
      rcases List.mem_cons.mp hx with rfl | hx
      · exact ⟨past, before, List.suffix_refl _⟩
      · obtain ⟨past', hpast, hsuffix⟩ := ih hx
        exact ⟨past', hpast, hsuffix.trans (List.suffix_cons m past)⟩
  | @enter m past before rest thread log c outside ih =>
      rcases List.mem_cons.mp hx with rfl | hx
      · exact ⟨past, before, List.suffix_refl _⟩
      · obtain ⟨past', hpast, hsuffix⟩ := ih hx
        exact ⟨past', hpast, hsuffix.trans (List.suffix_cons m past)⟩

/-- The same, where the last machine counts as well. -/
theorem of_mem_cons (h : History capacity m past) {x : Machine} (hx : x ∈ m :: past) :
    ∃ earlier, History capacity x earlier ∧ ∀ z ∈ x :: earlier, z ∈ m :: past := by
  rcases List.mem_cons.mp hx with rfl | hx
  · exact ⟨past, h, fun _ hz => hz⟩
  · obtain ⟨earlier, hearlier, suffix⟩ := h.of_mem hx
    exact ⟨earlier, hearlier, fun z hz => List.mem_cons_of_mem _ (suffix.subset hz)⟩

/-- What holds at one machine holds at every later one, if steps keep it and it depends neither on the thread
nor on the log. -/
theorem persists {P : World → Prop} (h : History capacity m past) {x : Machine} (hx : x ∈ m :: past)
    (hP : P x.world)
    (step : ∀ {y earlier}, History capacity y earlier → x ∈ y :: earlier → P y.world → P y.step.world)
    (enter : ∀ {w : World} (thread : Thread) (log : List Event), P w → P { w with thread, log }) :
    P m.world := by
  induction h with
  | start =>
      obtain rfl := List.mem_singleton.mp hx
      exact hP
  | step before busy ih =>
      rcases List.mem_cons.mp hx with rfl | hx
      · exact hP
      · exact step before hx (ih hx)
  | enter before rest thread log outside ih =>
      rcases List.mem_cons.mp hx with rfl | hx
      · exact hP
      · exact enter thread log (ih hx)

/-- A session starts with no cells, which are all sound. -/
theorem sound_start (capacity : Nat) : (World.start capacity).Sound := by
  intro c
  rw [World.cell_of_size_le (Nat.zero_le c)]
  exact Cell.sound_default

/-- All cells are sound all the time. -/
theorem sound (h : History capacity m past) : m.world.Sound := by
  induction h with
  | start => exact sound_start capacity
  | step before busy ih => exact Machine.step_sound ih
  | enter before rest thread log outside ih => exact ih.of_cells_eq rfl

/-- Cells only move on along a history. -/
theorem later (h : History capacity m past) {x : Machine} (hx : x ∈ past) (c : CellId) :
    (x.world.cell c).Later (m.world.cell c) := by
  refine h.persists (P := fun w => (x.world.cell c).Later (w.cell c)) (List.mem_cons_of_mem _ hx)
    (.refl _) (fun {y} _ before _ later => later.trans ?_) fun _ _ later => later
  have becomes := Machine.step_cell before.sound c
  exact ⟨fun o ho => becomes.peek ho, fun t ht => becomes.owner ht⟩

/-- Cells are never taken away. -/
theorem size_le (h : History capacity m past) {x : Machine} (hx : x ∈ past) :
    x.world.cells.size ≤ m.world.cells.size :=
  h.persists (P := fun w => x.world.cells.size ≤ w.cells.size) (List.mem_cons_of_mem _ hx)
    (Nat.le_refl _) (fun before _ le => le.trans (Machine.size_step before.sound)) fun _ _ le => le

end History

end RequestGraph
