import RequestGraph.Proofs.Cell.Lifetime
import RequestGraph.Proofs.Delivery.Order
import RequestGraph.Proofs.Engine.Contexts
import RequestGraph.Proofs.FanIn.Awaiting
import RequestGraph.Proofs.FanIn.Marking
import RequestGraph.Proofs.FanIn.Setup

/-!
# Fan-ins along histories

A fan-in settles at most once in a run, whatever is done meanwhile and from wherever it is begun: with the
first failure that it is signalled, or with the success after which all its cells have succeeded. If the sink
returns from every report, then whenever nothing is left to be done,

    the continuation has run    ↔    one of the cells has failed, or all have succeeded
-/

namespace RequestGraph

namespace Machine

variable {m : Machine} {f : FanInId} {cells : List CellId} {k : Continuation} {failure : Option Error}
  {past : List Machine} {thread : Thread} {log : List Event} {c : Call}

/-! ## What is begun from the outside

A history also goes on with calls from the outside. These begin when nothing is left to be done, and bring
no signal with them, so all that was said of steps holds for them as well.
-/

/-- The machine that begins a call while nothing else is to be done. -/
def enter (m : Machine) (thread : Thread) (log : List Event) (c : Call) : Machine :=
  ⟨{ m.world with thread, log }, .call c, []⟩

/-- What is begun from the outside signals nothing. -/
theorem due_enter (rest : m.atRest = true) (outside : c.Outside) (f : FanInId) :
    (m.enter thread log c).due f = m.due f := by
  obtain ⟨w, control, stack⟩ := m
  obtain ⟨hcontrol, rfl⟩ := atRest_iff.mp rest
  cases control with
  | call _ => cases hcontrol
  | _ => cases outside <;> rfl

/-- What is begun from the outside watches nothing. -/
theorem toWatch_enter (outside : c.Outside) (f : FanInId) :
    (m.enter thread log c).toWatch f = [] := by
  cases outside <;> rfl

/-- What is begun from the outside has no error in hand. -/
theorem not_fails_enter (outside : c.Outside) {f : FanInId} {e : Error} :
    ¬(m.enter thread log c).Fails f e := by
  rintro (⟨c', hcall, hfails⟩ | ⟨frame, hframe, -⟩)
  · cases hcall
    cases outside <;> cases hfails
  · cases hframe

/-- At rest, no error is on its way. -/
theorem not_fails_of_atRest (rest : m.atRest = true) {f : FanInId} {e : Error} : ¬m.Fails f e := by
  obtain ⟨hcontrol, hstack⟩ := atRest_iff.mp rest
  rintro (⟨c, hcall, -⟩ | ⟨frame, hframe, -⟩)
  · rw [hcall] at hcontrol
    cases hcontrol
  · rw [hstack] at hframe
    cases hframe

/-- Fan-ins that are not there are due nothing, also when something is begun. -/
theorem Fresh.enter (h : m.Fresh) (rest : m.atRest = true) (outside : c.Outside) :
    (m.enter thread log c).Fresh := by
  intro f hf
  rw [due_enter rest outside]
  exact h f hf

/-- Counts stay ahead of what is due when something is begun. -/
theorem KeepsCount.enter (h : m.KeepsCount) (rest : m.atRest = true) (outside : c.Outside) :
    (m.enter thread log c).KeepsCount := by
  intro f
  rw [due_enter rest outside]
  exact h f

theorem Covers.enter {d : CellId} (h : m.Covers f d) (rest : m.atRest = true) :
    (m.enter thread log c).Covers f d := by
  rcases h with hd | hd | hd | ⟨e, he⟩
  · rw [toWatch, (atRest_iff.mp rest).2, Control.toWatch_of_not_isCall (atRest_iff.mp rest).1] at hd
    cases hd
  · exact .inr (.inl hd)
  · exact .inr (.inr (.inl hd))
  · exact absurd he (not_fails_of_atRest rest)

theorem Heeds.enter (h : m.Heeds f cells) (outside : c.Outside) :
    (m.enter thread log c).Heeds f cells where
  asked d hd := by
    rw [toWatch_enter outside] at hd
    cases hd
  watched := h.watched
  fails e he := absurd he (not_fails_enter outside)

/-- What holds of a fan-in that stands does not depend on what is begun. -/
theorem Stands.enter (h : m.Stands f cells k) (rest : m.atRest = true) (outside : c.Outside) :
    (m.enter thread log c).Stands f cells k where
  there := h.there
  calm := h.calm
  left := h.left
  counts := by
    rw [due_enter rest outside]
    exact h.counts
  positive := h.positive
  covered hdue d hd := by
    rw [due_enter rest outside] at hdue
    exact (h.covered hdue d hd).enter rest

/-- A fan-in that waits goes on waiting when something is begun from the outside. -/
theorem Awaits.enter (h : m.Awaits f cells k) (rest : m.atRest = true) (outside : c.Outside) :
    (m.enter thread log c).Awaits f cells k := by
  refine (h.stands.enter rest outside).awaits (h.heeds.enter outside) ?_
  rw [due_enter rest outside]
  exact h.counts

/-- A fan-in that has settled stays as it is when something is begun. -/
theorem Settled.enter (h : m.Settled f failure) (rest : m.atRest = true) (outside : c.Outside) :
    (m.enter thread log c).Settled f failure where
  there := h.there
  taken := h.taken
  failed := h.failed
  quiet hfailure := by
    rw [due_enter rest outside]
    exact h.quiet hfailure

/-! ## Where signals come from

A fan-in is signalled by its own set-up once, at its end, and after that by its listeners. So a signal that
comes later can be traced to a cell that is being delivered.
-/

/-- A fan-in is being set up. -/
def SetsUp (m : Machine) (f : FanInId) : Prop :=
  (∃ cells, m.control = .call (.watch f cells)) ∨ ∃ rest, .watching f rest ∈ m.stack

/-- A signal is due to a fan-in while it is being set up. -/
theorem not_setsUp {control : Control} {frames : List Frame}
    (h : control.due f + framesDue f frames = 0) :
    ¬((∃ cells, control = .call (.watch f cells)) ∨ ∃ rest, .watching f rest ∈ frames) := by
  rintro (⟨cells, rfl⟩ | ⟨rest, hmem⟩)
  · have hcontrol : (Control.call (.watch f cells)).due f = 1 := if_pos rfl
    omega
  · have hframe : 0 < framesDue f frames := by
      refine List.sum_pos_iff_exists_pos_nat.mpr ⟨1, ?_, Nat.one_pos⟩
      exact List.mem_map.mpr ⟨_, hmem, if_pos rfl⟩
    omega

theorem not_setsUp_of_due (h : m.due f = 0) : ¬m.SetsUp f := by
  rw [due] at h
  exact not_setsUp (by omega)

/-- A set-up is entered by the call that makes the fan-in, and goes on by itself. -/
theorem setsUp_invoke {w : World} (h : w.Sound) {call : Call}
    (sets : (∃ cells, (w.invoke call).control = .call (.watch f cells)) ∨
      ∃ rest, .watching f rest ∈ (w.invoke call).frames) :
    (∃ cells, call = .watch f cells) ∨ f = w.fanIns.size := by
  have hspec := World.invoke_spec h call
  generalize w.invoke call = mv at hspec sets
  cases hspec with
  | operated hop => exact (not_setsUp (hop.due f) sets).elim
  | awaiting =>
      rcases sets with ⟨cells, hcall⟩ | ⟨rest, hmem⟩
      · cases hcall
        exact .inr rfl
      · cases hmem
  | watchSkipped =>
      rcases sets with ⟨cells, hcall⟩ | ⟨rest, hmem⟩
      · cases hcall
        exact .inl ⟨_, rfl⟩
      · cases hmem
  | watching =>
      rcases sets with ⟨cells, hcall⟩ | ⟨rest, hmem⟩
      · cases hcall
      · cases List.mem_singleton.mp hmem
        exact .inl ⟨_, rfl⟩
  | fetchedNew _ _ _ starts =>
      rcases sets with ⟨cells, hcall⟩ | ⟨rest, hmem⟩
      · cases hcall
        cases starts
      · cases List.mem_singleton.mp hmem
  | _ =>
      rcases sets with ⟨cells, hcall⟩ | ⟨rest, hmem⟩
      · cases hcall
      · simp at hmem

/-- Only the start of a fan-in begins its set-up. -/
theorem step_setsUp (h : m.world.Sound) (sets : m.step.SetsUp f) :
    m.SetsUp f ∨ f = m.world.fanIns.size := by
  obtain ⟨w, control, stack⟩ := m
  have below {mv : Move} (sets : (ofMove mv stack).SetsUp f) :
      ((∃ cells, mv.control = .call (.watch f cells)) ∨ ∃ rest, .watching f rest ∈ mv.frames) ∨
        ∃ rest, .watching f rest ∈ stack := by
    rcases sets with hcall | ⟨rest, hmem⟩
    · exact .inl (.inl hcall)
    · exact (List.mem_append.mp hmem).imp (fun h => .inr ⟨rest, h⟩) fun h => ⟨rest, h⟩
  cases control with
  | call call =>
      rcases below sets with sets | sets
      · rcases setsUp_invoke h sets with ⟨cells, rfl⟩ | hf
        · exact .inl (.inl ⟨cells, rfl⟩)
        · exact .inr hf
      · exact .inl (.inr sets)
  | ret r => cases stack with
    | nil => exact .inl sets
    | cons frame stack =>
        have hdue := w.due_resume f frame r
        -- A frame that has no signals in hand is not one that watches, so the set-up must go on somewhere
        -- below it.
        by_cases hframe : frame.due f = 0
        · left
          right
          rcases sets with hcall | ⟨rest, hmem⟩
          · exact (not_setsUp (hdue.trans hframe) (.inl hcall)).elim
          · rcases List.mem_append.mp hmem with hmem | hmem
            · exact (not_setsUp (hdue.trans hframe) (.inr ⟨rest, hmem⟩)).elim
            · exact ⟨rest, List.mem_cons_of_mem _ hmem⟩
        · cases frame with
          | watching f' rest =>
              have hf : f' = f := by
                by_contra hf
                exact hframe (if_neg hf)
              exact .inl (.inr ⟨rest, hf ▸ List.mem_cons_self⟩)
          | _ => exact (hframe rfl).elim
  | raise p => cases stack with
    | nil => exact .inl sets
    | cons frame stack =>
        left
        right
        rcases sets with hcall | ⟨rest, hmem⟩
        · exact (not_setsUp (w.due_unwind f frame p) (.inl hcall)).elim
        · rcases List.mem_append.mp hmem with hmem | hmem
          · exact (not_setsUp (w.due_unwind f frame p) (.inr ⟨rest, hmem⟩)).elim
          · exact ⟨rest, List.mem_cons_of_mem _ hmem⟩

/-- A fan-in is signalled at the end of its set-up, or when one of its listeners is told. -/
theorem signal_of_step (h : m.world.Sound) (signals : m.step.control = .call (.signal f failure)) :
    m.SetsUp f ∧ failure = none ∨
      ∃ o, m.control = .call (.tell (.relay f) o) ∧ failure = Outcome.error? o := by
  obtain ⟨c, call, hcall⟩ := call_of_passesOn rfl signals
  have hspec := World.invoke_spec h c
  generalize m.world.invoke c = mv at hspec hcall
  cases hspec with
  | operated hop =>
      have hdue := hop.due f
      have hcontrol : mv.control.due f = 1 := by
        rw [hcall]
        exact if_pos rfl
      omega
  | signalled =>
      cases hcall
      exact .inr ⟨_, call, rfl⟩
  | watched | watchStopped =>
      cases hcall
      exact .inl ⟨.inl ⟨_, call⟩, rfl⟩
  | fetchedNew _ _ _ starts =>
      cases hcall
      cases starts
  | _ => cases hcall

/-! ## A fan-in along a history

The induction over a history. Between its making and its settling a fan-in stands, and after that it stays
as it is; there is no way back.
-/

/-- Why a fan-in settles stays a reason. -/
theorem Justified.mono (h : m.Justified cells failure) {m' : Machine}
    (later : ∀ c o, (m.world.cell c).peek = some o → (m'.world.cell c).peek = some o) :
    m'.Justified cells failure := by
  cases failure with
  | none =>
      intro c hc
      have hc := h c hc
      unfold World.hasSucceeded Cell.value? at hc ⊢
      split at hc
      · next stored => rw [later c _ stored]; rfl
      · cases hc
  | some e =>
      obtain ⟨c, hc, hpeek⟩ := h
      exact ⟨c, hc, later c _ hpeek⟩

/-- How far a fan-in has come in a run: it stands, and all signals so far were counted; or it was settled, for
a reason. -/
inductive Standing (m : Machine) (past : List Machine) (f : FanInId) (cells : List CellId)
    (k : Continuation) : Prop
  | stands (stands : m.Stands f cells k)
      (counted : ∀ y ∈ past, ∀ failure, y.control = .call (.signal f failure) →
        y.Counted ∧ failure = none)
      (kept : (∀ y ∈ past, y.SinkReturns) → (m.world.fanIn f).remaining = m.due f) :
      Standing m past f cells k
  | settled {failure : Option Error} {y : Machine} (settled : m.Settled f failure) (hy : y ∈ past)
      (fires : y.Fires f k failure) (justified : m.Justified cells failure) :
      Standing m past f cells k

/-- A signal that settles a fan-in is not merely counted. -/
theorem Fires.not_counted (h : m.Fires f k failure) : ¬m.Counted := by
  intro counted
  exact nomatch counted.1.symm.trans h.2

theorem Standing.there (h : m.Standing past f cells k) : f < m.world.fanIns.size := by
  cases h with
  | stands stands => exact stands.there
  | settled settled => exact settled.there

/-- Standing or settled, a fan-in is accounted for after any step. -/
theorem Standing.step (h : m.Standing past f cells k) (heeds : m.Heeds f cells)
    (sound : m.world.Sound) (orderly : (∀ y ∈ past, y.SinkReturns) → m.Orderly)
    (there : ∀ c ∈ cells, c < m.world.cells.size) : m.step.Standing (m :: past) f cells k := by
  have later (c : CellId) (o : Outcome) (hc : (m.world.cell c).peek = some o) :
      (m.step.world.cell c).peek = some o := (step_cell sound c).peek hc
  cases h with
  | settled settled hy fires justified =>
      exact .settled (settled.step sound).1 (List.mem_cons_of_mem _ hy) fires (justified.mono later)
  | stands stands counted kept =>
      -- Either the fan-in goes on standing, or this step is the one that settles it.
      rcases stands.step sound there with ⟨stands', counted'⟩ | ⟨failure, fires, settled, succeeded⟩
      · refine .stands stands' ?_ ?_
        · intro y hy failure call
          rcases List.mem_cons.mp hy with rfl | hy
          · refine ⟨counted' failure call, ?_⟩
            cases failure with
            | none => rfl
            | some e => exact ((stands.fires sound call nofun).1.not_counted (counted' _ call)).elim
          · exact counted y hy failure call
        · intro sink
          have sink' : ∀ y ∈ past, y.SinkReturns := fun y hy => sink y (List.mem_cons_of_mem _ hy)
          have awaits := stands.awaits heeds (kept sink')
          exact awaits.counts_step sound (orderly sink') there stands'
      · refine .settled settled List.mem_cons_self fires ?_
        cases failure with
        | none => exact fun c hc => step_hasSucceeded sound (succeeded rfl c hc)
        | some e =>
            obtain ⟨c, hc, hpeek⟩ := heeds.fails e (.inl ⟨_, fires.1, .signal⟩)
            exact ⟨c, hc, later c _ hpeek⟩

/-- Standing or settled, a fan-in is accounted for when something is begun. -/
theorem Standing.enter (h : m.Standing past f cells k) (rest : m.atRest = true)
    (outside : c.Outside) : (m.enter thread log c).Standing (m :: past) f cells k := by
  cases h with
  | settled settled hy fires justified =>
      exact .settled (settled.enter rest outside) (List.mem_cons_of_mem _ hy) fires
        (justified.mono fun _ _ => id)
  | stands stands counted kept =>
      refine .stands (stands.enter rest outside) ?_ ?_
      · intro y hy failure call
        rcases List.mem_cons.mp hy with rfl | hy
        · cases rest.symm.trans (busy_of_call call)
        · exact counted y hy failure call
      · intro sink
        rw [due_enter rest outside]
        exact kept fun y hy => sink y (List.mem_cons_of_mem _ hy)

/-- The next step signals a fan-in because its listener at a cell is being told an outcome. -/
def NotifiedBy (past : List Machine) (f : FanInId) (c : CellId) (o : Outcome) : Prop :=
  ∃ s t n earlier, past = t :: n :: earlier ∧ n.control = .call (.notify s o) ∧
    s.listener = .relay f ∧ s ∈ registrations c earlier ∧ (n.world.cell c).peek = some o

end Machine

namespace History

variable {capacity : ℕ} {m x : Machine} {past : List Machine} {f : FanInId} {cells : List CellId}
  {k : Continuation} {c : CellId} {s : Subscription} {failure : Option Error}

/-- Nothing is due to fan-ins that are not there, along every history. -/
theorem fresh (h : History capacity m past) : m.Fresh := by
  induction h with
  | start =>
      intro f _
      rfl
  | step before busy ih => exact ih.step before.sound
  | enter before rest thread log outside ih => exact ih.enter rest outside

/-- No count of a fan-in ever borrows from the mark of a failure. -/
theorem keepsCount (h : History capacity m past) : m.KeepsCount := by
  induction h with
  | start =>
      intro f
      exact Nat.le_refl 0
  | step before busy ih => exact ih.step before.fresh before.sound
  | enter before rest thread log outside ih => exact ih.enter rest outside

/-- Fan-ins are never taken away. -/
theorem fanIns_le (h : History capacity m past) (hx : x ∈ past) :
    x.world.fanIns.size ≤ m.world.fanIns.size :=
  h.kept (P := fun w => x.world.fanIns.size ≤ w.fanIns.size) hx (Nat.le_refl _)
    (fun sound _ hsize => hsize.trans (Machine.size_fanIns_step sound)) fun _ _ => id

/-- Only fan-ins that are there have listeners. -/
theorem lt_of_relay (h : History capacity m past) (hs : s ∈ registrations c past)
    (relay : s.listener = .relay f) : f < m.world.fanIns.size := by
  induction h with
  | start => cases hs
  | @step m past before busy ih =>
      rw [registrations_cons] at hs
      rcases List.mem_append.mp hs with hs | hs
      · exact (ih hs).trans_le (Machine.size_fanIns_step before.sound)
      · refine Nat.lt_of_lt_of_le ?_ (Machine.size_fanIns_step before.sound)
        by_contra hf
        have call := (Machine.mem_registers.mp hs).1
        have hdue := before.fresh f (Nat.le_of_not_lt hf)
        have hcontrol : m.control.due f = 1 := by
          rw [call, relay]
          simp [Control.due, Call.due, Listener.relays]
        rw [Machine.due] at hdue
        omega
  | @enter m past before rest thread log call outside ih =>
      rw [registrations_cons, Machine.registers_of_atRest rest, List.append_nil] at hs
      exact ih hs

/-- A signal comes at the end of a set-up, or in a notification. -/
theorem notified_of_signal (h : History capacity m past)
    (call : m.control = .call (.signal f failure)) :
    (∃ t earlier, past = t :: earlier ∧ m = t.step ∧ t.SetsUp f ∧ failure = none) ∨
      ∃ c o, failure = Outcome.error? o ∧ Machine.NotifiedBy past f c o := by
  cases h with
  | start => cases call
  | enter before rest thread log outside => cases outside <;> cases call
  | @step t earlier before busy =>
      rcases Machine.signal_of_step before.sound call with sets | ⟨o, tells, hfailure⟩
      · exact .inl ⟨t, earlier, rfl, rfl, sets⟩
      · right
        cases before with
        | start => cases tells
        | enter before rest thread log outside => cases outside <;> cases tells
        | @step n earlier before busy =>
            obtain ⟨s, notifies, relay⟩ := Machine.tell_of_step before.sound tells
            have hflight : (s, o) ∈ n.inFlight := by
              rw [Machine.inFlight, notifies]
              exact List.mem_append_left _ List.mem_cons_self
            obtain ⟨c, hs, hpeek⟩ := before.stored_of_inFlight hflight
            exact ⟨c, o, hfailure, s, n.step, n, earlier, rfl, notifies, relay, hs, hpeek⟩

/-! ## Fan-ins that were made

Only from here on are the cells known that a fan-in was made for. At the step that makes it nothing has been
signalled, and the cells are all still to be watched.
-/

/-- From when it was made, a fan-in stands or has settled, and heeds its cells. -/
structure Attends (m : Machine) (past : List Machine) (f : FanInId) (cells : List CellId)
    (k : Continuation) : Prop where
  there : ∀ c ∈ cells, c < m.world.cells.size
  heeds : m.Heeds f cells
  relays : ∀ c, ∀ s ∈ registrations c past, s.listener = .relay f → c ∈ cells
  standing : m.Standing past f cells k

/-- A fan-in that is being made has not been signalled. -/
theorem unsignalled (h : History capacity m past) {y : Machine} (hy : y ∈ m :: past) :
    y.control ≠ .call (.signal m.world.fanIns.size failure) := by
  intro call
  have hdue := Machine.due_pos call
  rcases List.mem_cons.mp hy with rfl | hy
  · exact Nat.ne_of_gt hdue (h.fresh _ (Nat.le_refl _))
  · obtain ⟨earlier, hy', -⟩ := h.of_mem hy
    exact Nat.ne_of_gt hdue (hy'.fresh _ (h.fanIns_le hy))

/-- A fan-in that was made is accounted for from then on. -/
theorem attends (h : History capacity m past) (hx : x ∈ past) (starts : x.Starts cells k)
    (there : ∀ c ∈ cells, c < x.world.cells.size) :
    Attends m past x.world.fanIns.size cells k := by
  induction h with
  | start => cases hx
  | @step m past before busy ih =>
      have hsize := Machine.size_step before.sound
      -- The step that makes the fan-in, or a later one.
      rcases List.mem_cons.mp hx with rfl | hx
      · obtain ⟨stands, heeds, due, remaining⟩ := starts.stands before.fresh before.sound
        refine ⟨fun c hc => (there c hc).trans_le hsize, heeds, ?_, .stands stands ?_ ?_⟩
        · intro c s hs relay
          rw [registrations_cons] at hs
          rcases List.mem_append.mp hs with hs | hs
          · exact absurd (before.lt_of_relay hs relay) (Nat.lt_irrefl _)
          · exact nomatch (Machine.mem_registers.mp hs).1.symm.trans starts.1
        · exact fun y hy failure call => (before.unsignalled hy call).elim
        · exact fun _ => remaining.trans due.symm
      · have hbefore := ih hx
        refine ⟨fun c hc => (hbefore.there c hc).trans_le hsize,
          hbefore.heeds.step before.sound hbefore.standing.there, ?_,
          hbefore.standing.step hbefore.heeds before.sound before.orderly hbefore.there⟩
        intro c s hs relay
        rw [registrations_cons] at hs
        rcases List.mem_append.mp hs with hs | hs
        · exact hbefore.relays c s hs relay
        · apply hbefore.heeds.asked
          rw [Machine.toWatch, (Machine.mem_registers.mp hs).1, relay]
          simp [Control.toWatch, Call.toWatch, Listener.relays]
  | @enter m past before rest thread log call outside ih =>
      have hx : x ∈ past := by
        rcases List.mem_cons.mp hx with rfl | hx
        · cases rest.symm.trans (Machine.busy_of_call starts.1)
        · exact hx
      have hbefore := ih hx
      refine ⟨hbefore.there, hbefore.heeds.enter outside, ?_, hbefore.standing.enter rest outside⟩
      intro c s hs relay
      rw [registrations_cons, Machine.registers_of_atRest rest, List.append_nil] at hs
      exact hbefore.relays c s hs relay

/-! ## The set-up in a history

A set-up runs no code of users, so it is carried through in the run in which it began. This is why a fan-in
is never settled by the signal at the end of its set-up.
-/

/-- A set-up that has not ended is in the middle of the run that it began with. -/
theorem setUp_at (h : History capacity m past) (hx : x ∈ past) (starts : x.Starts cells k)
    (there : ∀ c ∈ cells, c < x.world.cells.size) {n : ℕ} {ls : List (CellId × Listener)} {w' : World}
    (registers : x.Registers n ls ⟨w', .ret .unit, x.stack⟩)
    (sets : m.SetsUp x.world.fanIns.size) : ∃ i < n, m = x.iterate i := by
  obtain ⟨earlier, hearlier, -⟩ := h.of_mem hx
  have unset : ¬x.SetsUp x.world.fanIns.size :=
    Machine.not_setsUp_of_due (hearlier.fresh _ (Nat.le_refl _))
  have ended : ¬(x.iterate n).SetsUp x.world.fanIns.size := by
    rw [registers.ends]
    rintro (⟨cells, call⟩ | hmem)
    · cases call
    · exact unset (.inr hmem)
  -- A set-up is begun by the step that makes the fan-in and by no other, and it goes on without a gap until
  -- it has returned. So the machines that set it up are those of this one run.
  induction h with
  | start => cases hx
  | enter before rest thread log outside =>
      rcases sets with ⟨cells, call⟩ | ⟨rest, hmem⟩
      · cases call
        cases outside
      · cases hmem
  | @step m past before busy ih =>
      obtain ⟨i, hi, rfl⟩ : ∃ i < n, m = x.iterate i := by
        rcases List.mem_cons.mp hx with rfl | hx
        · refine ⟨0, Nat.pos_of_ne_zero ?_, rfl⟩
          rintro rfl
          exact nomatch (congrArg Machine.control registers.ends).symm.trans starts.1
        · rcases Machine.step_setsUp before.sound sets with sets | hf
          · exact ih hx sets
          · exact absurd hf (Nat.ne_of_lt (before.attends hx starts there).standing.there)
      rw [← Machine.iterate_succ] at sets ⊢
      refine ⟨i + 1, Nat.lt_of_le_of_ne hi ?_, rfl⟩
      rintro rfl
      exact ended sets

/-- A signal that settles a fan-in comes in a notification, and not at the end of the set-up. -/
theorem notified_of_fires (h : History capacity m past) (hx : x ∈ past) (starts : x.Starts cells k)
    (there : ∀ c ∈ cells, c < x.world.cells.size)
    (fires : m.Fires x.world.fanIns.size k none)
    (succeeded : ∀ c ∈ cells, m.world.hasSucceeded c = true) :
    ∃ c ∈ cells, ∃ v, Machine.NotifiedBy past x.world.fanIns.size c (.ok v) := by
  obtain ⟨xs, hxs, -⟩ := h.of_mem hx
  rcases h.notified_of_signal fires.1 with ⟨t, earlier, rfl, rfl, sets, -⟩ | ⟨c, o, ho, notified⟩
  · -- A cell is pending until the set-up ends.
    exfalso
    obtain ⟨n, w', registers, setUp, c, hc, pending⟩ := starts.sets_up hxs.sound there
    rcases List.mem_cons.mp hx with rfl | hx
    · exact Machine.not_setsUp_of_due (hxs.fresh _ (Nat.le_refl _)) sets
    · obtain ⟨i, hi, rfl⟩ := h.before.setUp_at hx starts there registers sets
      have hend : ((x.iterate (i + 1)).iterate (n - (i + 1))).world = w' := by
        rw [← Machine.iterate_add, Nat.add_sub_cancel' hi, registers.ends]
      rw [← Machine.iterate_succ] at h succeeded
      have pending : ((x.iterate (i + 1)).world.cell c).isRealized = false := by
        refine Machine.pending_of_iterate (n := n - (i + 1)) h.sound ?_
        rw [hend]
        exact setUp.pending pending
      have hc := succeeded c hc
      rw [World.hasSucceeded, Cell.value?, Cell.peek_of_pending pending] at hc
      cases hc
  · cases o with
    | error e => cases ho
    | ok v =>
        obtain ⟨s, t, n, earlier, rfl, notifies, relay, hs, hpeek⟩ := notified
        refine ⟨c, ?_, v, s, t, n, earlier, rfl, notifies, relay, hs, hpeek⟩
        apply (h.attends hx starts there).relays c s _ relay
        rw [registrations_cons, registrations_cons]
        exact List.mem_append_left _ (List.mem_append_left _ hs)

end History

/-! ## The main result

The invariants of the earlier sections at the machines that matter: where the fan-in is made, where it
settles, and where nothing is left to be done.
-/

/-- What has become of a fan-in that was made for some cells. -/
structure FanInSettles (m : Machine) (past : List Machine) (f : FanInId) (cells : List CellId)
    (k : Continuation) : Prop where
  /-- It settles once. -/
  once : ∀ failure, m.Fires f k failure → ∀ y ∈ past, ∀ failure', ¬y.Fires f k failure'
  /-- A signal settles it, or is counted and changes nothing else. -/
  counted : ∀ failure, m.control = .call (.signal f failure) → m.Fires f k failure ∨ m.Counted
  /-- The signals that are still due and the mark of a failure are within its count, so that no success that comes
  after a failure takes the mark away. -/
  counts : m.due f + (m.world.fanIn f).failed.toNat ≤ (m.world.fanIn f).remaining
  /-- A success takes one from the word of the count and the mark, and settles it if that was all. -/
  word : m.control = .call (.signal f none) → (m.step.world.fanIn f).word = (m.world.fanIn f).word - 1 ∧
    (m.Fires f k none ↔ (m.world.fanIn f).word = 1)
  /-- The first failure that it is signalled settles it. -/
  first : ∀ e, m.Fires f k (some e) ↔ m.control = .call (.signal f (some e)) ∧
    ∀ y ∈ past, ∀ e', y.control ≠ .call (.signal f (some e'))
  /-- A failure is signalled in the notification of a cell of the fan-in that has failed so. -/
  failure : ∀ e, m.control = .call (.signal f (some e)) →
    ∃ c ∈ cells, Machine.NotifiedBy past f c (.error e)
  /-- A success settles it in the notification of a cell, once all cells have succeeded. -/
  success : m.Fires f k none → (∀ c ∈ cells, m.world.hasSucceeded c = true) ∧
    ∃ c ∈ cells, ∃ v, Machine.NotifiedBy past f c (.ok v)
  /-- If the sink returns from every report, it is not forgotten. -/
  settled : m.atRest = true → (∀ y ∈ past, y.SinkReturns) →
    ((∃ y ∈ past, ∃ failure, y.Fires f k failure) ↔
      (∃ c ∈ cells, ∃ e, (m.world.cell c).peek = some (.error e)) ∨
        ∀ c ∈ cells, m.world.hasSucceeded c = true)

/-- What it means that `x` awaits some cells, at any later machine of the run. -/
structure AwaitSettles (m : Machine) (past : List Machine) (x : Machine) (cells : List CellId)
    (k : Continuation) : Prop where
  /-- If one of the cells has failed, the continuation runs at once with the error of the last one. -/
  failed : ∀ l c r e, cells = l ++ c :: r → (x.world.cell c).error? = some e →
    (∀ d ∈ r, (x.world.cell d).error? = none) →
      x.step = ⟨x.world, .call (.conclude k (some e)), x.stack⟩
  /-- If all have succeeded, it runs at once. -/
  succeeded : (∀ c ∈ cells, x.world.hasSucceeded c = true) →
    x.step = ⟨x.world, .call (.conclude k none), x.stack⟩
  /-- Otherwise a fan-in is registered with the cells that are pending, from the last to the first, and that
  is all that happens before the call comes back. -/
  setsUp : (∀ c ∈ cells, (x.world.cell c).error? = none) →
    (∃ c ∈ cells, x.world.hasSucceeded c = false) →
      ∃ n w', x.Registers n ((cells.reverse.filter x.world.isPending).map
          fun c => (c, .relay x.world.fanIns.size)) ⟨w', .ret .unit, x.stack⟩ ∧
        x.world.SetUp cells k w'
  /-- To conclude a user's continuation is to show that it was, and how, and then to run its script for that end, once.
  The script for a failure is given the error. -/
  concludes : ∀ tag onSuccess onError scope failure,
    m.control = .call (.conclude (.user tag onSuccess onError scope) failure) →
      m.step = ⟨m.world.note (.joined tag (failure.map m.world.reportError)), .call (match failure with
        | none => .script onSuccess scope
        | some e => .script onError (scope.withError e)), m.stack⟩
  /-- And the continuation waits for the fan-in. -/
  settles : (∀ c ∈ cells, (x.world.cell c).error? = none) →
    (∃ c ∈ cells, x.world.hasSucceeded c = false) →
      FanInSettles m past x.world.fanIns.size cells k

namespace History

variable {capacity : ℕ} {m x : Machine} {past : List Machine} {cells : List CellId}
  {k : Continuation}

/-- Every fan-in that is made settles as it should, in every history. -/
theorem fanIn_settles (h : History capacity m past) (hx : x ∈ past) (starts : x.Starts cells k)
    (there : ∀ c ∈ cells, c < x.world.cells.size) :
    FanInSettles m past x.world.fanIns.size cells k := by
  have attends := h.attends hx starts there
  have sound := h.sound
  -- A signal either settles the fan-in or is just counted, whatever stage it is in.
  have counted (failure : Option Error) (call : m.control = .call (.signal x.world.fanIns.size failure)) :
      m.Fires x.world.fanIns.size k failure ∨ m.Counted := by
    cases attends.standing with
    | settled settled => exact .inr ((settled.step sound).2 failure call)
    | stands stands =>
        rcases stands.step sound attends.there with ⟨-, counted⟩ | ⟨failure', fires, -⟩
        · exact .inr (counted failure call)
        · cases call.symm.trans fires.1
          exact .inl fires
  constructor
  case once =>
    intro failure fires y hy failure' fires'
    cases attends.standing with
    | stands _ counted => exact fires'.not_counted (counted y hy failure' fires'.1).1
    | settled settled => exact fires.not_counted ((settled.step sound).2 failure fires.1)
  case counted => exact counted
  case counts => exact h.keepsCount x.world.fanIns.size
  case word =>
    intro call
    obtain ⟨hword, hends⟩ := h.keepsCount.step_word h.fresh sound call
    refine ⟨hword, ?_⟩
    constructor
    · intro fires
      by_contra left
      exact nomatch fires.2.symm.trans (hends.mpr left)
    · intro last
      apply (counted none call).resolve_right
      exact fun ends => hends.mp ends.1 last
  case first =>
    intro e
    constructor
    · intro fires
      refine ⟨fires.1, ?_⟩
      intro y hy e' call
      cases attends.standing with
      | stands _ counted => exact nomatch (counted y hy _ call).2
      | settled settled => exact fires.not_counted ((settled.step sound).2 _ fires.1)
    · rintro ⟨call, first⟩
      cases attends.standing with
      | stands stands => exact (stands.fires sound call nofun).1
      | @settled failure y settled hy fires =>
          cases failure with
          | some e' => exact (first y hy e' fires.1).elim
          | none => exact absurd (settled.quiet rfl) (Nat.ne_of_gt (Machine.due_pos call))
  case failure =>
    intro e call
    obtain ⟨c, o, ho, notified⟩ : ∃ c o, some e = Outcome.error? o ∧
        Machine.NotifiedBy past x.world.fanIns.size c o := by
      rcases h.notified_of_signal call with ⟨t, earlier, -, -, -, hfailure⟩ | notified
      · cases hfailure
      · exact notified
    cases o with
    | ok v => cases ho
    | error e' =>
        cases ho
        obtain ⟨s, t, n, earlier, rfl, notifies, relay, hs, hpeek⟩ := notified
        refine ⟨c, ?_, s, t, n, earlier, rfl, notifies, relay, hs, hpeek⟩
        apply attends.relays c s _ relay
        rw [registrations_cons, registrations_cons]
        exact List.mem_append_left _ (List.mem_append_left _ hs)
  case success =>
    intro fires
    have succeeded : ∀ c ∈ cells, m.world.hasSucceeded c = true := by
      cases attends.standing with
      | settled settled => exact (fires.not_counted ((settled.step sound).2 _ fires.1)).elim
      | stands stands =>
          rcases stands.step sound attends.there with ⟨-, counted⟩ | ⟨failure, fires', -, succeeded⟩
          · exact (fires.not_counted (counted _ fires.1)).elim
          · cases fires.1.symm.trans fires'.1
            exact succeeded rfl
    exact ⟨succeeded, h.notified_of_fires hx starts there fires succeeded⟩
  case settled =>
    intro rest sink
    cases attends.standing with
    | @settled failure y settled hy fires justified =>
        refine iff_of_true ⟨y, hy, failure, fires⟩ ?_
        cases failure with
        | none => exact .inr justified
        | some e =>
            obtain ⟨c, hc, hpeek⟩ := justified
            exact .inl ⟨c, hc, e, hpeek⟩
    | stands stands counted kept =>
        have awaits := stands.awaits attends.heeds (kept sink)
        obtain ⟨⟨c, hc, pending⟩, unfailed⟩ := awaits.of_atRest sound rest
        refine iff_of_false ?_ ?_
        · rintro ⟨y, hy, failure, fires⟩
          exact fires.not_counted (counted y hy failure fires.1).1
        · rintro (⟨d, hd, e, hpeek⟩ | succeeded)
          · exact unfailed d hd e hpeek
          · have hc := succeeded c hc
            rw [World.hasSucceeded, Cell.value?, Cell.peek_of_pending pending] at hc
            cases hc

/-- **Awaiting cells settles once**, with the right outcome. -/
theorem await_settles (h : History capacity m past) (hx : x ∈ past)
    (call : x.control = .call (.await cells k)) (there : ∀ c ∈ cells, c < x.world.cells.size) :
    AwaitSettles m past x cells k := by
  obtain ⟨earlier, hearlier, -⟩ := h.of_mem hx
  have starts (unfailed : ∀ c ∈ cells, (x.world.cell c).error? = none)
      (left : ∃ c ∈ cells, x.world.hasSucceeded c = false) : x.Starts cells k := by
    refine ⟨call, List.findSome?_eq_none_iff.mpr fun c hc => ?_, ?_⟩
    · exact unfailed c (List.mem_reverse.mp hc)
    · obtain ⟨c, hc, hleft⟩ := left
      exact List.all_eq_false.mpr ⟨c, hc, Bool.eq_false_iff.mp hleft⟩
  constructor
  case failed =>
    rintro l c r e rfl he unfailed
    have hfirst : x.world.firstFailure (l ++ c :: r).reverse = some e := by
      have hnone : r.reverse.findSome? (fun c => (x.world.cell c).error?) = none :=
        List.findSome?_eq_none_iff.mpr fun d hd => unfailed d (List.mem_reverse.mp hd)
      simp [World.firstFailure, List.findSome?_append, hnone, he]
    rw [Machine.step_call call]
    show Machine.ofMove (x.world.await _ k) _ = _
    rw [World.await, hfirst]
    rfl
  case succeeded =>
    intro succeeded
    have hfirst : x.world.firstFailure cells.reverse = none := by
      refine List.findSome?_eq_none_iff.mpr fun c hc => ?_
      have hc := succeeded c (List.mem_reverse.mp hc)
      unfold World.hasSucceeded Cell.value? at hc
      split at hc
      · next stored => rw [Cell.error?, stored]
      · cases hc
    rw [Machine.step_call call]
    show Machine.ofMove (x.world.await _ k) _ = _
    rw [World.await, hfirst]
    simp only [List.all_eq_true.mpr succeeded, if_true]
    rfl
  case setsUp =>
    intro unfailed left
    obtain ⟨n, w', registers, setUp, -⟩ := (starts unfailed left).sets_up hearlier.sound there
    exact ⟨n, w', registers, setUp⟩
  case concludes =>
    intro tag onSuccess onError scope failure call
    rw [Machine.step_call call]
    cases failure <;> rfl
  case settles =>
    intro unfailed left
    exact h.fanIn_settles hx (starts unfailed left) there

end History

/-- A run in which two cells are awaited, the first of them twice. The second fails, which settles the fan-in. The
first succeeds later, and both its signals are still counted. -/
theorem await_settles_of_late_success : ∃ m past x k, History 8 m past ∧ x ∈ past ∧
    x.control = .call (.await [0, 1, 0] k) ∧ (∀ c ∈ [0, 1, 0], c < x.world.cells.size) ∧
    m.atRest = true ∧ ((m.world.cell 1).error?).isSome = true ∧ m.world.hasSucceeded 0 = true ∧
    (m.world.fanIn 0).failed = true ∧ (m.world.fanIn 0).remaining = 1 ∧
    AwaitSettles m past x [0, 1, 0] k := by
  have empty : History 8 _ _ := .start
  have first := (empty.enter rfl {} [] (.operate (.cell (.create "c")))).step rfl
  have second := (first.enter rfl {} [] (.operate (.cell (.create "d")))).step rfl
  have awaiting := (second.enter rfl {} []
    (.operate (.cell (.await [.cell "c", .cell "d", .cell "c"] "joined" [] [])))).step rfl
  have waiting := (awaiting.step rfl).steps 12 (by decide +kernel)
  have failed := (waiting.enter (by decide +kernel) {} []
    (.operate (.cell (.complete "d" (.error (.given .contextFinished)))))).steps 12 (by decide +kernel)
  have succeeded := (failed.enter (by decide +kernel) {} []
    (.operate (.cell (.complete "c" (.ok (.constant 7)))))).steps 16 (by decide +kernel)
  obtain ⟨m, past, x, k, ran, hx, call, there, facts⟩ : ∃ m past x k, History 8 m past ∧ x ∈ past ∧
      x.control = .call (.await [0, 1, 0] k) ∧ (∀ c ∈ [0, 1, 0], c < x.world.cells.size) ∧
      m.atRest = true ∧ ((m.world.cell 1).error?).isSome = true ∧ m.world.hasSucceeded 0 = true ∧
      (m.world.fanIn 0).failed = true ∧ (m.world.fanIn 0).remaining = 1 := by
    refine ⟨_, _, _, _, succeeded, List.mem_append_right _ (List.mem_cons_of_mem _
      (List.mem_append_right _ (List.mem_cons_of_mem _ (List.mem_append_right _ List.mem_cons_self)))),
      rfl, ?there, ?rest, ?error, ?value, ?mark, ?count⟩
    all_goals decide +kernel
  obtain ⟨rest, error, value, mark, count⟩ := facts
  exact ⟨m, past, x, k, ran, hx, call, there, rest, error, value, mark, count,
    ran.await_settles hx call there⟩

end RequestGraph
