import RequestGraph.Proofs.Delivery.Links

/-!
# Latches

Threads that wait for a pending cell stand before its latch. Whoever waits first makes the latch and registers
it with the cell, as a listener among the others; whoever comes later finds it there. So a latch is registered
once at most, and it opens when it is told about the completion:

    absent  →  shut and about to be registered  →  shut and registered  →  opened, with the cell realized
-/

namespace RequestGraph

/-- Whether a listener is the latch of a cell. -/
def Listener.isLatch : Listener → Bool
  | .latch _ => true
  | _ => false

/-- The latches that were registered with a cell, first registered first. -/
def latches (c : CellId) (past : List Machine) : List Subscription :=
  (registrations c past).filter (·.listener.isLatch)

/-- A latch is about to be registered with a cell. -/
def Control.Latching (e : Control) (c : CellId) : Prop := ∃ d, e = .call (.subscribe c (.latch d))

theorem Control.not_latching_of_not_isCall {e : Control} (h : e.isCall = false) (c : CellId) :
    ¬e.Latching c := by
  rintro ⟨d, rfl⟩
  cases h

theorem Call.not_latching_of_isEntry {call : Call} (h : call.isEntry = true) (c : CellId) :
    ¬(Control.call call).Latching c := by
  rintro ⟨d, heq⟩
  cases heq
  cases h

/-! ## What a step does to latches

A latch is made by the first wait, is registered as a listener like any other, and is opened when it is
told. No other step touches it.
-/

namespace World

/-- From one world to another, where something is done next: all latches are as they were, and none is about to
be registered. -/
structure SparesLatches (w w' : World) (e : Control) : Prop where
  same : ∀ c, (w'.cell c).latch = (w.cell c).latch
  quiet : ∀ c, ¬e.Latching c

/-- The latch of a pending cell has been made, and is about to be registered. -/
structure MakesLatch (w w' : World) (e : Control) (c : CellId) : Prop where
  absent : (w.cell c).latch = .absent
  pending : (w.cell c).isRealized = false
  cells : w'.cells = w.cells.set c { w.cell c with latch := .shut }
  registers : e = .call (.subscribe c (.latch c))

variable {w w' : World} {e : Control}

theorem SparesLatches.of_cells (cells : w'.cells = w.cells) (quiet : ∀ c, ¬e.Latching c) :
    w.SparesLatches w' e :=
  ⟨fun c => by rw [cell, cells, cell], quiet⟩

theorem SparesLatches.of_push {cell : Cell Subscription} (new : cell.IsNew w.freshToken)
    (cells : w'.cells = w.cells.push cell) (quiet : ∀ c, ¬e.Latching c) : w.SparesLatches w' e := by
  refine ⟨fun c => ?_, quiet⟩
  rw [World.cell, cells, Arena.get_push]
  split
  · next fresh =>
    rw [cell_of_size_le (Nat.le_of_eq fresh.symm)]
    cases new <;> rfl
  · rfl

theorem SparesLatches.of_set {c : CellId} {cell : Cell Subscription}
    (cells : w'.cells = w.cells.set c cell) (latch : cell.latch = (w.cell c).latch)
    (quiet : ∀ c, ¬e.Latching c) : w.SparesLatches w' e := by
  refine ⟨fun d => ?_, quiet⟩
  rw [World.cell, cells, Arena.get_set]
  split
  · next here => rw [latch, here.1]
  · rfl

theorem latches_operate {scope : Scope} {op : Op} {mv : Move} (h : Operated w scope op mv) :
    w.SparesLatches mv.world mv.control ∨ ∃ c, w.MakesLatch mv.world mv.control c := by
  have quiet {r : Result} (c : CellId) : ¬(Control.ret r).Latching c := nofun
  cases h with
  | answered core ends | interned core ends | froze _ ends core =>
    exact .inl (.of_cells (congrArg Core.cells core) (Control.not_latching_of_not_isCall ends))
  | entered core entry =>
    exact .inl (.of_cells (congrArg Core.cells core) (Call.not_latching_of_isEntry entry))
  | presented core _ presents =>
    refine .inl (.of_cells (congrArg Core.cells core) ?_)
    rintro c ⟨d, heq⟩
    cases heq
    cases presents
  | allocated new core => exact .inl (.of_push new (congrArg Core.cells core) quiet)
  | claimed _ _ core | labelled core => exact .inl (.of_set (congrArg Core.cells core) rfl quiet)
  | latched absent core _ pending => exact .inr ⟨_, absent, pending, congrArg Core.cells core, rfl⟩
  | resolved core | opened _ _ core => exact .inl (.of_cells (congrArg Core.cells core) quiet)
  | fetching core => exact .inl (.of_cells (congrArg Core.cells core) nofun)

/-- Of the calls, an operation may make a latch, and telling a latch opens it. -/
theorem latches_invoke (sound : w.Sound) (c : Call) :
    w.SparesLatches (w.invoke c).world (w.invoke c).control ∨
      (∃ d, w.MakesLatch (w.invoke c).world (w.invoke c).control d) ∨
      ∃ d o, c = .tell (.latch d) o := by
  have hspec := invoke_spec sound c
  generalize w.invoke c = mv at hspec
  cases hspec with
  | operated hop => exact (latches_operate hop).imp_right .inl
  | unlatched => exact .inr (.inr ⟨_, _, rfl⟩)
  | returned _ core | heard core | sunk _ core | joined core | performed core | performedQueued core
  | jobStarted core | drained core | worked core =>
    exact .inl (.of_cells (congrArg Core.cells core) nofun)
  | nodeStarted _ _ core => exact .inl (.of_set (congrArg Core.cells core) rfl nofun)
  | fetchedNew _ _ _ starts core =>
    refine .inl (.of_push .blank (congrArg Core.cells core) ?_)
    rintro c ⟨d, heq⟩
    cases heq
    cases starts
  | transformed | gathered | fetchedLate => exact .inl (.of_push .blank rfl nofun)
  | completed | registered | linked => exact .inl (.of_set rfl rfl nofun)
  | _ => exact .inl (.of_cells rfl nofun)

theorem spares_resume (frame : Frame) (r : Result) :
    w.SparesLatches (w.resume frame r).world (w.resume frame r).control := by
  refine .of_cells (congrArg Core.cells (core_resume w frame r)) ?_
  have hspec := w.resume_spec frame r
  generalize w.resume frame r = mv at hspec
  cases hspec <;> exact nofun

theorem spares_unwind (frame : Frame) (p : Panic) :
    w.SparesLatches (w.unwind frame p).world (w.unwind frame p).control := by
  refine .of_cells (congrArg Core.cells (core_unwind w frame p)) ?_
  have hspec := w.unwind_spec frame p
  generalize w.unwind frame p = mv at hspec
  cases hspec <;> exact nofun

end World

namespace Machine

variable {m : Machine} {c : CellId} {o : Outcome}

/-- What one step may do to the latch of a cell. -/
inductive LatchStep (m : Machine) (c : CellId) : Prop
  | kept (same : (m.step.world.cell c).latch = (m.world.cell c).latch) (quiet : ¬m.step.control.Latching c)
  | made (absent : (m.world.cell c).latch = .absent) (pending : (m.world.cell c).isRealized = false)
      (cells : m.step.world.cells = m.world.cells.set c { m.world.cell c with latch := .shut })
      (registers : m.step.control = .call (.subscribe c (.latch c)))
  | opened {o : Outcome} (call : m.control = .call (.tell (.latch c) o)) (there : c < m.world.cells.size)
      (opened : (m.step.world.cell c).latch = .opened) (quiet : ¬m.step.control.Latching c)

theorem latchStep_of_spares (h : m.world.SparesLatches m.step.world m.step.control) (c : CellId) :
    m.LatchStep c := .kept (h.same c) (h.quiet c)

theorem latchStep_of_makes {d : CellId} (h : m.world.MakesLatch m.step.world m.step.control d)
    (c : CellId) : m.LatchStep c := by
  by_cases hd : d = c
  · subst hd
    exact .made h.absent h.pending h.cells h.registers
  · refine .kept ?_ ?_
    · rw [World.cell, h.cells, Arena.get_set_of_ne hd]
      rfl
    · rintro ⟨e, heq⟩
      cases h.registers.symm.trans heq
      exact hd rfl

theorem step_tell_latch (call : m.control = .call (.tell (.latch c) o)) : m.step =
    ⟨m.world.setCell c { m.world.cell c with latch := .opened }, .ret .unit, m.stack⟩ := step_call call

theorem latchStep_of_tell {d : CellId} (call : m.control = .call (.tell (.latch d) o)) (c : CellId) :
    m.LatchStep c := by
  have hstep := step_tell_latch call
  have quiet : ¬m.step.control.Latching c := by
    rw [hstep]
    exact nofun
  have latch : (m.step.world.cell c).latch =
      if d = c ∧ d < m.world.cells.size then .opened else (m.world.cell c).latch := by
    rw [hstep, World.cell_setCell]
    split <;> rfl
  split at latch
  · next here =>
    obtain ⟨rfl, there⟩ := here
    exact .opened call there latch quiet
  · exact .kept latch quiet

/-- What one step does to the latch of a cell. -/
theorem step_latch (sound : m.world.Sound) (c : CellId) : m.LatchStep c := by
  obtain ⟨w, control, stack⟩ := m
  cases control with
  | call call =>
    obtain spares | ⟨d, makes⟩ | ⟨d, o, rfl⟩ := World.latches_invoke sound call
    · exact latchStep_of_spares spares c
    · exact latchStep_of_makes makes c
    · exact latchStep_of_tell rfl c
  | ret r => cases stack with
    | nil => exact .kept rfl nofun
    | cons frame stack => exact latchStep_of_spares (World.spares_resume frame r) c
  | raise p => cases stack with
    | nil => exact .kept rfl nofun
    | cons frame stack => exact latchStep_of_spares (World.spares_unwind frame p) c

theorem opened_step (sound : m.world.Sound) (h : (m.world.cell c).latch = .opened) :
    (m.step.world.cell c).latch = .opened := by
  cases step_latch sound c with
  | kept same => rw [same, h]
  | made absent => exact nomatch h.symm.trans absent
  | opened _ _ opened => exact opened

/-- A latch that was made stays. -/
theorem latch_ne_absent_step (sound : m.world.Sound) (h : (m.world.cell c).latch ≠ .absent) :
    (m.step.world.cell c).latch ≠ .absent := by
  cases step_latch sound c with
  | kept same => rwa [same]
  | made absent => exact absurd absent h
  | opened _ _ opened =>
    rw [opened]
    exact nofun

/-! ## Registering latches

Between making a latch and registering it the machine is at the call that does so. Everywhere else a latch
that was made is among the registrations of its cell, once.
-/

theorem latches_of_quiet (past : List Machine) (quiet : ¬m.control.Latching c) :
    latches c (m :: past) = latches c past := by
  have none : (m.registers c).filter (·.listener.isLatch) = [] := by
    refine List.filter_eq_nil_iff.mpr fun s hs latch => ?_
    have call := (Machine.mem_registers.mp hs).1
    cases listener : s.listener with
    | latch e => exact quiet ⟨e, listener ▸ call⟩
    | _ =>
      rw [listener] at latch
      cases latch
  rw [latches, registrations_cons, List.filter_append, none, List.append_nil, latches]

theorem latches_of_registering (past : List Machine)
    (call : m.control = .call (.subscribe c (.latch c))) (there : c < m.world.cells.size) :
    latches c (m :: past) = latches c past ++ [⟨m.world.freshTicket, .latch c⟩] := by
  have registers : m.registers c = [⟨m.world.freshTicket, .latch c⟩] := by
    simp [Machine.registers, call, there]
  rw [latches, registrations_cons, registers, List.filter_append, latches]
  rfl

end Machine

/-- How far the latch of a cell has come. -/
inductive LatchStands (c : CellId) (m : Machine) (past : List Machine) : Prop
  /-- Nobody has waited. -/
  | absent (latch : (m.world.cell c).latch = .absent) (none : latches c past = [])
      (quiet : ¬m.control.Latching c)
  /-- Somebody has just come to wait, and the latch is registered next. -/
  | registering (latch : (m.world.cell c).latch = .shut) (none : latches c past = [])
      (call : m.control = .call (.subscribe c (.latch c)))
  /-- The latch has been registered, and has not been told about the completion. -/
  | shut {t : ℕ} (latch : (m.world.cell c).latch = .shut) (one : latches c past = [⟨t, .latch c⟩])
      (quiet : ¬m.control.Latching c)
  /-- The latch has been told. -/
  | opened {t : ℕ} (latch : (m.world.cell c).latch = .opened) (one : latches c past = [⟨t, .latch c⟩])
      (quiet : ¬m.control.Latching c) (realized : (m.world.cell c).isRealized = true)

namespace LatchStands

variable {c d : CellId} {m : Machine} {past : List Machine}

/-- At most one latch was registered with a cell, and that is its own. -/
theorem latches_eq (h : LatchStands c m past) :
    latches c past = [] ∨ ∃ t, latches c past = [⟨t, .latch c⟩] := by
  cases h with
  | absent _ none | registering _ none => exact .inl none
  | shut _ one | opened _ one => exact .inr ⟨_, one⟩

theorem eq_of_mem (h : LatchStands c m past) {s : Subscription} (hs : s ∈ latches c past)
    (latch : s.listener = .latch d) : d = c := by
  obtain none | ⟨t, one⟩ := h.latches_eq
  · rw [none] at hs
    cases hs
  · rw [one] at hs
    obtain rfl := List.mem_singleton.mp hs
    cases latch
    rfl

end LatchStands

namespace History

variable {capacity : ℕ} {m x : Machine} {past : List Machine} {c : CellId} {o : Outcome}

/-- Whoever is told something was registered with a cell, and is told what that cell holds. -/
theorem stored_of_tell (h : History capacity m past) {l : Listener} (call : m.control = .call (.tell l o)) :
    ∃ (s : Subscription) (c : CellId), s.listener = l ∧ s ∈ registrations c past ∧
      (m.world.cell c).peek = some o := by
  cases h with
  | start => cases call
  | @step m past before busy =>
    obtain ⟨s, notifies, listener⟩ := Machine.tell_of_step before.sound call
    have flying : (s, o) ∈ m.inFlight := by
      rw [Machine.inFlight, notifies]
      exact List.mem_append_left _ List.mem_cons_self
    obtain ⟨c, registered, stored⟩ := before.stored_of_inFlight flying
    refine ⟨s, c, listener, ?_, (Machine.step_cell before.sound c).peek stored⟩
    rw [registrations_cons]
    exact List.mem_append_left _ registered
  | enter _ _ _ _ outside =>
    cases call
    cases outside

/-- A latch that is told has been registered, and its cell is realized. -/
theorem latched_of_tell (h : History capacity m past) (stands : ∀ d, LatchStands d m past)
    (call : m.control = .call (.tell (.latch c) o)) :
    latches c past ≠ [] ∧ (m.world.cell c).peek = some o := by
  obtain ⟨s, d, listener, registered, stored⟩ := h.stored_of_tell call
  have latch : s ∈ latches d past := List.mem_filter.mpr ⟨registered, by rw [listener]; rfl⟩
  obtain rfl := (stands d).eq_of_mem latch listener
  exact ⟨List.ne_nil_of_mem latch, stored⟩

theorem registering_there (h : History capacity m past) {l : Listener}
    (call : m.control = .call (.subscribe c l)) : c < m.world.cells.size :=
  (h.grounded.call call).1

theorem latchStands_step (h : History capacity m past) (busy : m.atRest = false)
    (stands : ∀ d, LatchStands d m past) (c : CellId) : LatchStands c m.step (m :: past) := by
  cases Machine.step_latch h.sound c with
  | kept same quiet => cases stands c with
    | absent latch none silent =>
      exact .absent (same.trans latch) ((Machine.latches_of_quiet past silent).trans none) quiet
    | registering latch none call =>
      have one := Machine.latches_of_registering past call (h.registering_there call)
      rw [none] at one
      exact .shut (same.trans latch) one quiet
    | shut latch one silent =>
      exact .shut (same.trans latch) ((Machine.latches_of_quiet past silent).trans one) quiet
    | opened latch one silent realized =>
      exact .opened (same.trans latch) ((Machine.latches_of_quiet past silent).trans one) quiet
        (Machine.isRealized_step h.sound realized)
  | made absent _ cells registers => cases stands c with
    | absent _ none silent =>
      refine .registering ?_ ((Machine.latches_of_quiet past silent).trans none) registers
      have there := (h.step busy).registering_there registers
      rw [cells, Arena.size_set] at there
      rw [World.cell, cells, Arena.get_set_self there]
    | registering latch | shut latch | opened latch => cases absent.symm.trans latch
  | opened call _ opened quiet =>
    -- Whoever is told was registered somewhere, and a latch is registered with its own cell only.
    obtain ⟨some, stored⟩ := h.latched_of_tell stands call
    have realized := Machine.isRealized_step h.sound (Cell.isRealized_of_peek stored)
    cases stands c with
    | absent _ none | registering _ none => exact absurd none some
    | shut _ one silent | opened _ one silent =>
      exact .opened opened ((Machine.latches_of_quiet past silent).trans one) quiet realized

/-- The latch of a cell goes one way only, and is registered once. -/
theorem latchStands (h : History capacity m past) (c : CellId) : LatchStands c m past := by
  induction h generalizing c with
  | start => exact .absent (by rw [World.cell_of_size_le (Nat.zero_le c)]; rfl) rfl nofun
  | step before busy ih => exact before.latchStands_step busy ih c
  | @enter m past _ rest thread log call outside ih =>
    have quiet : ¬m.control.Latching c :=
      Control.not_latching_of_not_isCall (Machine.atRest_iff.mp rest).1 c
    have quiet' : ¬(Control.call call).Latching c := by
      rintro ⟨d, heq⟩
      cases heq
      cases outside
    have same := Machine.latches_of_quiet past quiet
    cases ih c with
    | absent latch none => exact .absent latch (same.trans none) quiet'
    | registering _ _ call => exact absurd ⟨c, call⟩ quiet
    | shut latch one => exact .shut latch (same.trans one) quiet'
    | opened latch one _ realized => exact .opened latch (same.trans one) quiet' realized

end History

/-! ## Opening latches

A completion delivers to all listeners, and the latch is one of them. If the sink returns, the delivery
reaches it, whatever the listeners before it do.
-/

/-- A cell is realized, and does not hold back those who wait for it. -/
def World.Admits (w : World) (c : CellId) : Prop :=
  (w.cell c).isRealized = true ∧ (w.cell c).latch ≠ .shut

/-- From one world to another a cell has come to hold an outcome and to let pass those who wait for it, with its
latch open if that was shut. -/
structure World.Wakes (w w' : World) (c : CellId) (o : Outcome) : Prop where
  stored : (w'.cell c).peek = some o
  admits : w'.Admits c
  opened : (w.cell c).latch = .shut → (w'.cell c).latch = .opened

theorem Machine.admits_step {m : Machine} {c : CellId} (sound : m.world.Sound) (h : m.world.Admits c) :
    m.step.world.Admits c := by
  refine ⟨isRealized_step sound h.1, ?_⟩
  cases step_latch sound c with
  | kept same =>
    rw [same]
    exact h.2
  | made _ pending => exact nomatch pending.symm.trans h.1
  | opened _ _ opened =>
    rw [opened]
    exact nofun

section Deliveries

variable {w w' : World} {ls : List Subscription} {revokee : Option CellId} {c : CellId} {o : Outcome} {t : ℕ}

/-- Whatever every step keeps is kept while listeners are told. -/
theorem Told.kept {P : World → Prop} (h : Told o w ls w') (sound : w.Sound) (tables : w.TablesSound)
    (hP : P w)
    (step : ∀ {x : Machine}, x.world.Sound → x.world.TablesSound → P x.world → P x.step.world) : P w' := by
  induction h with
  | nil => exact hP
  | cons tells _ ih =>
    obtain ⟨sound', tables'⟩ := tells.sound sound tables
    exact ih sound' tables' (tells.kept sound tables hP step)

theorem performs_notify_latch {e : Control} (h : w.Performs (.notify ⟨t, .latch c⟩ o) w' e) :
    w' = w.setCell c { w.cell c with latch := .opened } := by
  have opens : w.invoke (.tell (.latch c) o) =
      ⟨w.setCell c { w.cell c with latch := .opened }, .ret .unit, []⟩ := rfl
  obtain ⟨r, tells, -⟩ | ⟨w₁, p, tells, -⟩ := performs_notify.mp h
  · exact ((World.performs_end opens rfl).mp tells).1
  · exact nomatch ((World.performs_end opens rfl).mp tells).2

/-- Of some listeners that are told one after another, the latch of a cell is opened. -/
theorem Told.opened (h : Told o w ls w') (sound : w.Sound) (tables : w.TablesSound)
    (there : c < w.cells.size) (hs : ⟨t, .latch c⟩ ∈ ls) : (w'.cell c).latch = .opened := by
  induction h with
  | nil => cases hs
  | cons tells others ih =>
    obtain ⟨sound', tables'⟩ := tells.sound sound tables
    rcases List.mem_cons.mp hs with rfl | hs
    · refine others.kept (P := fun w => (w.cell c).latch = .opened) sound' tables' ?_
        fun sound _ opened => Machine.opened_step sound opened
      rw [performs_notify_latch tells, World.cell_setCell_self there]
    · refine ih sound' tables' ?_ hs
      exact tells.kept (P := fun w => c < w.cells.size) sound tables there
        fun sound _ there => there.trans_le (Machine.size_step sound)

/-- A delivery that tells the latch of a cell has opened it in the end, as long as the sink returns. -/
theorem opened_of_deliver (sound : w.Sound) (tables : w.TablesSound) (there : c < w.cells.size)
    (hs : ⟨t, .latch c⟩ ∈ ls) {n : ℕ}
    (sink : ∀ k < n, ((⟨w, .call (.deliver ls revokee o), []⟩ : Machine).iterate k).SinkReturns)
    (rest : ((⟨w, .call (.deliver ls revokee o), []⟩ : Machine).iterate n).atRest = true) :
    (((⟨w, .call (.deliver ls revokee o), []⟩ : Machine).iterate n).world.cell c).latch = .opened := by
  obtain ⟨w₁, w', told, hn, unlinked, linked⟩ := everyone_told sound sink rest
  have opened := told.opened sound tables there hs
  rw [hn]
  cases revokee with
  | none =>
    rw [unlinked rfl]
    exact opened
  | some d =>
    obtain ⟨r, revokes⟩ := linked d rfl
    obtain ⟨sound', tables'⟩ := told.kept (P := fun w => w.Sound ∧ w.TablesSound) sound tables
      ⟨sound, tables⟩ fun sound tables _ => ⟨Machine.step_sound sound, Machine.step_tablesSound sound tables⟩
    exact revokes.kept (P := fun w => (w.cell c).latch = .opened) sound' tables' opened
      fun sound _ opened => Machine.opened_step sound opened

/-- A delivery for a cell that tells its latch, if that is shut, lets those pass in the end who wait for the
cell, as long as the sink returns. -/
theorem wakes_of_deliver (sound : w.Sound) (tables : w.TablesSound) (stored : (w.cell c).peek = some o)
    (latched : (w.cell c).latch = .shut → ∃ t, ⟨t, .latch c⟩ ∈ ls) {n : ℕ}
    (sink : ∀ k < n, ((⟨w, .call (.deliver ls revokee o), []⟩ : Machine).iterate k).SinkReturns)
    (rest : ((⟨w, .call (.deliver ls revokee o), []⟩ : Machine).iterate n).atRest = true) :
    w.Wakes ((⟨w, .call (.deliver ls revokee o), []⟩ : Machine).iterate n).world c o := by
  have there : c < w.cells.size := by
    by_contra outside
    rw [World.cell_of_size_le (Nat.le_of_not_lt outside)] at stored
    cases stored
  have opened (shut : (w.cell c).latch = .shut) :
      (((⟨w, .call (.deliver ls revokee o), []⟩ : Machine).iterate n).world.cell c).latch = .opened := by
    obtain ⟨t, hs⟩ := latched shut
    exact opened_of_deliver sound tables there hs sink rest
  have stays := Machine.iterate_kept (P := fun w => (w.cell c).peek = some o)
    (m := ⟨w, .call (.deliver ls revokee o), []⟩) sound tables stored
    (fun sound _ ho => (Machine.step_cell sound c).peek ho) n
  refine ⟨stays, ?_, opened⟩
  -- If the latch is not shut there may be none at all, and for a realized cell none is made any more.
  by_cases shut : (w.cell c).latch = .shut
  · refine ⟨Cell.isRealized_of_peek stays, ?_⟩
    rw [opened shut]
    exact nofun
  · exact Machine.iterate_kept (P := (World.Admits · c)) sound tables
      ⟨Cell.isRealized_of_peek stored, shut⟩ (fun sound _ admits => Machine.admits_step sound admits) n

/-- So does a completion that is accepted. -/
theorem wakes_of_complete {a : Authority} (sound : w.Sound) (tables : w.TablesSound)
    (there : c < w.cells.size) (accepted : w.refusal? c a = none)
    (latched : (w.cell c).latch = .shut → ∃ t, ⟨t, .latch c⟩ ∈ (w.cell c).listeners.toList) {n : ℕ}
    (sink : ∀ k < n, ((⟨w, .call (.complete c o a), []⟩ : Machine).iterate k).SinkReturns)
    (rest : ((⟨w, .call (.complete c o a), []⟩ : Machine).iterate n).atRest = true) :
    w.Wakes ((⟨w, .call (.complete c o a), []⟩ : Machine).iterate n).world c o := by
  cases n with
  | zero => cases rest
  | succ n =>
    have hstep : (⟨w, .call (.complete c o a), []⟩ : Machine).step =
        ⟨w.setCell c ((w.cell c).completed o),
          .call (.deliver (w.cell c).listeners.toList (w.cell c).revokee o), []⟩ :=
      congrArg (Machine.ofMove · []) (World.complete_of_accepted sound accepted)
    have completed : (w.setCell c ((w.cell c).completed o)).cell c = (w.cell c).completed o := by
      rw [World.cell_setCell_self there]
    have latch : ((w.setCell c ((w.cell c).completed o)).cell c).latch = (w.cell c).latch := by
      rw [completed]
      rfl
    have sink' (k : ℕ) (hk : k < n) := sink (k + 1) (Nat.succ_lt_succ hk)
    simp only [Machine.iterate, hstep] at sink' rest ⊢
    have delivered := wakes_of_deliver (sound.setCell c (Cell.sound_completed _ _))
      ⟨tables.keys, tables.contexts⟩ (by rw [completed, Cell.peek_completed])
      (fun shut => latched (latch.symm.trans shut)) sink' rest
    exact ⟨delivered.stored, delivered.admits, fun shut => delivered.opened (latch.trans shut)⟩

end Deliveries

namespace History

variable {capacity : ℕ} {m x : Machine} {past : List Machine} {c : CellId} {o : Outcome}

/-- While the latch of a pending cell is shut and not about to be registered, it is among the listeners. -/
theorem latch_mem_listeners (h : History capacity m past) (pending : (m.world.cell c).isRealized = false)
    (quiet : ¬m.control.Latching c) (shut : (m.world.cell c).latch = .shut) :
    ∃ t, ⟨t, .latch c⟩ ∈ (m.world.cell c).listeners.toList := by
  rw [h.listeners_eq pending]
  cases h.latchStands c with
  | absent latch | opened latch => exact nomatch shut.symm.trans latch
  | registering _ _ call => exact absurd ⟨c, call⟩ quiet
  | shut _ one =>
    have hs : _ ∈ latches c past := one ▸ List.mem_singleton_self _
    exact ⟨_, List.mem_of_mem_filter hs⟩

/-- A completion that is accepted lets those pass who wait for the cell, as long as the sink returns. -/
theorem wakes_of_accepted (h : History capacity m past) {a : Authority}
    (call : m.control = .call (.complete c o a)) (accepted : m.world.refusal? c a = none) {n : ℕ}
    (sink : ∀ k < n, ((⟨m.world, m.control, []⟩ : Machine).iterate k).SinkReturns)
    (rest : ((⟨m.world, m.control, []⟩ : Machine).iterate n).atRest = true) :
    m.world.Wakes ((⟨m.world, m.control, []⟩ : Machine).iterate n).world c o := by
  have there := h.grounded.call call
  have latched := h.latch_mem_listeners (Machine.pending_of_refusal? accepted) (by rw [call]; exact nofun)
  rw [call] at sink rest ⊢
  exact wakes_of_complete h.sound h.tablesSound there accepted latched sink rest

/-- Only a realized cell has its latch open. -/
theorem realized_of_opened (h : History capacity m past) (opened : (m.world.cell c).latch = .opened) :
    (m.world.cell c).isRealized = true := by
  cases h.latchStands c with
  | opened _ _ _ realized => exact realized
  | absent latch | registering latch | shut latch => exact nomatch opened.symm.trans latch

/-- A latch that is open stays so. -/
theorem opened_later (h : History capacity m past) (hx : x ∈ m :: past)
    (opened : (x.world.cell c).latch = .opened) : (m.world.cell c).latch = .opened := by
  rcases List.mem_cons.mp hx with rfl | hx
  · exact opened
  · exact h.kept (P := fun w => (w.cell c).latch = .opened) hx opened
      (fun sound _ opened => Machine.opened_step sound opened) fun _ _ opened => opened

theorem admits_later (h : History capacity m past) (hx : x ∈ m :: past) (admits : x.world.Admits c) :
    m.world.Admits c := by
  rcases List.mem_cons.mp hx with rfl | hx
  · exact admits
  · exact h.kept (P := (World.Admits · c)) hx admits
      (fun sound _ admits => Machine.admits_step sound admits) fun _ _ admits => admits

/-- With nothing left to be done, whoever waits for a realized cell may pass, unless the latch was left
without being told. -/
theorem admits_of_atRest (h : History capacity m past) (rest : m.atRest = true)
    (kept : ∀ x ∈ past, ∀ s ∈ latches c past, s ∉ x.lost) (realized : (m.world.cell c).isRealized = true) :
    m.world.Admits c := by
  refine ⟨realized, fun shut => ?_⟩
  cases h.latchStands c with
  | absent latch | opened latch => exact nomatch shut.symm.trans latch
  | registering _ _ call => cases rest.symm.trans (Machine.busy_of_call call)
  | @shut t _ one =>
    -- It was registered, so it has been told, and is open since.
    have hs : ⟨t, .latch c⟩ ∈ latches c past := one ▸ List.mem_singleton_self _
    obtain ⟨o, ho⟩ := World.peek_of_isRealized h.sound realized
    obtain ⟨w', stack', notified⟩ :=
      h.notified rest (List.mem_of_mem_filter hs) (fun x hx => kept x hx _ hs) ho
    have told := h.sequel rest (List.mem_cons_of_mem m notified) rfl
    have there : c < w'.cells.size := (h.grounded_of_mem told).control
    have opened : ((w'.setCell c { w'.cell c with latch := .opened }).cell c).latch = .opened := by
      rw [World.cell_setCell_self there]
    exact nomatch shut.symm.trans (h.opened_later (h.sequel rest told rfl) opened)

end History

end RequestGraph
