import RequestGraph.Proofs.Engine.Calm
import RequestGraph.Proofs.Engine.Ending
import RequestGraph.Proofs.FanIn.Signals

/-!
# How a fan-in settles

A fan-in stands until it settles, and settles only once. While it stands, no more signals are due to it than it
counts; they are fewer if a panic has come through to a delivery, and signals have been lost. As long as none
is lost, each of its cells is still to be watched, or has succeeded, or has a listener for it, or else an
error is on the way to it. So the signal that settles it without a failure finds that all cells have succeeded.
-/

namespace RequestGraph

namespace Machine

variable {m : Machine} {f : FanInId} {c : CellId} {e : Error} {cells : List CellId}
  {k : Continuation} {failure : Option Error}

/-! ## What one step does to a fan-in

A step touches one fan-in at most: it makes it, adds to its count, signals it, or takes its continuation.
All others stay as they are.
-/

/-- What one step may do to the fan-ins. -/
inductive FanInChange (m : Machine) : Arena (FanIn Continuation) → Prop
  | kept (idle : ∀ f, m.added f = 0) : FanInChange m m.world.fanIns
  | started {cells : List CellId} {k : Continuation} (starts : m.Starts cells k) :
      FanInChange m (m.world.fanIns.push (.start k))
  | awaited {f : FanInId} {c : CellId} {rest : List CellId}
      (call : m.control = .call (.watch f (c :: rest))) (left : m.world.hasSucceeded c = false) :
      FanInChange m (m.world.fanIns.set f (m.world.fanIn f).await)
  | counted {f : FanInId} (call : m.control = .call (.signal f none)) :
      FanInChange m (m.world.fanIns.set f
        { m.world.fanIn f with remaining := (m.world.fanIn f).remaining - 1 })
  | fired {f : FanInId} {failure : Option Error} (call : m.control = .call (.signal f failure))
      (calm : (m.world.fanIn f).failed = false)
      (last : failure = none → (m.world.fanIn f).remaining = 1) :
      FanInChange m (m.world.fanIns.set f ((m.world.fanIn f).firedBy failure))

theorem FanInChange.of_core {w : World} {core : Core} (hcore : w.core = core)
    (hfanIns : core.fanIns = m.world.fanIns) (idle : ∀ f, m.added f = 0) :
    m.FanInChange w.fanIns := by
  have hw : w.fanIns = core.fanIns := congrArg Core.fanIns hcore
  rw [hw, hfanIns]
  exact .kept idle

theorem fanIns_operate {scope : Scope} {op : Op} {mv : Move} (h : Operated m.world scope op mv)
    (idle : ∀ f, m.added f = 0) : m.FanInChange mv.world.fanIns := by
  cases h with
  | answered core => exact .of_core core rfl idle
  | entered core => exact .of_core core rfl idle
  | presented core => exact .of_core core rfl idle
  | allocated _ core => exact .of_core core rfl idle
  | claimed _ _ core => exact .of_core core rfl idle
  | labelled core => exact .of_core core rfl idle
  | latched _ core => exact .of_core core rfl idle
  | interned core => exact .of_core core rfl idle
  | resolved core => exact .of_core core rfl idle
  | fetching core => exact .of_core core rfl idle
  | opened _ _ core => exact .of_core core rfl idle
  | froze _ _ core => exact .of_core core rfl idle

theorem fanIns_invoke {w : World} (h : w.Sound) (call : Call) (stack : List Frame) :
    FanInChange ⟨w, .call call, stack⟩ (w.invoke call).world.fanIns := by
  have hspec := World.invoke_spec h call
  generalize w.invoke call = mv at hspec
  cases hspec with
  | operated hop => exact fanIns_operate hop fun _ => rfl
  | awaitFailed failed => exact .kept fun f => by simp [added, failed]
  | awaitDone done => exact .kept fun f => by simp [added, done]
  | awaiting none left => exact .started ⟨rfl, none, left⟩
  | watchSkipped succeeded => exact .kept fun f => by simp [added, succeeded]
  | watchStopped left => exact .awaited rfl left
  | watching left => exact .awaited rfl left
  | counted => exact .counted rfl
  | fired calm last => exact .fired rfl calm last
  | firedTwice calm last => exact .fired rfl calm last
  | returned may core => cases call <;> first | exact .of_core core rfl fun _ => rfl | cases may
  | nodeStarted _ _ core | fetchedNew _ _ _ _ core | heard core | sunk _ core | joined core
  | performed core | performedQueued core | jobStarted core | drained core | worked core =>
      exact .of_core core rfl fun _ => rfl
  | _ => exact .kept fun _ => rfl

/-- What one step does to the fan-ins. -/
theorem step_fanIns (h : m.world.Sound) : m.FanInChange m.step.world.fanIns := by
  obtain ⟨w, control, stack⟩ := m
  cases control with
  | call c => exact fanIns_invoke h c stack
  | ret r => cases stack with
    | nil => exact .kept fun _ => rfl
    | cons frame stack => exact .of_core (World.core_resume w frame r) rfl fun _ => rfl
  | raise p => cases stack with
    | nil => exact .kept fun _ => rfl
    | cons frame stack => exact .of_core (World.core_unwind w frame p) rfl fun _ => rfl

theorem size_fanIns_step (h : m.world.Sound) :
    m.world.fanIns.size ≤ m.step.world.fanIns.size := by
  have hchange := step_fanIns h
  generalize m.step.world.fanIns = fanIns at hchange
  cases hchange with
  | kept => exact Nat.le_refl _
  | started =>
      rw [Arena.size_push]
      exact Nat.le_succ _
  | _ => rw [Arena.size_set]

/-- A fan-in that is not signalled counts the signals that are added. -/
theorem step_fanIn (h : m.world.Sound) (there : f < m.world.fanIns.size)
    (calm : (m.world.fanIn f).failed = false)
    (unsignalled : ∀ failure, m.control ≠ .call (.signal f failure)) : m.step.world.fanIn f =
      { m.world.fanIn f with remaining := (m.world.fanIn f).remaining + m.added f } := by
  have hchange := step_fanIns h
  unfold World.fanIn
  generalize m.step.world.fanIns = fanIns at hchange
  cases hchange with
  | kept idle => rw [idle]; rfl
  | @started cells k starts =>
      have hadded : m.added f = 0 := by
        rw [added, starts.1]
        exact if_neg fun hf => Nat.ne_of_gt there hf.1
      rw [Arena.get_push_of_ne _ _ (Nat.ne_of_lt there), hadded]
      rfl
  | @awaited f' c rest call left =>
      rw [Arena.get_set]
      by_cases hf : f' = f
      · subst hf
        have hadded : m.added f' = 1 := by
          rw [added, call]
          exact if_pos ⟨rfl, left, calm⟩
        rw [if_pos ⟨rfl, there⟩, hadded]
        rfl
      · have hadded : m.added f = 0 := by
          rw [added, call]
          exact if_neg fun h => hf h.1
        rw [if_neg fun h => hf h.1, hadded]
        rfl
  | @counted f' call =>
      have hf : f' ≠ f := fun hf => unsignalled none (hf ▸ call)
      have hadded : m.added f = 0 := by rw [added, call]
      rw [Arena.get_set_of_ne hf, hadded]
      rfl
  | @fired f' failure call =>
      have hf : f' ≠ f := fun hf => unsignalled failure (hf ▸ call)
      have hadded : m.added f = 0 := by rw [added, call]
      rw [Arena.get_set_of_ne hf, hadded]
      rfl

/-- A fan-in that is signalled early counts one signal less. -/
theorem step_fanIn_of_early (h : m.world.Sound) (there : f < m.world.fanIns.size)
    (call : m.control = .call (.signal f none)) (early : (m.world.fanIn f).remaining ≠ 1) :
    m.step.world.fanIn f =
      { m.world.fanIn f with remaining := (m.world.fanIn f).remaining - 1 } := by
  rw [step_call call]
  have hspec := World.invoke_spec h (.signal f none)
  generalize m.world.invoke (.signal f none) = mv at hspec
  cases hspec with
  | returned may => cases may
  | counted =>
      show (m.world.fanIns.set f _).get f = _
      rw [Arena.get_set_self there]
  | fired _ last => exact absurd (last rfl) early
  | firedTwice _ last => exact absurd (last rfl) early

/-! ## Nothing is forgotten

The counter says how many signals are due, but not of which cells. That each cell is accounted for is a
second invariant, kept cell by cell.
-/

theorem step_hasSucceeded (h : m.world.Sound) (hc : m.world.hasSucceeded c = true) :
    m.step.world.hasSucceeded c = true := by
  unfold World.hasSucceeded Cell.value? at hc ⊢
  split at hc
  · next stored =>
      rw [(step_cell h c).peek stored]
      rfl
  · cases hc

/-- The frames that set a fan-in up, and those that tell its listeners, have signals due to it. -/
theorem frame_of_spent {p : Panic} {frame : Frame} {stack : List Frame}
    (breaks : m.control = .raise p) (top : m.stack = frame :: stack) (kept : m.spent f = 0) :
    frame.toWatch f = [] ∧ ¬frame.Fails f e := by
  rw [spent, breaks, top] at kept
  obtain ⟨hdue, hrelays⟩ := Nat.add_eq_zero_iff.mp kept
  constructor
  · cases frame with
    | watching f' rest =>
        refine if_neg ?_
        rintro rfl
        cases hdue.symm.trans (if_pos rfl)
    | _ => rfl
  · rintro ⟨rest, revokee, rfl, s, hs, relay⟩
    exact absurd (Listener.relays_iff.mpr relay) (List.countP_eq_zero.mp hrelays s hs)

theorem toWatch_progress (h : m.world.Sound) (kept : ∀ p, m.control = .raise p → m.spent f = 0)
    (calm : (m.world.fanIn f).failed = false) (there : c < m.world.cells.size)
    (hc : c ∈ m.toWatch f) : c ∈ m.step.toWatch f ∨ m.step.world.hasSucceeded c = true ∨
      m.step.world.Watched f c ∨ ∃ e, m.step.Fails f e := by
  have persists : m.world.hasSucceeded c = true → m.step.world.hasSucceeded c = true :=
    step_hasSucceeded h
  obtain ⟨w, control, stack⟩ := m
  cases control with
  | call call =>
      show c ∈ (ofMove (w.invoke call) stack).toWatch f ∨ _ ∨ _ ∨
        ∃ e, (ofMove (w.invoke call) stack).Fails f e
      rw [toWatch_ofMove]
      rcases List.mem_append.mp hc with hc | hc
      · rcases World.toWatch_progress h hc calm there with hc | hc | hc | ⟨e, hf⟩
        · exact .inl (List.mem_append_left _ hc)
        · exact .inr (.inl (persists hc))
        · exact .inr (.inr (.inl hc))
        · exact .inr (.inr (.inr ⟨e, fails_ofMove.mpr (.inl hf)⟩))
      · exact .inl (List.mem_append_right _ hc)
  | ret r => cases stack with
    | nil => exact .inl hc
    | cons frame stack =>
        left
        show c ∈ (ofMove (w.resume frame r) stack).toWatch f
        rw [toWatch_ofMove, World.toWatch_resume]
        exact hc
  -- A panic that comes through takes nothing along that the fan-in counts on, so its frame has nothing to
  -- watch.
  | raise p => cases stack with
    | nil => exact .inl hc
    | cons frame stack =>
        left
        obtain ⟨hframe, -⟩ := frame_of_spent (e := .ofPanic p) rfl rfl (kept p rfl)
        show c ∈ (ofMove (w.unwind frame p) stack).toWatch f
        rw [toWatch_ofMove]
        refine List.mem_append_right _ ?_
        have hc : c ∈ frame.toWatch f ++ stack.flatMap (Frame.toWatch f) := hc
        rwa [hframe] at hc

theorem fails_progress (kept : ∀ p, m.control = .raise p → m.spent f = 0) (hf : m.Fails f e)
    (unsettled : m.control ≠ .call (.signal f (some e))) : m.step.Fails f e := by
  obtain ⟨w, control, stack⟩ := m
  rcases hf with ⟨call, rfl, hf⟩ | ⟨frame, hframe, hf⟩
  · apply fails_ofMove.mpr
    left
    exact (World.fails_progress hf).resolve_right fun heq => unsettled (congrArg _ heq)
  · cases control with
    | call call => exact fails_ofMove.mpr (.inr ⟨frame, hframe, hf⟩)
    | ret r => cases stack with
      | nil => cases hframe
      | cons top stack =>
          apply fails_ofMove.mpr
          rcases List.mem_cons.mp hframe with rfl | hframe
          · exact .inl (World.fails_resume hf)
          · exact .inr ⟨frame, hframe, hf⟩
    | raise p => cases stack with
      | nil => cases hframe
      | cons top stack =>
          apply fails_ofMove.mpr
          right
          rcases List.mem_cons.mp hframe with rfl | hframe
          · exact ((frame_of_spent rfl rfl (kept p rfl)).2 hf).elim
          · exact ⟨frame, hframe, hf⟩

/-- A fan-in will hear of a cell, or has no need to: the cell is still to be watched, or has succeeded, or has
a listener for the fan-in, or else an error is on the way. -/
def Covers (m : Machine) (f : FanInId) (c : CellId) : Prop :=
  c ∈ m.toWatch f ∨ m.world.hasSucceeded c = true ∨ m.world.Watched f c ∨ ∃ e, m.Fails f e

theorem Covers.step (h : m.Covers f c) (sound : m.world.Sound)
    (kept : ∀ p, m.control = .raise p → m.spent f = 0) (calm : (m.world.fanIn f).failed = false)
    (there : c < m.world.cells.size) (unsettled : ∀ e, m.control ≠ .call (.signal f (some e))) :
    m.step.Covers f c := by
  rcases h with hc | hc | hc | ⟨e, he⟩
  · exact toWatch_progress sound kept calm there hc
  · exact .inr (.inl (step_hasSucceeded sound hc))
  · rcases watched_progress sound hc with hc | hc | he
    · exact .inr (.inr (.inl hc))
    · exact .inr (.inl hc)
    · exact .inr (.inr (.inr he))
  · exact .inr (.inr (.inr ⟨e, fails_progress kept he (unsettled e)⟩))

/-! ## What a fan-in heeds

The converse: nothing that a fan-in hears of comes from any cell but its own. Otherwise an error could not
be said to be that of one of its cells.
-/

/-- A fan-in heeds only its cells: it watches no others, and only their errors are on the way to it. -/
structure Heeds (m : Machine) (f : FanInId) (cells : List CellId) : Prop where
  asked : ∀ c ∈ m.toWatch f, c ∈ cells
  watched : ∀ c, m.world.Watched f c → c ∈ cells
  fails : ∀ e, m.Fails f e → ∃ c ∈ cells, (m.world.cell c).peek = some (.error e)

theorem Heeds.step (h : m.Heeds f cells) (sound : m.world.Sound)
    (there : f < m.world.fanIns.size) : m.step.Heeds f cells := by
  constructor
  · exact fun c hc => h.asked c (step_toWatch sound there hc)
  · exact fun c hc => (step_watched sound hc).elim (h.watched c) (h.asked c)
  · intro e he
    rcases step_fails sound he with he | ⟨c, hc, hpeek⟩ | ⟨c, hc, hpeek⟩
    · obtain ⟨c, hc, hpeek⟩ := h.fails e he
      exact ⟨c, hc, (step_cell sound c).peek hpeek⟩
    · exact ⟨c, h.watched c hc, hpeek⟩
    · exact ⟨c, h.asked c hc, hpeek⟩

/-! ## A fan-in that stands

Count, cover and heed together decide what a signal does. With an error it settles the fan-in; without one,
it settles it if it is the last.
-/

/-- The next step settles a fan-in, and runs its continuation. -/
def Fires (m : Machine) (f : FanInId) (k : Continuation) (failure : Option Error) : Prop :=
  m.control = .call (.signal f failure) ∧ m.step.control = .call (.conclude k failure)

/-- The next step makes nothing of a signal. -/
def Counted (m : Machine) : Prop := m.step.control = .ret .unit ∧ m.step.stack = m.stack

/-- A fan-in has not settled. -/
structure Stands (m : Machine) (f : FanInId) (cells : List CellId) (k : Continuation) : Prop where
  there : f < m.world.fanIns.size
  calm : (m.world.fanIn f).failed = false
  left : (m.world.fanIn f).continuation = some k
  counts : m.due f ≤ (m.world.fanIn f).remaining
  positive : 0 < (m.world.fanIn f).remaining
  covered : m.due f = (m.world.fanIn f).remaining → ∀ c ∈ cells, m.Covers f c

/-- A fan-in has settled, with a failure or without. Without one, it has heard of all its cells. -/
structure Settled (m : Machine) (f : FanInId) (failure : Option Error) : Prop where
  there : f < m.world.fanIns.size
  taken : (m.world.fanIn f).continuation = none
  failed : (m.world.fanIn f).failed = failure.isSome
  quiet : failure = none → m.due f = 0

theorem due_pos (call : m.control = .call (.signal f failure)) : 0 < m.due f := by
  have hcontrol : m.control.due f = 1 := by
    rw [call]
    exact if_pos rfl
  rw [due, hcontrol]
  omega

theorem added_of_signal (call : m.control = .call (.signal f failure)) : m.added f = 0 := by
  rw [added, call]

theorem spent_of_signal (call : m.control = .call (.signal f failure)) : m.spent f = 1 := by
  rw [spent, call]
  exact if_pos rfl

/-- A fan-in that is there and to which nothing is due is not added to. -/
theorem added_of_quiet (there : f < m.world.fanIns.size) (quiet : m.due f = 0) : m.added f = 0 := by
  unfold added
  split
  · next f' c rest call =>
      refine if_neg fun hf => ?_
      have hcontrol : m.control.due f = 1 := by
        rw [call]
        exact if_pos hf.1
      rw [due, hcontrol] at quiet
      omega
  · next cells k call => exact if_neg fun hf => Nat.ne_of_gt there hf.1
  · rfl

/-- A signal that settles a fan-in takes its continuation and runs it. -/
theorem step_of_fired (h : m.world.Sound) {failure : Option Error}
    (call : m.control = .call (.signal f failure)) (calm : (m.world.fanIn f).failed = false)
    (last : failure = none → (m.world.fanIn f).remaining = 1)
    (left : (m.world.fanIn f).continuation = some k) :
    m.step = ⟨m.world.setFanIn f ((m.world.fanIn f).firedBy failure), .call (.conclude k failure),
      m.stack⟩ := by
  rw [step_call call]
  have hspec := World.invoke_spec h (.signal f failure)
  generalize m.world.invoke (.signal f failure) = mv at hspec
  cases hspec with
  | returned may => cases may
  | counted early => exact absurd ⟨last rfl, calm⟩ early
  | ignored failed => exact nomatch failed.symm.trans calm
  | fired _ _ left' =>
      rw [left] at left'
      cases left'
      rfl
  | firedTwice _ _ gone => exact nomatch gone.symm.trans left

/-- The frames that set a fan-in up have a signal due to it. -/
theorem toWatch_eq_nil_of_framesDue {frames : List Frame} (h : framesDue f frames = 0) :
    frames.flatMap (Frame.toWatch f) = [] := by
  induction frames with
  | nil => rfl
  | cons frame rest ih =>
      have h : frame.due f + framesDue f rest = 0 := h
      rw [List.flatMap_cons, ih (by omega), List.append_nil]
      cases frame with
      | watching f' cells =>
          have hf : f' ≠ f := by
            rintro rfl
            simp [Frame.due] at h
          exact if_neg hf
      | _ => rfl

theorem relayCount_pos {listeners : List Subscription} {s : Subscription} (hs : s ∈ listeners)
    (relay : s.listener = .relay f) : 0 < relayCount f listeners :=
  List.countP_pos_iff.mpr ⟨s, hs, Listener.relays_iff.mpr relay⟩

/-- When the last signal comes and none was lost, every cell has succeeded. -/
theorem succeeded_of_last (call : m.control = .call (.signal f none)) (last : m.due f = 1)
    (covered : ∀ c ∈ cells, m.Covers f c) : ∀ c ∈ cells, m.world.hasSucceeded c = true := by
  have hcontrol : m.control.due f = 1 := by
    rw [call]
    exact if_pos rfl
  rw [due, hcontrol] at last
  have hframes : framesDue f m.stack = 0 := by omega
  have hrelays : relayCount f m.outstanding = 0 := by omega
  have unheard {s : Subscription} (hs : s ∈ m.outstanding) (relay : s.listener = .relay f) : False :=
    Nat.ne_of_gt (relayCount_pos hs relay) hrelays
  intro c hc
  rcases covered c hc with hc | hc | ⟨s, hs, relay⟩ | ⟨e, ⟨call', hcall, hfails⟩ | hframe⟩
  · rw [toWatch, call, toWatch_eq_nil_of_framesDue hframes] at hc
    cases hc
  · exact hc
  · refine (unheard (List.mem_append_left _ ?_) relay).elim
    exact World.mem_listeners hs
  · rw [call] at hcall
    cases hcall
    cases hfails
  · obtain ⟨frame, hframe, rest, revokee, rfl, s, hs, relay⟩ := hframe
    refine (unheard (List.mem_append_right _ (List.mem_append_right _ ?_)) relay).elim
    exact List.mem_flatMap.mpr ⟨_, hframe, hs⟩

/-- A signal that settles a fan-in settles it for good. -/
theorem Stands.fires (h : m.Stands f cells k) (sound : m.world.Sound)
    (call : m.control = .call (.signal f failure))
    (last : failure = none → (m.world.fanIn f).remaining = 1) :
    m.Fires f k failure ∧ m.step.Settled f failure := by
  have hstep := step_of_fired sound call h.calm last h.left
  have hfanIn : m.step.world.fanIn f = (m.world.fanIn f).firedBy failure := by
    rw [hstep]
    exact Arena.get_set_self h.there
  refine ⟨⟨call, by rw [hstep]⟩,
    Nat.lt_of_lt_of_le h.there (size_fanIns_step sound), ?_, ?_, ?_⟩
  · rw [hfanIn]
    rfl
  · rw [hfanIn]
    rfl
  · intro hfailure
    have hdue := step_due f sound
    have hcounts := h.counts
    rw [added_of_signal call, spent_of_signal call] at hdue
    rw [last hfailure] at hcounts
    omega

/-- A fan-in goes on standing, or settles. -/
theorem Stands.step (h : m.Stands f cells k) (sound : m.world.Sound)
    (there : ∀ c ∈ cells, c < m.world.cells.size) :
    (m.step.Stands f cells k ∧ ∀ failure, m.control = .call (.signal f failure) → m.Counted) ∨
      ∃ failure, m.Fires f k failure ∧ m.step.Settled f failure ∧
        (failure = none → ∀ c ∈ cells, m.world.hasSucceeded c = true) := by
  have hdue := step_due f sound
  have hcounts := h.counts
  have hpositive := h.positive
  have there' : f < m.step.world.fanIns.size := Nat.lt_of_lt_of_le h.there (size_fanIns_step sound)
  -- Only a signal can settle the fan-in, and only the last one or a failure does.
  by_cases hsignal : ∃ failure, m.control = .call (.signal f failure)
  · obtain ⟨failure, call⟩ := hsignal
    rw [added_of_signal call, spent_of_signal call] at hdue
    by_cases last : failure = none → (m.world.fanIn f).remaining = 1
    · right
      obtain ⟨fires, settled⟩ := h.fires sound call last
      refine ⟨failure, fires, settled, ?_⟩
      rintro rfl
      have hone : m.due f = 1 := by
        have := due_pos call
        have := last rfl
        omega
      exact succeeded_of_last call hone (h.covered (hone.trans (last rfl).symm))
    · left
      -- An early success is counted. If no signal was lost before, none is lost by this either.
      obtain ⟨rfl, early⟩ := Classical.not_imp.mp last
      have hfanIn := step_fanIn_of_early sound h.there call early
      constructor
      · refine ⟨there', by rw [hfanIn, h.calm], by rw [hfanIn, h.left], ?_, ?_, ?_⟩
        · rw [hfanIn]
          show m.step.due f ≤ (m.world.fanIn f).remaining - 1
          omega
        · rw [hfanIn]
          show 0 < (m.world.fanIn f).remaining - 1
          omega
        · intro none_lost c hc
          rw [hfanIn] at none_lost
          have none_lost : m.step.due f = (m.world.fanIn f).remaining - 1 := none_lost
          refine (h.covered (by omega) c hc).step sound ?_ h.calm (there c hc) ?_
          · rw [call]
            exact fun p hp => nomatch hp
          · rw [call]
            exact fun e he => nomatch he
      · intro failure _
        have hspec := World.invoke_spec sound (.signal f none)
        rw [Counted, step_call call]
        generalize m.world.invoke (.signal f none) = mv at hspec
        cases hspec with
        | returned may => cases may
        | counted => exact ⟨rfl, rfl⟩
        | fired _ last => exact absurd (last rfl) early
        | firedTwice _ last => exact absurd (last rfl) early
  · left
    have unsignalled : ∀ failure, m.control ≠ .call (.signal f failure) :=
      fun failure call => hsignal ⟨failure, call⟩
    have hfanIn := step_fanIn sound h.there h.calm unsignalled
    constructor
    · refine ⟨there', by rw [hfanIn, h.calm], by rw [hfanIn, h.left], ?_, ?_, ?_⟩
      · rw [hfanIn]
        show m.step.due f ≤ (m.world.fanIn f).remaining + m.added f
        omega
      · rw [hfanIn]
        show 0 < (m.world.fanIn f).remaining + m.added f
        omega
      · intro none_lost c hc
        rw [hfanIn] at none_lost
        have none_lost : m.step.due f = (m.world.fanIn f).remaining + m.added f := none_lost
        exact (h.covered (by omega) c hc).step sound (fun _ _ => by omega) h.calm (there c hc)
          fun e => unsignalled (some e)
    · exact fun failure call => (unsignalled failure call).elim

/-- A fan-in that has settled makes nothing of the signals that still come. -/
theorem Settled.step (h : m.Settled f failure) (sound : m.world.Sound) :
    m.step.Settled f failure ∧ ∀ failure', m.control = .call (.signal f failure') → m.Counted := by
  -- A fan-in that has succeeded hears nothing more: all signals were counted. So one that is still
  -- signalled has failed.
  have noisy {failure' : Option Error} (call : m.control = .call (.signal f failure')) :
      (m.world.fanIn f).failed = true := by
    rw [h.failed]
    cases hfailure : failure with
    | none => exact absurd (h.quiet hfailure) (Nat.ne_of_gt (due_pos call))
    | some e => rfl
  constructor
  · have hchange := step_fanIns sound
    have keeps : (m.step.world.fanIn f).continuation = none ∧
        (m.step.world.fanIn f).failed = failure.isSome := by
      unfold World.fanIn
      generalize m.step.world.fanIns = fanIns at hchange
      cases hchange with
      | kept => exact ⟨h.taken, h.failed⟩
      | started =>
          rw [Arena.get_push_of_ne _ _ (Nat.ne_of_lt h.there)]
          exact ⟨h.taken, h.failed⟩
      | awaited | counted =>
          rw [Arena.get_set]
          split
          · next hf =>
              obtain ⟨rfl, -⟩ := hf
              exact ⟨h.taken, h.failed⟩
          · exact ⟨h.taken, h.failed⟩
      | fired call calm =>
          rw [Arena.get_set]
          split
          · next hf =>
              obtain ⟨rfl, -⟩ := hf
              exact nomatch (noisy call).symm.trans calm
          · exact ⟨h.taken, h.failed⟩
    refine ⟨Nat.lt_of_lt_of_le h.there (size_fanIns_step sound), keeps.1, keeps.2, ?_⟩
    intro hfailure
    have hdue := step_due f sound
    have hquiet := h.quiet hfailure
    have hadded := added_of_quiet h.there hquiet
    omega
  · intro failure' call
    have hspec := World.invoke_spec sound (.signal f failure')
    have hnoisy := noisy call
    rw [Counted, step_call call]
    generalize m.world.invoke (.signal f failure') = mv at hspec
    cases hspec with
    | returned may => cases may
    | counted => exact ⟨rfl, rfl⟩
    | ignored => exact ⟨rfl, rfl⟩
    | fired calm => exact nomatch hnoisy.symm.trans calm
    | firedTwice calm => exact nomatch hnoisy.symm.trans calm

/-! ## The beginning

A fan-in that is not there is due nothing, so one that is made begins with the signals of its own set-up
only.
-/

/-- No signal is due to a fan-in that is not there. -/
def Fresh (m : Machine) : Prop := ∀ f, m.world.fanIns.size ≤ f → m.due f = 0

theorem Fresh.step (h : m.Fresh) (sound : m.world.Sound) : m.step.Fresh := by
  intro f hf
  have hdue := step_due f sound
  have hbefore := h f ((size_fanIns_step sound).trans hf)
  have hadded : m.added f = 0 := by
    have hchange := step_fanIns sound
    generalize m.step.world.fanIns = fanIns at hchange hf
    cases hchange with
    | kept idle => exact idle f
    | @started cells k starts =>
        rw [Arena.size_push] at hf
        rw [added, starts.1]
        exact if_neg fun hf' => Nat.ne_of_lt hf hf'.1
    | @awaited f' c rest call =>
        -- While a fan-in is being set up, a signal is due to it.
        have hf' : f' ≠ f := by
          rintro rfl
          rw [Machine.due, call] at hbefore
          have hcontrol : (Control.call (.watch f' (c :: rest))).due f' = 1 := if_pos rfl
          omega
        rw [added, call]
        exact if_neg fun h => hf' h.1
    | counted call => rw [added, call]
    | fired call => rw [added, call]
  omega

theorem Fresh.unheard (h : m.Fresh) (hf : m.world.fanIns.size ≤ f) {s : Subscription}
    (hs : s ∈ m.outstanding) : s.listener ≠ .relay f := by
  intro relay
  have hdue := h f hf
  have hpos := relayCount_pos hs relay
  rw [Machine.due] at hdue
  omega

/-- A fan-in that is made stands, and heeds its cells. -/
theorem Starts.stands (starts : m.Starts cells k) (h : m.Fresh) (sound : m.world.Sound) :
    m.step.Stands m.world.fanIns.size cells k ∧ m.step.Heeds m.world.fanIns.size cells ∧
      m.step.due m.world.fanIns.size = 1 ∧
      (m.step.world.fanIn m.world.fanIns.size).remaining = 1 := by
  obtain ⟨call, none, left⟩ := starts
  have hdue := step_due m.world.fanIns.size sound
  have hbefore := h _ (Nat.le_refl _)
  have hspent : m.spent m.world.fanIns.size = 0 := by rw [spent, call]
  have hadded : m.added m.world.fanIns.size = 1 := by
    rw [added, call]
    exact if_pos ⟨rfl, none, left⟩
  have hone : m.step.due m.world.fanIns.size = 1 := by omega
  have hframes : m.stack.flatMap (Frame.toWatch m.world.fanIns.size) = [] := by
    apply toWatch_eq_nil_of_framesDue
    rw [Machine.due] at hbefore
    omega
  -- As the fan-in is not there yet, nobody can relay to it.
  have unheard {s : Subscription} (hs : s ∈ m.outstanding) :=
    h.unheard (Nat.le_refl m.world.fanIns.size) hs
  have hstep : m.step = ⟨{ m.world with fanIns := m.world.fanIns.push (.start k) },
      .call (.watch m.world.fanIns.size cells.reverse), m.stack⟩ := by
    rw [step_call call]
    show ofMove (m.world.await cells k) m.stack = _
    rw [World.await, none]
    simp only [left, Bool.false_eq_true, if_false]
    rfl
  have hfanIn : m.step.world.fanIn m.world.fanIns.size = .start k := by
    rw [hstep]
    exact Arena.get_push_size _ _
  have hwatch : m.step.toWatch m.world.fanIns.size = cells.reverse := by
    rw [hstep, toWatch]
    show (if _ then cells.reverse else []) ++ m.stack.flatMap _ = _
    rw [hframes, if_pos rfl, List.append_nil]
  refine ⟨⟨?_, ?_, ?_, ?_, ?_, ?_⟩, ⟨?_, ?_, ?_⟩, hone, ?_⟩
  · rw [hstep]
    show _ < (m.world.fanIns.push _).size
    rw [Arena.size_push]
    exact Nat.lt_succ_self _
  · rw [hfanIn]
    rfl
  · rw [hfanIn]
    rfl
  · rw [hfanIn, hone]
    exact Nat.le_refl 1
  · rw [hfanIn]
    exact Nat.one_pos
  · intro _ c hc
    refine .inl ?_
    rw [hwatch]
    exact List.mem_reverse.mpr hc
  · intro c hc
    rw [hwatch] at hc
    exact List.mem_reverse.mp hc
  · intro c hc
    rw [hstep] at hc
    obtain ⟨s, hs, relay⟩ := hc
    exact absurd relay (unheard (List.mem_append_left _ (World.mem_listeners hs)))
  · intro e he
    rw [hstep] at he
    rcases he with ⟨c, hc, hfails⟩ | ⟨frame, hframe, rest, revokee, rfl, s, hs, relay⟩
    · cases hc
      cases hfails
    · refine absurd relay (unheard ?_)
      refine List.mem_append_right _ (List.mem_append_right _ ?_)
      exact List.mem_flatMap.mpr ⟨_, hframe, hs⟩
  · rw [hfanIn]
    rfl

end Machine

end RequestGraph
