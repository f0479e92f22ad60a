import RequestGraph.Proofs.FanIn.Standing

/-!
# A fan-in that waits

If no panic comes through to a delivery, no signal is lost, and the counter of a fan-in says how many signals
are due to it. So it settles for a reason, and it is not forgotten:

    it settles with an error e     →   e is the error of one of its cells
    it settles without an error    →   all its cells have succeeded
    nothing is left to be done     →   none of its cells has failed, and one of them is pending
-/

namespace RequestGraph

namespace Machine

variable {m : Machine} {f : FanInId} {c : CellId} {e : Error}

/-- A panic comes through to no frame that sets a fan-in up, and to no delivery. -/
theorem Orderly.passes (h : m.Orderly) {p : Panic} {frame : Frame} {stack : List Frame}
    (breaks : m.control = .raise p) (top : m.stack = frame :: stack)
    (fragile : frame.isFragile = true) : frame.isEnriching = true := by
  have hsuits := h.control frame (by rw [top]; rfl) fragile
  rw [breaks] at hsuits
  cases hsuits with
  | unread enriching => exact enriching

/-- A fan-in waits for some cells: it has not settled, and none of its signals is lost. -/
structure Awaits (m : Machine) (f : FanInId) (cells : List CellId) (k : Continuation) : Prop where
  there : f < m.world.fanIns.size
  calm : (m.world.fanIn f).failed = false
  left : (m.world.fanIn f).continuation = some k
  counts : (m.world.fanIn f).remaining = m.due f
  positive : 0 < m.due f
  asked : ∀ c ∈ m.toWatch f, c ∈ cells
  watched : ∀ c, m.world.Watched f c → c ∈ cells
  fails : ∀ e, m.Fails f e → ∃ c ∈ cells, (m.world.cell c).peek = some (.error e)
  covered : ∀ c ∈ cells, c ∈ m.toWatch f ∨ m.world.hasSucceeded c = true ∨ m.world.Watched f c ∨
    ∃ e, m.Fails f e

/-- Why a fan-in settles: one of its cells has failed, or all have succeeded. -/
def Justified (m : Machine) (cells : List CellId) : Option Error → Prop
  | some e => ∃ c ∈ cells, (m.world.cell c).peek = some (.error e)
  | none => ∀ c ∈ cells, m.world.hasSucceeded c = true

variable {cells : List CellId} {k : Continuation}

theorem Awaits.stands (h : m.Awaits f cells k) : m.Stands f cells k :=
  ⟨h.there, h.calm, h.left, Nat.le_of_eq h.counts.symm, h.counts ▸ h.positive, fun _ => h.covered⟩

theorem Awaits.heeds (h : m.Awaits f cells k) : m.Heeds f cells := ⟨h.asked, h.watched, h.fails⟩

/-- A fan-in that stands waits if no signal was lost. -/
theorem Stands.awaits (h : m.Stands f cells k) (heeds : m.Heeds f cells)
    (counts : (m.world.fanIn f).remaining = m.due f) : m.Awaits f cells k :=
  ⟨h.there, h.calm, h.left, counts, counts ▸ h.positive, heeds.asked, heeds.watched, heeds.fails,
    h.covered counts.symm⟩

/-- What is due to a waiting fan-in is neither lost, nor spent without a signal. -/
theorem Awaits.spent_eq_zero (h : m.Awaits f cells k) (orderly : m.Orderly)
    (there : ∀ c ∈ cells, c < m.world.cells.size)
    (unsignalled : ∀ failure, m.control ≠ .call (.signal f failure)) : m.spent f = 0 := by
  have hasked := h.asked
  obtain ⟨w, control, stack⟩ := m
  cases control with
  | ret r => rfl
  -- In an orderly machine no panic comes through to a frame that has signals to deliver.
  | raise p => cases stack with
    | nil => rfl
    | cons frame stack =>
        have hpasses := orderly.passes rfl rfl
        show frame.due f + relayCount f frame.subscriptions = 0
        cases frame <;> first | rfl | cases hpasses rfl
  | call call => cases call with
    | signal f' failure =>
        have hf : f' ≠ f := by
          rintro rfl
          exact unsignalled failure rfl
        exact if_neg hf
    -- A subscription spends a signal only if its cell is not there, and all cells that are awaited are.
    | subscribe c l =>
        cases hrelay : l.relays f with
        | false =>
            show (if _ then 0 else (l.relays f).toNat) = 0
            rw [hrelay]
            exact ite_self 0
        | true =>
            have hc : c ∈ cells := by
              apply hasked
              refine List.mem_append_left _ ?_
              show c ∈ (if l.relays f then [c] else [])
              rw [hrelay]
              exact List.mem_singleton.mpr rfl
            exact if_pos (there c hc)
    | _ => rfl

/-- As long as a fan-in waits, its counter says how many signals are due. -/
theorem Awaits.counts_step (h : m.Awaits f cells k) (sound : m.world.Sound) (orderly : m.Orderly)
    (there : ∀ c ∈ cells, c < m.world.cells.size) (stands : m.step.Stands f cells k) :
    (m.step.world.fanIn f).remaining = m.step.due f := by
  have hdue := step_due f sound
  have hcounts := h.counts
  have hpositive := h.positive
  by_cases hsignal : ∃ failure, m.control = .call (.signal f failure)
  · obtain ⟨failure, call⟩ := hsignal
    rw [added_of_signal call, spent_of_signal call] at hdue
    by_cases last : failure = none → (m.world.fanIn f).remaining = 1
    · -- It would have settled.
      obtain ⟨-, settled⟩ := h.stands.fires sound call last
      cases settled.taken.symm.trans stands.left
    · obtain ⟨rfl, early⟩ := Classical.not_imp.mp last
      rw [step_fanIn_of_early sound h.there call early]
      show (m.world.fanIn f).remaining - 1 = _
      omega
  · have unsignalled : ∀ failure, m.control ≠ .call (.signal f failure) :=
      fun failure call => hsignal ⟨failure, call⟩
    have hspent := h.spent_eq_zero orderly there unsignalled
    rw [step_fanIn sound h.there h.calm unsignalled]
    show (m.world.fanIn f).remaining + m.added f = _
    omega

/-- A fan-in goes on waiting, or settles for a reason and runs its continuation. -/
theorem Awaits.step (h : m.Awaits f cells k) (sound : m.world.Sound) (orderly : m.Orderly)
    (there : ∀ c ∈ cells, c < m.world.cells.size) : m.step.Awaits f cells k ∨
      ∃ failure, m.step.control = .call (.conclude k failure) ∧ m.step.Justified cells failure := by
  rcases h.stands.step sound there with ⟨stands, -⟩ | ⟨failure, fires, -, succeeded⟩
  · left
    exact stands.awaits (h.heeds.step sound h.there) (h.counts_step sound orderly there stands)
  · right
    refine ⟨failure, fires.2, ?_⟩
    cases failure with
    | none => exact fun c hc => step_hasSucceeded sound (succeeded rfl c hc)
    | some e =>
        obtain ⟨c, hc, hpeek⟩ := h.fails e (.inl ⟨_, fires.1, .signal⟩)
        exact ⟨c, hc, (step_cell sound c).peek hpeek⟩

/-! ## The beginning and the end

A fan-in begins to wait with all its cells to be watched. At the end nothing is to be watched and no error
is on its way, so each cell has succeeded or has a listener.
-/

/-- A fan-in that is made waits for its cells. -/
theorem Starts.awaits (starts : m.Starts cells k) (h : m.Fresh) (sound : m.world.Sound) :
    m.step.Awaits m.world.fanIns.size cells k := by
  obtain ⟨stands, heeds, due, remaining⟩ := starts.stands h sound
  exact stands.awaits heeds (remaining.trans due.symm)

/-- When nothing is left to be done, a waiting fan-in waits for a pending cell, and none has failed. -/
theorem Awaits.of_atRest (h : m.Awaits f cells k) (sound : m.world.Sound) (rest : m.atRest = true) :
    (∃ c ∈ cells, (m.world.cell c).isRealized = false) ∧
      ∀ c ∈ cells, ∀ e, (m.world.cell c).peek ≠ some (.error e) := by
  obtain ⟨hcontrol, hstack⟩ := atRest_iff.mp rest
  have pending {c : CellId} (hc : m.world.Watched f c) : (m.world.cell c).isRealized = false := by
    obtain ⟨s, hs, -⟩ := hc
    by_contra hr
    rw [((sound c).emptied (Bool.not_eq_false _ ▸ hr)).1] at hs
    cases hs
  have hfails (e : Error) : ¬m.Fails f e := by
    rintro (⟨c, hc, -⟩ | ⟨frame, hframe, -⟩)
    · rw [hc] at hcontrol
      cases hcontrol
    · rw [hstack] at hframe
      cases hframe
  constructor
  · -- A signal is due, and that can only be because of a listener.
    have hdue := h.positive
    rw [Machine.due, Control.due_of_not_isCall hcontrol, hstack] at hdue
    have hrelays : 0 < relayCount f m.outstanding := by
      have : framesDue f [] = 0 := rfl
      omega
    obtain ⟨s, hs, relay⟩ := List.countP_pos_iff.mp hrelays
    rw [outstanding, Control.subscriptions_of_not_isCall hcontrol, hstack] at hs
    obtain ⟨c, hs⟩ := World.exists_of_mem_listeners (by simpa using hs)
    have hc : m.world.Watched f c := ⟨s, hs, Listener.relays_iff.mp relay⟩
    exact ⟨c, h.watched c hc, pending hc⟩
  · intro c hc e hpeek
    rcases h.covered c hc with hc | hc | hc | ⟨e, he⟩
    · rw [toWatch, Control.toWatch_of_not_isCall hcontrol, hstack] at hc
      cases hc
    · rw [World.hasSucceeded, Cell.value?, hpeek] at hc
      cases hc
    · rw [Cell.peek_of_pending (pending hc)] at hpeek
      cases hpeek
    · exact hfails e he

end Machine

end RequestGraph
