import RequestGraph.Proofs.Engine.Flow

/-!
# The signals that a fan-in counts

A signal is due to a fan-in while it is being set up, for each of its listeners that wait with cells or are on
their way, and for each call that is about to signal it. A step adds to the signals that are due by watching
a cell, and spends one by signalling. Otherwise it only passes them on:

    due after a step + spent by it   =   due before + added by it

So the counter of a fan-in, which goes up and down with them, says how many signals are due.
-/

namespace RequestGraph

/-- Whether a listener signals a fan-in. -/
def Listener.relays (f : FanInId) : Listener → Bool
  | .relay f' => f' = f
  | _ => false

/-- The signals that are due to a fan-in because of a call, apart from the listeners it has in hand. -/
def Call.due (f : FanInId) : Call → ℕ
  | .subscribe _ l | .tell l _ => (l.relays f).toNat
  | .signal f' _ | .watch f' _ => if f' = f then 1 else 0
  | _ => 0

/-- The signals that are due because of what is done next. -/
def Control.due (f : FanInId) : Control → ℕ
  | .call c => c.due f
  | _ => 0

/-- The signal that is due because a fan-in is being set up. -/
def Frame.due (f : FanInId) : Frame → ℕ
  | .watching f' _ => if f' = f then 1 else 0
  | _ => 0

/-- The signals that are due because of some frames. -/
def framesDue (f : FanInId) (frames : List Frame) : ℕ := (frames.map (Frame.due f)).sum

/-- How many of some listeners signal a fan-in. -/
def relayCount (f : FanInId) (listeners : List Subscription) : ℕ :=
  listeners.countP fun s => s.listener.relays f

namespace Machine

/-- The signals that are due to a fan-in. -/
def due (f : FanInId) (m : Machine) : ℕ :=
  m.control.due f + framesDue f m.stack + relayCount f m.outstanding

/-- The signals that the next step spends, or loses. -/
def spent (f : FanInId) (m : Machine) : ℕ :=
  match m.control, m.stack with
  | .call (.signal f' _), _ => if f' = f then 1 else 0
  | .call (.subscribe c l), _ => if c < m.world.cells.size then 0 else (l.relays f).toNat
  | .raise _, frame :: _ => frame.due f + relayCount f frame.subscriptions
  | _, _ => 0

/-- The signals that the next step adds. -/
def added (f : FanInId) (m : Machine) : ℕ :=
  match m.control with
  | .call (.watch f' (c :: _)) =>
    if f' = f ∧ m.world.hasSucceeded c = false ∧ (m.world.fanIn f').failed = false then 1 else 0
  | .call (.await cells _) =>
    if m.world.fanIns.size = f ∧ m.world.firstFailure cells.reverse = none ∧
      cells.all m.world.hasSucceeded = false then 1 else 0
  | _ => 0

end Machine

/-! ## Moves

For each kind of move, what becomes of the signals that are due. The frames below a move keep theirs, except
that a panic drops those of the frame that it comes through.
-/

/-- Frames that only note where they are keep no signals. -/
theorem framesDue_of_isOuter {f : FanInId} {frames : List Frame}
    (h : frames.all Frame.isOuter = true) : framesDue f frames = 0 := by
  induction frames with
  | nil => rfl
  | cons frame rest ih =>
      obtain ⟨hframe, hrest⟩ := Bool.and_eq_true_iff.mp h
      show frame.due f + framesDue f rest = 0
      rw [ih hrest]
      cases frame <;> first | rfl | cases hframe

/-- Only calls deliver signals. -/
theorem Control.due_of_not_isCall {f : FanInId} {e : Control} (h : e.isCall = false) :
    e.due f = 0 := by
  cases e <;> first | rfl | cases h

/-- The calls that operations enter deliver no signals themselves. -/
theorem Call.due_of_isEntry {f : FanInId} {c : Call} (h : c.isEntry = true) : c.due f = 0 := by
  cases c with
  | subscribe c l => cases l <;> first | rfl | cases h
  | _ => first | rfl | cases h

/-- What an operation does, no signal is due for. -/
theorem Operated.due {w : World} {scope : Scope} {op : Op} {mv : Move} (f : FanInId)
    (h : Operated w scope op mv) : mv.control.due f + framesDue f mv.frames = 0 := by
  cases h with
  | answered _ ends outer => rw [Control.due_of_not_isCall ends, framesDue_of_isOuter outer]
  | entered _ entry outer =>
      rw [framesDue_of_isOuter outer]
      exact Call.due_of_isEntry entry
  | @presented _ c _ _ _ _ _ presents outer =>
      rw [framesDue_of_isOuter outer]
      cases c <;> first | rfl | cases presents
  | latched _ _ outer =>
      rw [framesDue_of_isOuter outer]
      rfl
  | fetching _ outer =>
      rw [framesDue_of_isOuter outer]
      rfl
  | interned _ ends => rw [Control.due_of_not_isCall ends]; rfl
  | froze _ ends => rw [Control.due_of_not_isCall ends]; rfl
  | _ => rfl

namespace World

variable {w : World} (f : FanInId)

/-- Resuming a frame brings up the signals that it keeps. -/
theorem due_resume (frame : Frame) (r : Result) : (w.resume frame r).control.due f +
    framesDue f (w.resume frame r).frames = frame.due f := by
  have hspec := w.resume_spec frame r
  generalize w.resume frame r = mv at hspec
  cases hspec with
  | returned may => cases frame <;> first | rfl | cases may
  | _ => rfl

/-- Signals of listeners that are dropped are lost. -/
theorem due_unwind (frame : Frame) (p : Panic) : (w.unwind frame p).control.due f +
    framesDue f (w.unwind frame p).frames = 0 := by
  cases frame <;> rfl

end World

namespace Machine

variable (f : FanInId)

/-- A signal counts once. -/
theorem toNat_eq_ite (b : Bool) : b.toNat = if b = true then 1 else 0 := by cases b <;> rfl

/-- What a call does to the signals that are due, apart from the frames below it. -/
theorem due_invoke {w : World} (h : w.Sound) (c : Call) (stack : List Frame) :
    (w.invoke c).control.due f + framesDue f (w.invoke c).frames +
        relayCount f (registered ⟨w, .call c, stack⟩) + spent f ⟨w, .call c, stack⟩ =
      c.due f + relayCount f (told ⟨w, .call c, stack⟩) + added f ⟨w, .call c, stack⟩ := by
  have hspec := World.invoke_spec h c
  generalize w.invoke c = mv at hspec
  cases hspec with
  | operated hop =>
      rw [hop.due f]
      rfl
  | returned may => cases c <;> first | rfl | cases may
  | fetchedNew _ _ _ starts => cases starts <;> rfl
  | @registered c l | @told c l =>
      -- A registration with a cell that is not there comes to nothing.
      by_cases hc : c < w.cells.size
      · simp [Control.due, Call.due, framesDue, registered, told, spent, added, relayCount, hc,
          toNat_eq_ite]
      · simp [Control.due, Call.due, framesDue, registered, told, spent, added, relayCount, hc]
  | notifying | signalled | awaitFailed | awaitDone | awaiting | watchSkipped | watchStopped
  | watching | counted | ignored | fired | firedTwice =>
      simp [Control.due, Call.due, framesDue, Frame.due, registered, told, spent, added, relayCount,
        Listener.relays, List.countP_cons, toNat_eq_ite, *]
  | _ => rfl

/-- What a step does to the signals that are due. -/
theorem step_due {m : Machine} (h : m.world.Sound) :
    m.step.due f + m.spent f = m.due f + m.added f := by
  -- Signals are listeners on their way, so what a step does to all listeners it does to the relays among
  -- them; the rest of the account is what calls and frames have in hand.
  have houtstanding := (step_outstanding h).countP_eq fun s => s.listener.relays f
  rw [List.countP_append, List.countP_append, List.countP_append] at houtstanding
  have due_ofMove (mv : Move) (stack : List Frame) : (ofMove mv stack).due f =
      mv.control.due f + framesDue f mv.frames + framesDue f stack +
        relayCount f (ofMove mv stack).outstanding := by
    show mv.control.due f + framesDue f (mv.frames ++ stack) + _ = _
    rw [framesDue, framesDue, framesDue, List.map_append, List.sum_append]
    omega
  obtain ⟨w, control, stack⟩ := m
  cases control with
  | call c =>
      have hinvoke := due_invoke (w := w) f h c stack
      have hlost : (lost ⟨w, .call c, stack⟩) = [] := rfl
      rw [hlost, List.countP_nil] at houtstanding
      show (ofMove (w.invoke c) stack).due f + _ = c.due f + framesDue f stack + relayCount f _ + _
      rw [due_ofMove]
      have hstep : relayCount f (ofMove (w.invoke c) stack).outstanding +
          relayCount f (told ⟨w, .call c, stack⟩) =
            relayCount f (outstanding ⟨w, .call c, stack⟩) +
              relayCount f (registered ⟨w, .call c, stack⟩) := houtstanding
      omega
  | ret r => cases stack with
    | nil => rfl
    | cons frame stack =>
        have hresume := w.due_resume f frame r
        show (ofMove (w.resume frame r) stack).due f + 0 =
          0 + framesDue f (frame :: stack) + relayCount f _ + 0
        rw [due_ofMove]
        have hstep : relayCount f (ofMove (w.resume frame r) stack).outstanding + (0 + 0) =
            relayCount f (outstanding ⟨w, .ret r, frame :: stack⟩) + 0 := houtstanding
        have hframes : framesDue f (frame :: stack) = frame.due f + framesDue f stack := rfl
        omega
  | raise p => cases stack with
    | nil => rfl
    | cons frame stack =>
        have hunwind := w.due_unwind f frame p
        show (ofMove (w.unwind frame p) stack).due f + (frame.due f + relayCount f _) =
          0 + framesDue f (frame :: stack) + relayCount f _ + 0
        rw [due_ofMove]
        have hstep : relayCount f (ofMove (w.unwind frame p) stack).outstanding +
            (0 + relayCount f frame.subscriptions) =
              relayCount f (outstanding ⟨w, .raise p, frame :: stack⟩) + 0 := houtstanding
        have hframes : framesDue f (frame :: stack) = frame.due f + framesDue f stack := rfl
        omega

end Machine

end RequestGraph
