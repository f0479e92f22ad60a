import RequestGraph.Proofs.FanIn.Counting

/-!
# What a fan-in hears of

A cell that a fan-in is to watch is among those its set-up has left, or is about to be registered with, or has
a listener that signals the fan-in. When such a cell fails, its error is on the way to the fan-in from then
on: in the hands of the delivery, then of the call that tells the listener, and at last of the signal itself.
-/

namespace RequestGraph

/-- A cell has a listener that signals a fan-in. -/
def World.Watched (w : World) (f : FanInId) (c : CellId) : Prop :=
  ∃ s ∈ (w.cell c).listeners.toList, s.listener = .relay f

/-- The cells that a call is to register a fan-in with. -/
def Call.toWatch (f : FanInId) : Call → List CellId
  | .watch f' cells => if f' = f then cells else []
  | .subscribe c l => if l.relays f then [c] else []
  | _ => []

/-- The cells that a fan-in is to be registered with next. -/
def Control.toWatch (f : FanInId) : Control → List CellId
  | .call c => c.toWatch f
  | _ => []

/-- The cells that a fan-in is to be registered with later. -/
def Frame.toWatch (f : FanInId) : Frame → List CellId
  | .watching f' rest => if f' = f then rest else []
  | _ => []

/-- The cells that a move leaves to be watched. -/
def Move.toWatch (f : FanInId) (mv : Move) : List CellId :=
  mv.control.toWatch f ++ mv.frames.flatMap (Frame.toWatch f)

/-- A call has an error in hand that is to fail a fan-in. -/
inductive Call.Fails (f : FanInId) (e : Error) : Call → Prop
  | deliver {ls : List Subscription} {revokee : Option CellId}
      (relay : ∃ s ∈ ls, s.listener = .relay f) : Fails f e (.deliver ls revokee (.error e))
  | notify {s : Subscription} (relay : s.listener = .relay f) : Fails f e (.notify s (.error e))
  | tell : Fails f e (.tell (.relay f) (.error e))
  | signal : Fails f e (.signal f (some e))

/-- A frame has an error in hand that is to fail a fan-in. -/
def Frame.Fails (f : FanInId) (e : Error) (frame : Frame) : Prop :=
  ∃ rest revokee, frame = .delivering rest revokee (.error e) ∧
    ∃ s ∈ rest, s.listener = .relay f

/-- A move has an error in hand that is to fail a fan-in. -/
def Move.Fails (f : FanInId) (e : Error) (mv : Move) : Prop :=
  (∃ c, mv.control = .call c ∧ c.Fails f e) ∨ ∃ frame ∈ mv.frames, frame.Fails f e

namespace Machine

/-- The cells that a fan-in is still to be registered with. -/
def toWatch (f : FanInId) (m : Machine) : List CellId :=
  m.control.toWatch f ++ m.stack.flatMap (Frame.toWatch f)

/-- An error is on the way to a fan-in. -/
def Fails (f : FanInId) (e : Error) (m : Machine) : Prop :=
  (∃ c, m.control = .call c ∧ c.Fails f e) ∨ ∃ frame ∈ m.stack, frame.Fails f e

/-- The next step makes a fan-in for some cells. -/
def Starts (m : Machine) (cells : List CellId) (k : Continuation) : Prop :=
  m.control = .call (.await cells k) ∧ m.world.firstFailure cells.reverse = none ∧
    cells.all m.world.hasSucceeded = false

end Machine

theorem Listener.relays_iff {f : FanInId} {l : Listener} : l.relays f = true ↔ l = .relay f := by
  cases l <;> simp [relays]

/-! ## Cells to be watched

The cells that a set-up has in hand go from the call to its frame and back. They get there when a fan-in is
made, and are lost only if the set-up is broken off.
-/

/-- Frames that only note where they are watch nothing. -/
theorem Frame.toWatch_of_isOuter {f : FanInId} {frames : List Frame}
    (h : frames.all Frame.isOuter = true) : frames.flatMap (Frame.toWatch f) = [] := by
  refine flatMap_eq_nil_of_isOuter (fun frame outer => ?_) h
  cases frame <;> first | rfl | cases outer

theorem Control.toWatch_of_not_isCall {f : FanInId} {e : Control} (h : e.isCall = false) :
    e.toWatch f = [] := by
  cases e <;> first | rfl | cases h

/-- Operations watch nothing themselves. -/
theorem Operated.toWatch {w : World} {scope : Scope} {op : Op} {mv : Move} (f : FanInId)
    (h : Operated w scope op mv) : mv.toWatch f = [] := by
  cases h with
  | answered _ ends outer =>
      exact List.append_eq_nil_iff.mpr
        ⟨Control.toWatch_of_not_isCall ends, Frame.toWatch_of_isOuter outer⟩
  | @entered _ c _ _ entry outer =>
      refine List.append_eq_nil_iff.mpr ⟨?_, Frame.toWatch_of_isOuter outer⟩
      cases c with
      | subscribe c l => cases l <;> first | rfl | cases entry
      | _ => first | rfl | cases entry
  | @presented _ c _ _ _ _ _ presents outer =>
      refine List.append_eq_nil_iff.mpr ⟨?_, Frame.toWatch_of_isOuter outer⟩
      cases c <;> first | rfl | cases presents
  | latched _ _ outer => exact Frame.toWatch_of_isOuter outer
  | fetching _ outer => exact Frame.toWatch_of_isOuter outer
  | interned _ ends =>
      exact List.append_eq_nil_iff.mpr ⟨Control.toWatch_of_not_isCall ends, rfl⟩
  | froze _ ends => exact List.append_eq_nil_iff.mpr ⟨Control.toWatch_of_not_isCall ends, rfl⟩
  | _ => rfl

/-- Frames that only note where they are have no error in hand. -/
theorem Frame.not_fails_of_isOuter {f : FanInId} {e : Error}
    {frames : List Frame} (h : frames.all Frame.isOuter = true) :
    ¬∃ frame ∈ frames, frame.Fails f e := by
  rintro ⟨frame, hframe, rest, revokee, rfl, -⟩
  cases List.all_eq_true.mp h _ hframe

namespace World

variable {w : World} {f : FanInId} {e : Error}

/-- Only the start of a fan-in adds cells to be watched. -/
theorem toWatch_invoke (h : w.Sound) {call : Call} {c : CellId}
    (hc : c ∈ (w.invoke call).toWatch f) : c ∈ call.toWatch f ∨
      ∃ cells k, w.fanIns.size = f ∧ call = .await cells k ∧ c ∈ cells := by
  have hspec := invoke_spec h call
  generalize w.invoke call = mv at hspec hc
  cases hspec with
  | operated hop =>
      rw [hop.toWatch f] at hc
      cases hc
  | fetchedNew _ _ _ starts => cases starts <;> cases hc
  | awaiting none left =>
      simp [Move.toWatch, Control.toWatch, Call.toWatch] at hc
      exact .inr ⟨_, _, hc.1, rfl, hc.2⟩
  | watchSkipped succeeded =>
      left
      simp [Move.toWatch, Control.toWatch, Call.toWatch] at hc ⊢
      exact ⟨hc.1, .inr hc.2⟩
  | watching left calm =>
      left
      simpa [Move.toWatch, Control.toWatch, Frame.toWatch, Call.toWatch, Listener.relays,
        ← and_or_left] using hc
  | _ => cases hc

/-- Resuming a frame goes on with the cells that it has kept. -/
theorem toWatch_resume (frame : Frame) (r : Result) :
    (w.resume frame r).toWatch f = frame.toWatch f := by
  have hspec := w.resume_spec frame r
  generalize w.resume frame r = mv at hspec
  cases hspec with
  | returned may => cases frame <;> first | rfl | cases may
  | watching => exact List.append_nil _
  | _ => rfl

/-- A set-up that is broken off watches no more cells. -/
theorem toWatch_unwind (frame : Frame) (p : Panic) : (w.unwind frame p).toWatch f = [] := by
  cases frame <;> rfl

/-! ## Errors on their way

An error goes through several hands before it reaches a fan-in. Each lemma says who has it next.
-/

/-- Operations have no error in hand for a fan-in. -/
theorem not_fails_operate {scope : Scope} {op : Op} {mv : Move} (h : Operated w scope op mv) :
    ¬mv.Fails f e := by
  have ends {control : Control} (h : control.isCall = false) :
      ¬∃ c, control = .call c ∧ c.Fails f e := by
    rintro ⟨c, rfl, -⟩
    cases h
  have called {call : Call} (quiet : ¬call.Fails f e) :
      ¬∃ c, Control.call call = .call c ∧ c.Fails f e := by
    rintro ⟨c, hc, hfails⟩
    cases hc
    exact quiet hfails
  cases h with
  | answered _ hends outer => exact not_or.mpr ⟨ends hends, Frame.not_fails_of_isOuter outer⟩
  | entered _ entry outer =>
      refine not_or.mpr ⟨called fun hfails => ?_, Frame.not_fails_of_isOuter outer⟩
      cases hfails <;> cases entry
  | presented _ _ presents outer =>
      refine not_or.mpr ⟨called fun hfails => ?_, Frame.not_fails_of_isOuter outer⟩
      cases hfails <;> cases presents
  | latched _ _ outer | fetching _ outer =>
      refine not_or.mpr ⟨called fun hfails => ?_, Frame.not_fails_of_isOuter outer⟩
      cases hfails
  | interned _ hends => exact not_or.mpr ⟨ends hends, fun h => nomatch h⟩
  | froze _ hends => exact not_or.mpr ⟨ends hends, fun h => nomatch h⟩
  | _ =>
      refine not_or.mpr ⟨?_, fun h => nomatch h⟩
      rintro ⟨c, hc, -⟩
      cases hc

/-- An error gets on its way to a fan-in from a watched cell. -/
theorem fails_invoke (h : w.Sound) {call : Call} (hf : (w.invoke call).Fails f e) :
    call.Fails f e ∨
      (∃ c a, call = .complete c (.error e) a ∧ w.Watched f c ∧
        (w.invoke call).world = w.setCell c ((w.cell c).completed (.error e))) ∨
      ∃ c, call = .subscribe c (.relay f) ∧ (w.cell c).peek = some (.error e) := by
  have hspec := invoke_spec h call
  generalize w.invoke call = mv at hspec hf
  cases hspec with
  | operated hop => exact (not_fails_operate hop hf).elim
  -- A failure begins with the completion of a cell that the fan-in watches, or with the discovery that one
  -- has failed already. All other calls hand errors on.
  | completed pending accepted =>
      rcases hf with ⟨c, hc, hfails⟩ | ⟨frame, hframe, -⟩
      · cases hc
        cases hfails with
        | deliver relay => exact .inr (.inl ⟨_, _, rfl, relay, rfl⟩)
      · cases hframe
  | told stored =>
      rcases hf with ⟨c, hc, hfails⟩ | ⟨frame, hframe, -⟩
      · cases hc
        cases hfails with
        | notify relay =>
            obtain rfl : _ = Listener.relay f := relay
            exact .inr (.inr ⟨_, rfl, stored⟩)
      · cases hframe
  | delivering =>
      left
      rcases hf with ⟨c, hc, hfails⟩ | ⟨frame, hframe, rest, revokee, heq, s, hs, relay⟩
      · cases hc
        cases hfails with
        | notify relay => exact .deliver ⟨_, List.mem_cons_self, relay⟩
      · obtain rfl := List.mem_singleton.mp hframe
        cases heq
        exact .deliver ⟨s, List.mem_cons_of_mem _ hs, relay⟩
  | notifying =>
      left
      rcases hf with ⟨c, hc, hfails⟩ | ⟨frame, hframe, rest, revokee, heq, -⟩
      · rename_i s o
        obtain ⟨ticket, l⟩ := s
        cases hc
        cases hfails with
        | tell => exact .notify rfl
      · obtain rfl := List.mem_singleton.mp hframe
        cases heq
  | signalled =>
      left
      rcases hf with ⟨c, hc, hfails⟩ | ⟨frame, hframe, -⟩
      · rename_i f' o
        cases o with
        | ok v =>
            cases hc
            cases hfails
        | error e' =>
            cases hc
            cases hfails
            exact .tell
      · cases hframe
  | fetchedNew _ _ _ starts =>
      rcases hf with ⟨c, hc, hfails⟩ | ⟨frame, hframe, rest, revokee, heq, -⟩
      · cases hc
        cases starts <;> cases hfails
      · obtain rfl := List.mem_singleton.mp hframe
        cases heq
  | performed =>
      rcases hf with ⟨c, hc, hfails⟩ | ⟨frame, hframe, rest, revokee, heq, -⟩
      · cases hc
        cases hfails
      · subst heq
        simp at hframe
  | _ =>
      rcases hf with ⟨c, hc, hfails⟩ | ⟨frame, hframe, rest, revokee, heq, -⟩
      · cases hc <;> cases hfails
      · subst heq
        simp at hframe

/-- An error goes on its way until it is signalled. -/
theorem fails_progress {call : Call} (hf : call.Fails f e) :
    (w.invoke call).Fails f e ∨ call = .signal f (some e) := by
  cases hf with
  | @deliver ls revokee relay =>
      left
      obtain ⟨s, hs, hrelay⟩ := relay
      cases ls with
      | nil => cases hs
      | cons next rest =>
          rcases List.mem_cons.mp hs with rfl | hs
          · exact .inl ⟨_, rfl, .notify hrelay⟩
          · exact .inr ⟨_, List.mem_singleton.mpr rfl, rest, revokee, rfl, s, hs, hrelay⟩
  | notify relay =>
      refine .inl (.inl ⟨_, rfl, ?_⟩)
      rw [relay]
      exact .tell
  | tell => exact .inl (.inl ⟨_, rfl, .signal⟩)
  | signal => exact .inr rfl

/-- An error that a frame has in hand is handed on when it is resumed. -/
theorem fails_resume {frame : Frame} {r : Result} (hf : frame.Fails f e) :
    (w.resume frame r).Fails f e := by
  obtain ⟨rest, revokee, rfl, relay⟩ := hf
  exact .inl ⟨_, rfl, .deliver relay⟩

/-- Resuming a frame makes no error up. -/
theorem fails_of_resume {frame : Frame} {r : Result} (hf : (w.resume frame r).Fails f e) :
    frame.Fails f e := by
  have hspec := w.resume_spec frame r
  generalize w.resume frame r = mv at hspec hf
  cases hspec with
  | delivering =>
      rcases hf with ⟨c, hc, hfails⟩ | ⟨frame, hframe, -⟩
      · cases hc
        cases hfails with
        | deliver relay => exact ⟨_, _, rfl, relay⟩
      · cases hframe
  | stood =>
      rcases hf with ⟨c, hc, -⟩ | ⟨frame, hframe, hfails⟩
      · cases hc
      · rwa [List.mem_singleton.mp hframe] at hfails
  | _ =>
      rcases hf with ⟨c, hc, hfails⟩ | ⟨frame, hframe, -⟩
      · cases hc <;> cases hfails
      · cases hframe

/-- An error in the hands of a frame is lost when that is unwound. -/
theorem not_fails_unwind (frame : Frame) (p : Panic) : ¬(w.unwind frame p).Fails f e := by
  have hspec := w.unwind_spec frame p
  generalize w.unwind frame p = mv at hspec
  rintro (⟨c, hc, hfails⟩ | ⟨frame, hframe, rest, revokee, heq, -⟩)
  · cases hspec <;> cases hc <;> cases hfails
  · subst heq
    cases hspec <;> simp at hframe

/-! ## Cells that are watched

What becomes of a cell at the step in which a set-up takes it up: it is registered with, or it was completed
in the meantime.
-/

/-- A cell that is to be watched goes on its way, until it has succeeded, or has a listener for the fan-in, or
an error is on the way. -/
theorem toWatch_progress (h : w.Sound) {call : Call} {c : CellId} (hc : c ∈ call.toWatch f)
    (calm : (w.fanIn f).failed = false) (there : c < w.cells.size) :
    c ∈ (w.invoke call).toWatch f ∨ w.hasSucceeded c = true ∨ (w.invoke call).world.Watched f c ∨
      ∃ e, (w.invoke call).Fails f e := by
  have hspec := invoke_spec h call
  cases call with
  -- The next cell is skipped if it has succeeded, and watched otherwise. A fan-in that has failed would
  -- stop here.
  | watch f' cells =>
      obtain ⟨hf, hmem⟩ : f' = f ∧ c ∈ cells := by
        simpa [Call.toWatch] using hc
      subst hf
      generalize w.invoke (.watch f' cells) = mv at hspec
      cases hspec with
      | returned may => cases may
      | watched => cases hmem
      | watchSkipped succeeded =>
          rcases List.mem_cons.mp hmem with rfl | hmem
          · exact .inr (.inl succeeded)
          · left
            simpa [Move.toWatch, Control.toWatch, Call.toWatch] using hmem
      | watchStopped _ failed => exact nomatch failed.symm.trans calm
      | watching =>
          left
          simpa [Move.toWatch, Control.toWatch, Call.toWatch, Frame.toWatch, Listener.relays] using hmem
  -- The relay is registered with the cell, or it is told at once.
  | subscribe d l =>
      obtain ⟨hrelay, rfl⟩ : l.relays f = true ∧ c = d := by
        simpa [Call.toWatch] using hc
      obtain rfl := Listener.relays_iff.mp hrelay
      generalize w.invoke (.subscribe c (.relay f)) = mv at hspec
      cases hspec with
      | returned may => cases may
      | registered pending =>
          right; right; left
          refine ⟨⟨w.freshTicket, .relay f⟩, ?_, rfl⟩
          show _ ∈ (World.cell _ c).listeners.toList
          rw [cell_setCell, if_pos ⟨rfl, there⟩]
          show _ ∈ ((w.cell c).listened ⟨w.freshTicket, .relay f⟩).listeners.toList
          rw [(h c).toList_listened]
          exact List.mem_append_right _ (List.mem_singleton.mpr rfl)
      | @told _ _ o stored =>
          cases o with
          | ok v =>
              refine .inr (.inl ?_)
              simp [hasSucceeded, Cell.value?, stored]
          | error e => exact .inr (.inr (.inr ⟨e, .inl ⟨_, rfl, .notify rfl⟩⟩))
  | _ => cases hc

end World

/-! ## Machines

The same for whole steps, in which a move and the frames below it are looked at together.
-/

namespace Machine

variable {m : Machine} {f : FanInId} {c : CellId} {e : Error}

theorem toWatch_ofMove (mv : Move) (stack : List Frame) :
    (ofMove mv stack).toWatch f = mv.toWatch f ++ stack.flatMap (Frame.toWatch f) := by
  simp [toWatch, ofMove, Move.toWatch]

/-- An error is in the hands of what a move does, or of what waits below. -/
theorem fails_ofMove {mv : Move} {stack : List Frame} :
    (ofMove mv stack).Fails f e ↔ mv.Fails f e ∨ ∃ frame ∈ stack, frame.Fails f e := by
  simp only [Fails, ofMove, Move.Fails, List.mem_append, or_and_right, exists_or]
  exact or_assoc.symm

/-- A step adds cells to be watched only by making a fan-in. -/
theorem step_toWatch (h : m.world.Sound) (there : f < m.world.fanIns.size)
    (hc : c ∈ m.step.toWatch f) : c ∈ m.toWatch f := by
  obtain ⟨w, control, stack⟩ := m
  cases control with
  | call call =>
      have hc : c ∈ (ofMove (w.invoke call) stack).toWatch f := hc
      rw [toWatch_ofMove] at hc
      rcases List.mem_append.mp hc with hc | hc
      · rcases World.toWatch_invoke h hc with hc | ⟨_, _, hf, -⟩
        · exact List.mem_append_left _ hc
        · exact absurd hf.symm (Nat.ne_of_lt there)
      · exact List.mem_append_right _ hc
  | ret r => cases stack with
    | nil => exact hc
    | cons frame stack =>
        have hc : c ∈ (ofMove (w.resume frame r) stack).toWatch f := hc
        rw [toWatch_ofMove, World.toWatch_resume] at hc
        exact hc
  | raise p => cases stack with
    | nil => exact hc
    | cons frame stack =>
        have hc : c ∈ (ofMove (w.unwind frame p) stack).toWatch f := hc
        rw [toWatch_ofMove, World.toWatch_unwind] at hc
        exact List.mem_append_right _ (List.mem_append_right _ hc)

/-- An error gets on its way to a fan-in from a watched cell. -/
theorem step_fails (h : m.world.Sound) (hf : m.step.Fails f e) :
    m.Fails f e ∨ (∃ c, m.world.Watched f c ∧ (m.step.world.cell c).peek = some (.error e)) ∨
      ∃ c ∈ m.toWatch f, (m.step.world.cell c).peek = some (.error e) := by
  have hstep := step_cell h
  obtain ⟨w, control, stack⟩ := m
  cases control with
  | call call =>
      rcases fails_ofMove.mp (show (ofMove (w.invoke call) stack).Fails f e from hf) with hf | hf
      · rcases World.fails_invoke h hf with hf | ⟨c, a, rfl, hwatched, hworld⟩ | ⟨c, rfl, hpeek⟩
        · exact .inl (.inl ⟨call, rfl, hf⟩)
        · refine .inr (.inl ⟨c, hwatched, ?_⟩)
          obtain ⟨s, hs, -⟩ := hwatched
          show ((w.invoke (.complete c (.error e) a)).world.cell c).peek = _
          rw [hworld, World.cell_setCell_self (World.lt_of_mem_listeners hs),
            Cell.peek_completed]
        · refine .inr (.inr ⟨c, ?_, (hstep c).peek hpeek⟩)
          simp [toWatch, Control.toWatch, Call.toWatch, Listener.relays]
      · exact .inl (.inr hf)
  | ret r => cases stack with
    | nil => exact .inl hf
    | cons frame stack =>
        rcases fails_ofMove.mp (show (ofMove (w.resume frame r) stack).Fails f e from hf) with hf | hf
        · exact .inl (.inr ⟨frame, List.mem_cons_self, World.fails_of_resume hf⟩)
        · obtain ⟨frame', hframe, hfails⟩ := hf
          exact .inl (.inr ⟨frame', List.mem_cons_of_mem _ hframe, hfails⟩)
  | raise p => cases stack with
    | nil => exact .inl hf
    | cons frame stack =>
        rcases fails_ofMove.mp (show (ofMove (w.unwind frame p) stack).Fails f e from hf) with hf | hf
        · exact (World.not_fails_unwind frame p hf).elim
        · obtain ⟨frame', hframe, hfails⟩ := hf
          exact .inl (.inr ⟨frame', List.mem_cons_of_mem _ hframe, hfails⟩)

/-- A cell gets watched only if it was to be watched. -/
theorem step_watched (h : m.world.Sound) (hc : m.step.world.Watched f c) :
    m.world.Watched f c ∨ c ∈ m.toWatch f := by
  obtain ⟨s, hs, hrelay⟩ := hc
  have hbecomes := step_cell h c
  generalize m.step.world.cell c = cell at hs hbecomes
  cases hbecomes with
  | kept => exact .inl ⟨s, hs, hrelay⟩
  | allocated _ new =>
      rw [new.toList_listeners] at hs
      cases hs
  | completed => cases hs
  | claimed => exact .inl ⟨s, hs, hrelay⟩
  | linked => exact .inl ⟨s, hs, hrelay⟩
  | marked => exact .inl ⟨s, hs, hrelay⟩
  | listened call =>
      rw [(h c).toList_listened] at hs
      rcases List.mem_append.mp hs with hs | hs
      · exact .inl ⟨s, hs, hrelay⟩
      · obtain rfl := List.mem_singleton.mp hs
        obtain rfl : _ = Listener.relay f := hrelay
        right
        rw [toWatch, call]
        simp [Control.toWatch, Call.toWatch, Listener.relays]

/-- A watched cell stays watched until it is completed. Then it has succeeded, or its error is on the way. -/
theorem watched_progress (h : m.world.Sound) (hc : m.world.Watched f c) :
    m.step.world.Watched f c ∨ m.step.world.hasSucceeded c = true ∨ ∃ e, m.step.Fails f e := by
  obtain ⟨s, hs, hrelay⟩ := hc
  have hbecomes := step_cell h c
  generalize hgen : m.step.world.cell c = cell at hbecomes
  have still (hlisteners : cell.listeners = (m.world.cell c).listeners) :
      m.step.world.Watched f c := by
    refine ⟨s, ?_, hrelay⟩
    rw [hgen, hlisteners]
    exact hs
  cases hbecomes with
  | kept => exact .inl (still rfl)
  | claimed => exact .inl (still rfl)
  | linked => exact .inl (still rfl)
  | marked => exact .inl (still rfl)
  | allocated fresh => exact absurd fresh (Nat.ne_of_lt (World.lt_of_mem_listeners hs))
  | listened call =>
      refine .inl ⟨s, ?_, hrelay⟩
      rw [hgen, (h c).toList_listened]
      exact List.mem_append_left _ hs
  -- Only the completion of the cell takes the relay from it: with a value the cell has succeeded, with an
  -- error the failure is on its way.
  | @completed o a call there pending accepted =>
      right
      cases o with
      | ok v =>
          left
          rw [World.hasSucceeded, hgen, Cell.value?, Cell.peek_completed]
          rfl
      | error e =>
          have hcontrol : m.step.control = .call (.deliver (m.world.cell c).listeners.toList
              (m.world.cell c).revokee (.error e)) := by
            have hrefusal : m.world.refusal? c a = none := by
              simp [World.refusal?, pending, accepted]
            rw [step_call call, World.complete_of_accepted h hrefusal]
            rfl
          exact .inr ⟨e, .inl ⟨_, hcontrol, .deliver ⟨s, hs, hrelay⟩⟩⟩

end Machine

end RequestGraph
