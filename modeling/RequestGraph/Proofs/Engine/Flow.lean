import RequestGraph.Proofs.Engine.Cells

/-!
# Where listeners are

A registered listener waits with its cell until the cell is completed; then it is on its way, among those
that are still to be told, until it is told. Listeners are neither made up nor doubled on the way, and
they get lost in one case only, when a panic comes through to a delivery:

    those outstanding after a step, with those told and lost by it
      =  those outstanding before, with the one registered by it        up to order
-/

namespace RequestGraph

/-- The listeners that wait with cells. -/
def World.listeners (w : World) : List Subscription :=
  w.cells.items.toList.flatMap fun cell => cell.listeners.toList

/-- The listeners that are about to be told. -/
def Control.subscriptions : Control → List Subscription
  | .call (.deliver listeners _ _) => listeners
  | .call (.notify subscription _) => [subscription]
  | _ => []

/-- The listeners that are told later. -/
def Frame.subscriptions : Frame → List Subscription
  | .delivering rest _ _ => rest
  | _ => []

/-- The listeners that a move puts on their way. -/
def Move.subscriptions (mv : Move) : List Subscription :=
  mv.control.subscriptions ++ mv.frames.flatMap Frame.subscriptions

namespace Machine

/-- The listeners that are registered and have not been told. -/
def outstanding (m : Machine) : List Subscription :=
  m.world.listeners ++ (m.control.subscriptions ++ m.stack.flatMap Frame.subscriptions)

/-- The listener that the next step registers, if its cell is there. -/
def registered (m : Machine) : List Subscription :=
  match m.control with
  | .call (.subscribe c l) => if c < m.world.cells.size then [⟨m.world.freshTicket, l⟩] else []
  | _ => []

/-- The listener that the next step tells. -/
def told (m : Machine) : List Subscription :=
  match m.control with
  | .call (.notify s _) => [s]
  | _ => []

/-- The listeners that the next step leaves without being told. -/
def lost (m : Machine) : List Subscription :=
  match m.control, m.stack with
  | .raise _, frame :: _ => frame.subscriptions
  | _, _ => []

end Machine

/-! ## The listeners of all cells

The listeners of a world are those of its cells put together. A change of one cell replaces its part, and
what the others contribute is the same up to order.
-/

/-- What one entry contributes to a concatenation can be split off, and replaced. -/
theorem Arena.perm_flatMap_set {α β : Type} [Inhabited α] (a : Arena α) {i : Nat} (hi : i < a.size)
    (f : α → List β) :
    ∃ rest, (a.items.toList.flatMap f).Perm (f (a.get i) ++ rest) ∧
      ∀ x, ((a.set i x).items.toList.flatMap f).Perm (f x ++ rest) := by
  have hi' : i < a.items.toList.length := hi
  have hset (x : α) : (a.set i x).items.toList =
      a.items.toList.take i ++ x :: a.items.toList.drop (i + 1) := by
    rw [set, modify, Array.toList_modify, List.modify_eq_take_cons_drop hi']
  have hperm (x : α) : ((a.set i x).items.toList.flatMap f).Perm
      (f x ++ (a.items.toList.take i ++ a.items.toList.drop (i + 1)).flatMap f) := by
    rw [hset, ← List.flatMap_cons]
    exact List.Perm.flatMap_right f List.perm_middle
  refine ⟨_, ?_, hperm⟩
  have hself := hperm (a.get i)
  rwa [set_get_self] at hself

namespace World

variable {w : World}

/-- What the listeners of a cell are to those of all cells. -/
theorem perm_listeners_setCell {c : CellId} (hc : c < w.cells.size) :
    ∃ rest, w.listeners.Perm ((w.cell c).listeners.toList ++ rest) ∧
      ∀ cell, (w.setCell c cell).listeners.Perm (cell.listeners.toList ++ rest) :=
  w.cells.perm_flatMap_set hc _

/-- A new cell that nobody listens to adds no listener. -/
theorem listeners_addCell {cell : Cell Subscription} (h : cell.listeners.toList = []) :
    (w.addCell cell).listeners = w.listeners := by
  simp [listeners, addCell, Arena.push, h]

/-- Writing to a cell that is not there changes nothing. -/
theorem setCell_of_size_le {c : CellId} (hc : w.cells.size ≤ c) (cell : Cell Subscription) :
    w.setCell c cell = w := by
  rw [setCell, Arena.set_of_size_le _ hc]

/-- A change of a cell that leaves its listeners alone. -/
theorem perm_listeners_set {c : CellId} {cell : Cell Subscription}
    (h : cell.listeners = (w.cell c).listeners) :
    (w.setCell c cell).listeners.Perm w.listeners := by
  by_cases hc : c < w.cells.size
  · obtain ⟨rest, hbefore, hafter⟩ := perm_listeners_setCell hc
    exact (h ▸ hafter cell).trans hbefore.symm
  · rw [setCell_of_size_le (Nat.le_of_not_lt hc)]

/-- A cell that is not there has no listeners. -/
theorem lt_of_mem_listeners {c : CellId} {s : Subscription}
    (h : s ∈ (w.cell c).listeners.toList) : c < w.cells.size := by
  by_contra hc
  rw [cell_of_size_le (Nat.le_of_not_lt hc)] at h
  cases h

/-- The listeners of a cell are among those that wait. -/
theorem mem_listeners {c : CellId} {s : Subscription} (h : s ∈ (w.cell c).listeners.toList) :
    s ∈ w.listeners := by
  obtain ⟨rest, hbefore, -⟩ := perm_listeners_setCell (lt_of_mem_listeners h)
  exact hbefore.mem_iff.mpr (List.mem_append_left _ h)

/-- A listener that waits does so with some cell. -/
theorem exists_of_mem_listeners {s : Subscription} (h : s ∈ w.listeners) :
    ∃ c, s ∈ (w.cell c).listeners.toList := by
  obtain ⟨cell, hcell, hs⟩ := List.mem_flatMap.mp h
  obtain ⟨c, hc, rfl⟩ := List.mem_iff_getElem.mp hcell
  refine ⟨c, ?_⟩
  have hget : w.cell c = w.cells.items.toList[c] := by
    rw [cell, Arena.get, ← Array.getElem?_toList, List.getElem?_eq_getElem hc]
    rfl
  rwa [hget]

end World

/-! ## Calls that leave listeners where they are

Only registrations, completions and deliveries move listeners. Of the other moves it is enough to know that
they put none on their way.
-/

/-- The calls that take listeners from one place to another. -/
def Call.movesListeners : Call → Bool
  | .complete .. | .deliver .. | .subscribe .. => true
  | _ => false

/-- Frames that only note where they are keep no listeners. -/
theorem Frame.subscriptions_of_isOuter {frames : List Frame}
    (h : frames.all Frame.isOuter = true) : frames.flatMap Frame.subscriptions = [] := by
  refine flatMap_eq_nil_of_isOuter (fun frame outer => ?_) h
  cases frame <;> first | rfl | cases outer

theorem Control.subscriptions_of_not_isCall {e : Control} (h : e.isCall = false) :
    e.subscriptions = [] := by
  cases e <;> first | rfl | cases h

theorem Call.subscriptions_of_isEntry {c : Call} (h : c.isEntry = true) :
    (Control.call c).subscriptions = [] := by
  cases c <;> first | rfl | cases h

/-- Operations deliver nothing themselves. -/
theorem Operated.subscriptions {w : World} {scope : Scope} {op : Op} {mv : Move}
    (h : Operated w scope op mv) : mv.subscriptions = [] := by
  cases h with
  | answered _ ends outer =>
    exact List.append_eq_nil_iff.mpr
      ⟨Control.subscriptions_of_not_isCall ends, Frame.subscriptions_of_isOuter outer⟩
  | entered _ entry outer =>
    exact List.append_eq_nil_iff.mpr
      ⟨Call.subscriptions_of_isEntry entry, Frame.subscriptions_of_isOuter outer⟩
  | @presented _ c _ _ _ _ _ presents outer =>
    refine List.append_eq_nil_iff.mpr ⟨?_, Frame.subscriptions_of_isOuter outer⟩
    cases c <;> first | rfl | cases presents
  | latched _ _ outer => exact Frame.subscriptions_of_isOuter outer
  | fetching _ outer => exact Frame.subscriptions_of_isOuter outer
  | interned _ ends =>
    exact List.append_eq_nil_iff.mpr ⟨Control.subscriptions_of_not_isCall ends, rfl⟩
  | froze _ ends =>
    exact List.append_eq_nil_iff.mpr ⟨Control.subscriptions_of_not_isCall ends, rfl⟩
  | _ => rfl

namespace World

variable {w : World}

/-- A call that moves no listeners leaves none on their way. -/
theorem subscriptions_invoke (h : w.Sound) {c : Call} (hc : c.movesListeners = false) :
    (w.invoke c).subscriptions = [] := by
  have hspec := invoke_spec h c
  generalize w.invoke c = mv at hspec
  cases hspec with
  | completed | delivering | told => exact nomatch hc
  | operated hop => exact hop.subscriptions
  | fetchedNew _ _ _ starts => cases starts <;> rfl
  | _ => rfl

/-- Resuming a frame puts on their way those that it keeps. -/
theorem subscriptions_resume (frame : Frame) (r : Result) :
    (w.resume frame r).subscriptions = frame.subscriptions := by
  have hspec := w.resume_spec frame r
  generalize w.resume frame r = mv at hspec
  cases hspec with
  | returned may => cases frame <;> first | rfl | cases may
  | delivering => exact List.append_nil _
  | _ => rfl

/-- A panic that comes through to a delivery drops those that it keeps. -/
theorem subscriptions_unwind (frame : Frame) (p : Panic) :
    (w.unwind frame p).subscriptions = [] := by
  cases frame <;> rfl

end World

/-! ## The law

First for a call alone, then for a step, where the listeners that are kept by the frames below count as
well.
-/

namespace Machine

open scoped List

variable {m : Machine}

/-- A call that is neither a completion nor a registration leaves every listener with its cell. -/
theorem CellChange.perm_listeners {cells : Arena (Cell Subscription)} (h : m.CellChange cells)
    {c : Call} (call : m.control = .call c) (hc : c.movesListeners = false) {w : World}
    (hw : w.cells = cells) : w.listeners.Perm m.world.listeners := by
  have moves {c' : Call} (call' : m.control = .call c') (hc' : c'.movesListeners = true) : False := by
    have : c = c' := Control.call.inj (call.symm.trans call')
    rw [this, hc'] at hc
    cases hc
  have lift (w' : World) (hw' : w'.cells = cells) (hp : w'.listeners.Perm m.world.listeners) :
      w.listeners.Perm m.world.listeners := by
    rw [World.listeners, hw, ← hw']
    exact hp
  cases h with
  | kept => exact lift m.world rfl (List.Perm.refl _)
  | @allocated cell new =>
    refine lift (m.world.addCell cell) rfl ?_
    rw [World.listeners_addCell new.toList_listeners]
  | completed call' => exact (moves call' rfl).elim
  | listened call' => exact (moves call' rfl).elim
  | @claimed c => exact lift (m.world.setCell c _) rfl (World.perm_listeners_set rfl)
  | @linked c => exact lift (m.world.setCell c _) rfl (World.perm_listeners_set rfl)
  | @marked c => exact lift (m.world.setCell c _) rfl (World.perm_listeners_set rfl)

/-- What a call does to the listeners, apart from the frames below it. -/
def CallFlow (m : Machine) (mv : Move) : Prop :=
  (mv.world.listeners ++ (mv.subscriptions ++ m.told)).Perm
    (m.world.listeners ++ (m.control.subscriptions ++ m.registered))

/-- Completing moves the listeners of the cell from there to the delivery. -/
theorem flow_complete (h : m.world.Sound) {c : CellId} {o : Outcome} {a : Authority}
    (call : m.control = .call (.complete c o a)) : m.CallFlow (m.world.complete c o a) := by
  have rest : m.told = [] ∧ m.control.subscriptions = [] ∧ m.registered = [] := by
    simp [told, registered, call, Control.subscriptions]
  obtain ⟨htold, hcontrol, hregistered⟩ := rest
  rw [CallFlow, htold, hcontrol, hregistered, List.append_nil, List.append_nil, List.append_nil,
    World.complete_eq h]
  split
  · exact .of_eq (List.append_nil _)
  · cases hv : Cell.violation? (m.world.cell c).owner a with
    | some v => cases v <;> exact .of_eq (List.append_nil _)
    | none =>
      show ((m.world.setCell c _).listeners ++ ((m.world.cell c).listeners.toList ++ [])).Perm _
      rw [List.append_nil]
      by_cases hc : c < m.world.cells.size
      · obtain ⟨others, hbefore, hafter⟩ := World.perm_listeners_setCell hc
        calc (m.world.setCell c _).listeners ++ (m.world.cell c).listeners.toList
          _ ~ ([] ++ others) ++ (m.world.cell c).listeners.toList := (hafter _).append_right _
          _ ~ (m.world.cell c).listeners.toList ++ others := List.perm_append_comm
          _ ~ m.world.listeners := hbefore.symm
      · have hsize := Nat.le_of_not_lt hc
        rw [World.setCell_of_size_le hsize, World.cell_of_size_le hsize]
        exact .of_eq (List.append_nil _)

/-- Subscribing adds one listener, to the cell or to those on their way. -/
theorem flow_subscribe (h : m.world.Sound) {c : CellId} {l : Listener}
    (call : m.control = .call (.subscribe c l)) : m.CallFlow (m.world.subscribe c l) := by
  have rest : m.told = [] ∧ m.control.subscriptions = [] := by
    simp [told, call, Control.subscriptions]
  obtain ⟨htold, hcontrol⟩ := rest
  have hregistered : m.registered =
      if c < m.world.cells.size then [⟨m.world.freshTicket, l⟩] else [] := by
    rw [registered, call]
  rw [CallFlow, htold, hcontrol, hregistered, List.append_nil, List.nil_append, World.subscribe_eq h]
  by_cases hc : c < m.world.cells.size
  · rw [if_pos hc]
    cases (m.world.cell c).peek with
    | some o => exact .refl _
    -- What the other cells contribute can be split off before and after the change.
    | none =>
      obtain ⟨others, hbefore, hafter⟩ := World.perm_listeners_setCell hc
      show ((m.world.setCell c _).listeners ++ []).Perm _
      calc (m.world.setCell c _).listeners ++ []
        _ ~ ((m.world.cell c).listeners.toList ++ [⟨m.world.freshTicket, l⟩]) ++ others := by
          rw [List.append_nil, ← (h c).toList_listened]
          exact hafter _
        _ ~ ((m.world.cell c).listeners.toList ++ others) ++ [⟨m.world.freshTicket, l⟩] := by
          rw [List.append_assoc, List.append_assoc]
          exact List.perm_append_comm.append_left _
        _ ~ m.world.listeners ++ [⟨m.world.freshTicket, l⟩] := hbefore.symm.append_right _
  · have hsize := Nat.le_of_not_lt hc
    rw [if_neg hc, World.cell_of_size_le hsize]
    show ((m.world.setCell c _).listeners ++ []).Perm _
    rw [World.setCell_of_size_le hsize]

/-- Whatever is called, no listener is made up, doubled or lost. -/
theorem flow_invoke (h : m.world.Sound) {c : Call} (call : m.control = .call c) :
    m.CallFlow (m.world.invoke c) := by
  cases hc : c.movesListeners with
  | false =>
    -- Only a call of `notify` has a listener, and that one is told.
    have hrest : m.told = m.control.subscriptions ∧ m.registered = [] := by
      simp only [told, registered, call, Control.subscriptions]
      cases c <;> first | exact ⟨rfl, rfl⟩ | cases hc
    rw [CallFlow, hrest.1, hrest.2, World.subscriptions_invoke h hc, List.append_nil]
    exact ((cells_invoke h call).perm_listeners call hc rfl).append_right _
  | true =>
    cases c with
    | complete => exact flow_complete h call
    | subscribe => exact flow_subscribe h call
    | deliver ls revokee o =>
      have rest : m.told = [] ∧ m.control.subscriptions = ls ∧ m.registered = [] := by
        simp [told, registered, call, Control.subscriptions]
      rw [CallFlow, rest.1, rest.2.1, rest.2.2]
      cases ls with
      | nil => cases revokee <;> exact .refl _
      | cons s rest => exact .of_eq (by simp [World.invoke, World.deliver, World.call,
          Move.subscriptions, Control.subscriptions, Frame.subscriptions])
    | _ => cases hc

/-- Listeners are neither made up nor doubled, and only get lost where a panic comes through. -/
theorem step_outstanding (h : m.world.Sound) :
    (m.step.outstanding ++ (m.told ++ m.lost)).Perm (m.outstanding ++ m.registered) := by
  obtain ⟨w, control, stack⟩ := m
  -- What waits below is the same before and after the step.
  have below (mv : Move) (stack : List Frame) : (ofMove mv stack).outstanding =
      mv.world.listeners ++ (mv.subscriptions ++ stack.flatMap Frame.subscriptions) := by
    simp [outstanding, ofMove, Move.subscriptions]
  have listeners_eq {w' : World} (hcore : w'.core = w.core) : w'.listeners = w.listeners := by
    have : w'.cells = w.cells := congrArg Core.cells hcore
    rw [World.listeners, this, World.listeners]
  cases control with
  | call c =>
    have flow : ((w.invoke c).world.listeners ++ ((w.invoke c).subscriptions ++ _)) ~ _ :=
      flow_invoke (m := ⟨w, .call c, stack⟩) h rfl
    generalize hmv : w.invoke c = mv at flow
    show ((ofMove (w.invoke c) stack).outstanding ++ (_ ++ [])) ~ _
    rw [below, hmv, List.append_nil]
    calc mv.world.listeners ++ (mv.subscriptions ++ stack.flatMap Frame.subscriptions) ++ _
      _ ~ (mv.world.listeners ++ (mv.subscriptions ++ _)) ++ stack.flatMap Frame.subscriptions := by
        simp only [List.append_assoc]
        exact (List.perm_append_comm.append_left _).append_left _
      _ ~ (w.listeners ++ (_ ++ _)) ++ stack.flatMap Frame.subscriptions := flow.append_right _
      _ ~ _ := by
        simp only [outstanding, List.append_assoc]
        exact (List.perm_append_comm.append_left _).append_left _
  | ret r => cases stack with
    | nil => exact .refl _
    | cons frame stack =>
      show ((ofMove (w.resume frame r) stack).outstanding ++ []) ~ _
      rw [below, World.subscriptions_resume, listeners_eq (World.core_resume w frame r)]
      exact .of_eq (by simp [outstanding, registered, Control.subscriptions])
  | raise p => cases stack with
    | nil => exact .refl _
    | cons frame stack =>
      show ((ofMove (w.unwind frame p) stack).outstanding ++ frame.subscriptions) ~ _
      rw [below, World.subscriptions_unwind, listeners_eq (World.core_unwind w frame p)]
      simp only [outstanding, registered, Control.subscriptions, List.nil_append, List.append_nil,
        List.flatMap_cons, List.append_assoc]
      exact List.perm_append_comm.append_left _

end Machine

end RequestGraph
