import RequestGraph.Proofs.Engine.Ending
import RequestGraph.Proofs.Engine.Flow
import RequestGraph.Proofs.Engine.History

/-!
# Registrations

The listeners of a pending cell are those that were registered with it, in that order, and its revokee is
the cell that was linked last. Each registration has a ticket of its own. So a listener is told or lost
at most once, and whoever is on the way to be told was registered with a cell that holds the outcome:

    (tickets of those told, lost or outstanding) has no duplicates
-/

namespace RequestGraph

namespace Machine

/-- The listener that the next step registers with a cell, if the cell is there. -/
def registers (m : Machine) (c : CellId) : List Subscription :=
  match m.control with
  | .call (.subscribe d l) =>
    if d = c ∧ c < m.world.cells.size then [⟨m.world.freshTicket, l⟩] else []
  | _ => []

/-- The cell that the next step links to a cell, if that one is there. -/
def links (m : Machine) (c : CellId) : Option CellId :=
  match m.control with
  | .call (.link d dependent) => if d = c ∧ c < m.world.cells.size then some dependent else none
  | _ => none

end Machine

/-- The listeners that were registered with a cell, first registered first. -/
def registrations (c : CellId) (past : List Machine) : List Subscription :=
  past.reverse.flatMap (·.registers c)

/-- The cell that was linked to a cell last. -/
def linked (c : CellId) (past : List Machine) : Option CellId := past.findSome? (·.links c)

/-- The listeners that have been told or lost so far. -/
def spent (past : List Machine) : List Subscription := past.flatMap fun x => x.told ++ x.lost

/-- The listeners on their way to be told, with what they are told. -/
def Control.inFlight : Control → List (Subscription × Outcome)
  | .call (.deliver listeners _ o) => listeners.map (·, o)
  | .call (.notify s o) => [(s, o)]
  | _ => []

/-- The listeners that are told later, with what they are told. -/
def Frame.inFlight : Frame → List (Subscription × Outcome)
  | .delivering rest _ o => rest.map (·, o)
  | _ => []

/-- The listeners on their way to be told, with what they are told. -/
def Machine.inFlight (m : Machine) : List (Subscription × Outcome) :=
  m.control.inFlight ++ m.stack.flatMap Frame.inFlight

theorem Control.map_fst_inFlight (e : Control) : e.inFlight.map Prod.fst = e.subscriptions := by
  cases e with
  | call c => cases c <;> simp [inFlight, subscriptions, Function.comp_def]
  | _ => rfl

theorem Frame.map_fst_inFlight (f : Frame) : f.inFlight.map Prod.fst = f.subscriptions := by
  cases f <;> simp [inFlight, subscriptions, Function.comp_def]

theorem Control.inFlight_eq_nil {e : Control} (h : e.subscriptions = []) : e.inFlight = [] :=
  List.map_eq_nil_iff.mp (e.map_fst_inFlight.trans h)

theorem Frame.inFlight_eq_nil {f : Frame} (h : f.subscriptions = []) : f.inFlight = [] :=
  List.map_eq_nil_iff.mp (f.map_fst_inFlight.trans h)

/-! ## Tickets

Tickets go up with every registration, so a ticket tells its listener from all others, at any time.
-/

namespace Machine

variable {m : Machine}

/-- A ticket is handed out exactly by a registration. -/
theorem freshTicket_step (h : m.world.Sound) : m.step.world.freshTicket =
    match m.control with
    | .call (.subscribe ..) => m.world.freshTicket + 1
    | _ => m.world.freshTicket := by
  have lift {w : World} {core : Core} (hcore : w.core = core) :
      w.freshTicket = core.freshTicket := congrArg Core.freshTicket hcore
  obtain ⟨w, control, stack⟩ := m
  cases control with
  | call c =>
      have hspec := World.invoke_spec h c
      show (w.invoke c).world.freshTicket = _
      generalize w.invoke c = mv at hspec
      cases hspec with
      | operated hop =>
          cases hop with
          | answered core | entered core | presented core | allocated _ core | claimed _ _ core
          | labelled core | latched _ core | interned core | resolved core | fetching core
          | opened _ _ core | froze _ _ core => exact lift core
      | returned may core => cases c <;> first | exact lift core | cases may
      | heard core | sunk _ core | joined core | performed core | performedQueued core
      | jobStarted core | drained core | worked core => exact lift core
      | nodeStarted _ _ core => exact lift core
      | fetchedNew _ _ _ _ core => exact lift core
      | _ => rfl
  | ret r => cases stack with
    | nil => rfl
    | cons frame stack => exact lift (World.core_resume w frame r)
  | raise p => cases stack with
    | nil => rfl
    | cons frame stack => exact lift (World.core_unwind w frame p)

/-- Tickets go up. -/
theorem freshTicket_le_step (h : m.world.Sound) :
    m.world.freshTicket ≤ m.step.world.freshTicket := by
  rw [freshTicket_step h]
  split
  · exact Nat.le_succ _
  · exact Nat.le_refl _

/-- A listener is registered with a cell by the call to do so, under the next ticket. -/
theorem mem_registers {c : CellId} {s : Subscription} : s ∈ m.registers c ↔
    m.control = .call (.subscribe c s.listener) ∧ c < m.world.cells.size ∧
      s.ticket = m.world.freshTicket := by
  unfold registers
  constructor
  · intro hs
    split at hs
    · next d l call =>
        split at hs
        · next hd =>
            obtain rfl := List.mem_singleton.mp hs
            exact ⟨hd.1 ▸ call, hd.2, rfl⟩
        · cases hs
    · cases hs
  · rintro ⟨call, there, ticket⟩
    simp [call, there, ← ticket]

/-- A listener gets the next ticket when it is registered. -/
theorem ticket_of_registers {c : CellId} {s : Subscription} (hs : s ∈ m.registers c) :
    s.ticket = m.world.freshTicket ∧ ∃ l, m.control = .call (.subscribe c l) := by
  obtain ⟨call, -, ticket⟩ := mem_registers.mp hs
  exact ⟨ticket, _, call⟩

/-- Registering with one cell is registering. -/
theorem registered_of_registers {c : CellId} {s : Subscription} (hs : s ∈ m.registers c) :
    s ∈ m.registered := by
  obtain ⟨call, there, ticket⟩ := mem_registers.mp hs
  simp [registered, call, there, ← ticket]

/-- Only a subscription gives out a ticket. -/
theorem ticket_of_registered {s : Subscription} (hs : s ∈ m.registered) :
    s.ticket = m.world.freshTicket ∧ ∃ c l, m.control = .call (.subscribe c l) := by
  unfold registered at hs
  split at hs
  · next c l call =>
      split at hs
      · obtain rfl := List.mem_singleton.mp hs
        exact ⟨rfl, c, l, call⟩
      · cases hs
  · cases hs

/-- A step registers one listener at most. -/
theorem nodup_registered (m : Machine) : (m.registered.map Subscription.ticket).Nodup := by
  unfold registered
  split
  · split <;> simp
  · exact .nil

/-- A step adds to the listeners of a pending cell the one that it registers. -/
theorem listeners_step (h : m.world.Sound) {c : CellId}
    (hp : (m.step.world.cell c).isRealized = false) :
    (m.step.world.cell c).listeners.toList =
      (m.world.cell c).listeners.toList ++ m.registers c := by
  have hpending := pending_of_step h hp
  -- Only a subscription to this very cell can add to its listeners; every other change of a pending cell
  -- leaves them as they are.
  by_cases hreg : ∃ l, m.control = .call (.subscribe c l) ∧ c < m.world.cells.size
  · obtain ⟨l, call, there⟩ := hreg
    have hregisters : m.registers c = [⟨m.world.freshTicket, l⟩] := by
      simp [registers, call, there]
    rw [hregisters, ← (h c).toList_listened]
    obtain ⟨w, control, stack⟩ := m
    obtain rfl : control = .call (.subscribe c l) := call
    show ((w.subscribe c l).world.cell c).listeners.toList = _
    rw [World.subscribe_eq h, Cell.peek_of_pending hpending]
    show ((World.setCell _ c _).cell c).listeners.toList = _
    rw [World.cell_setCell, if_pos ⟨rfl, there⟩]
  · have hregisters : m.registers c = [] := by
      refine List.eq_nil_iff_forall_not_mem.mpr fun s hs => hreg ?_
      obtain ⟨call, there, -⟩ := mem_registers.mp hs
      exact ⟨s.listener, call, there⟩
    rw [hregisters, List.append_nil]
    have hbecomes := step_cell h c
    generalize m.step.world.cell c = cell at hbecomes hp
    cases hbecomes with
    | allocated fresh new =>
        rw [new.toList_listeners, World.cell_of_size_le (Nat.le_of_eq fresh.symm)]
        rfl
    | completed => exact nomatch (Cell.isRealized_completed _ _).symm.trans hp
    | listened call there => exact (hreg ⟨_, call, there⟩).elim
    | _ => rfl

/-- Only a link changes who is to be revoked. -/
theorem links_eq_none {c : CellId}
    (h : ¬∃ d, m.control = .call (.link c d) ∧ c < m.world.cells.size) : m.links c = none := by
  unfold links
  split
  · next d e call =>
      split
      · next hd => exact (h ⟨e, hd.1 ▸ call, hd.2⟩).elim
      · rfl
  · rfl

/-- A step puts the cell that it links in the place of the revokee of a pending cell. -/
theorem revokee_step (h : m.world.Sound) {c : CellId}
    (hp : (m.step.world.cell c).isRealized = false) :
    (m.step.world.cell c).revokee = (m.links c).or (m.world.cell c).revokee := by
  have hpending := pending_of_step h hp
  by_cases hlink : ∃ d, m.control = .call (.link c d) ∧ c < m.world.cells.size
  · obtain ⟨d, call, there⟩ := hlink
    have hlinks : m.links c = some d := by simp [links, call, there]
    rw [hlinks]
    obtain ⟨w, control, stack⟩ := m
    obtain rfl : control = .call (.link c d) := call
    show ((w.link c d).world.cell c).revokee = _
    rw [World.link_eq h, Cell.peek_of_pending hpending]
    show ((w.setCell c _).cell c).revokee = _
    rw [World.cell_setCell_self there]
    rfl
  · rw [links_eq_none hlink, Option.none_or]
    have hbecomes := step_cell h c
    generalize m.step.world.cell c = cell at hbecomes hp
    cases hbecomes with
    | allocated fresh new =>
        rw [World.cell_of_size_le (Nat.le_of_eq fresh.symm)]
        cases new <;> rfl
    | completed => exact nomatch (Cell.isRealized_completed _ _).symm.trans hp
    | linked call there => exact (hlink ⟨_, call, there⟩).elim
    | _ => rfl

/-! ## Listeners on their way

A listener that has left its cell is in the hands of a call or of a frame, together with the outcome that it
is told. That outcome is the one which its cell holds.
-/

/-- After a move, what is on its way is in the hands of the move or of what waits below. -/
theorem mem_inFlight_of_move {mv : Move} {stack : List Frame} {p : Subscription × Outcome}
    (h : p ∈ (ofMove mv stack).inFlight) :
    p ∈ mv.control.inFlight ∨ p ∈ mv.frames.flatMap Frame.inFlight ∨
      p ∈ stack.flatMap Frame.inFlight := by
  rcases List.mem_append.mp h with h | h
  · exact .inl h
  · have h' : p ∈ (mv.frames ++ stack).flatMap Frame.inFlight := h
    rw [List.flatMap_append] at h'
    exact .inr (List.mem_append.mp h')

/-- A move that puts no listener on its way. -/
theorem not_mem_inFlight {mv : Move} (h : mv.subscriptions = []) (p : Subscription × Outcome) :
    p ∉ mv.control.inFlight ∧ p ∉ mv.frames.flatMap Frame.inFlight := by
  obtain ⟨hcontrol, hframes⟩ := List.append_eq_nil_iff.mp h
  constructor
  · rw [Control.inFlight_eq_nil hcontrol]
    exact List.not_mem_nil
  · intro hp
    obtain ⟨f, hf, hp⟩ := List.mem_flatMap.mp hp
    rw [Frame.inFlight_eq_nil (List.flatMap_eq_nil_iff.mp hframes f hf)] at hp
    cases hp

/-- Whoever is on the way after a step was so before, or waited with a cell that holds the outcome now, or
has just been registered with one. -/
theorem inFlight_step (h : m.world.Sound) {s : Subscription} {o : Outcome}
    (hs : (s, o) ∈ m.step.inFlight) : (s, o) ∈ m.inFlight ∨
      ∃ c, (m.step.world.cell c).peek = some o ∧
        (s ∈ (m.world.cell c).listeners.toList ∨ s ∈ m.registers c) := by
  obtain ⟨w, control, stack⟩ := m
  cases control with
  | call call =>
      have hspec := World.invoke_spec h call
      have hs' : (s, o) ∈ (ofMove (w.invoke call) stack).inFlight := hs
      have hsubs (hc : call.movesListeners = false) := World.subscriptions_invoke h hc
      show _ ∨ ∃ c, ((w.invoke call).world.cell c).peek = some o ∧ _
      generalize w.invoke call = mv at hspec hs' hsubs
      -- A listener that is on its way after a call is in the hands of what the call does next, of the
      -- frames that it leaves, or of those below.
      rcases mem_inFlight_of_move hs' with hcontrol | hframes | hstack
      · cases hspec with
        | @completed c o' a pending accepted =>
            obtain ⟨s', hmem, heq⟩ := List.mem_map.mp hcontrol
            cases heq
            refine .inr ⟨c, ?_, .inl hmem⟩
            show ((w.setCell c _).cell c).peek = some o
            rw [World.cell_setCell_self (World.lt_of_mem_listeners hmem),
              Cell.peek_completed]
        | @delivering s' rest revokee o' =>
            cases List.mem_singleton.mp hcontrol
            exact .inl (List.mem_append_left _ List.mem_cons_self)
        -- A listener that comes too late is told at once. It counts as registered with the cell all the
        -- same.
        | @told c l o' stored =>
            cases List.mem_singleton.mp hcontrol
            refine .inr ⟨c, stored, .inr ?_⟩
            have there : c < w.cells.size := by
              by_contra hc
              rw [World.cell_of_size_le (Nat.le_of_not_lt hc)] at stored
              cases stored
            simp [registers, there]
        | cascading => cases hcontrol
        | registered => cases hcontrol
        | returned => cases hcontrol
        | _ => exact ((not_mem_inFlight (hsubs rfl) _).1 hcontrol).elim
      · cases hspec with
        | @delivering s' rest revokee o' =>
            obtain ⟨f, hf, hmem⟩ := List.mem_flatMap.mp hframes
            cases List.mem_singleton.mp hf
            exact .inl (List.mem_append_left _ (List.mem_cons_of_mem _ hmem))
        | cascading => cases hframes
        | registered => cases hframes
        | returned => cases hframes
        | completed => cases hframes
        | told => cases hframes
        | _ => exact ((not_mem_inFlight (hsubs rfl) _).2 hframes).elim
      · exact .inl (List.mem_append_right _ hstack)
  | ret r =>
      cases stack with
      | nil => exact .inl hs
      | cons frame stack =>
          have hs' : (s, o) ∈ (ofMove (w.resume frame r) stack).inFlight := hs
          have hsubs := World.subscriptions_resume (w := w) frame r
          refine .inl (List.mem_append_right _ ?_)
          rw [List.flatMap_cons]
          rcases mem_inFlight_of_move hs' with hcontrol | hframes | hstack
          · cases frame with
            | delivering rest revokee o' => exact List.mem_append_left _ hcontrol
            | _ => exact ((not_mem_inFlight hsubs _).1 hcontrol).elim
          · cases frame with
            | delivering rest revokee o' => cases hframes
            | _ => exact ((not_mem_inFlight hsubs _).2 hframes).elim
          · exact List.mem_append_right _ hstack
  | raise p =>
      cases stack with
      | nil => exact .inl hs
      | cons frame stack =>
          have hs' : (s, o) ∈ (ofMove (w.unwind frame p) stack).inFlight := hs
          have hnone := not_mem_inFlight (World.subscriptions_unwind (w := w) frame p) (s, o)
          refine .inl (List.mem_append_right _ ?_)
          rw [List.flatMap_cons]
          rcases mem_inFlight_of_move hs' with hcontrol | hframes | hstack
          · exact (hnone.1 hcontrol).elim
          · exact (hnone.2 hframes).elim
          · exact List.mem_append_right _ hstack

/-- A listener is told in a notification only. -/
theorem tell_of_step (h : m.world.Sound) {l : Listener} {o : Outcome}
    (tells : m.step.control = .call (.tell l o)) :
    ∃ s, m.control = .call (.notify s o) ∧ s.listener = l := by
  obtain ⟨c, call, hcall⟩ := call_of_passesOn rfl tells
  rw [call]
  have hspec := World.invoke_spec h c
  generalize m.world.invoke c = mv at hspec hcall
  cases hspec with
  | operated hop =>
      cases hop with
      | answered _ ends | interned _ ends | froze _ ends =>
          cases hcall
          cases ends
      | entered _ entry =>
          cases hcall
          cases entry
      | presented _ _ presents =>
          cases hcall
          cases presents
      | _ => cases hcall
  | notifying =>
      cases hcall
      exact ⟨_, rfl, rfl⟩
  | fetchedNew _ _ _ starts =>
      cases hcall
      cases starts
  | _ => cases hcall

/-! ## Machines at rest

Where nothing is left to be done, nobody is on the way.
-/

/-- At rest nobody is registered. -/
theorem registers_of_atRest (h : m.atRest = true) (c : CellId) : m.registers c = [] := by
  refine List.eq_nil_iff_forall_not_mem.mpr fun s hs => ?_
  cases h.symm.trans (busy_of_call (mem_registers.mp hs).1)

theorem links_of_atRest (h : m.atRest = true) (c : CellId) : m.links c = none := by
  refine links_eq_none ?_
  rintro ⟨d, call, -⟩
  cases h.symm.trans (busy_of_call call)

/-- At rest nobody is told. -/
theorem told_of_atRest (h : m.atRest = true) : m.told = [] := by
  unfold told
  split
  · next call => cases h.symm.trans (busy_of_call call)
  · rfl

/-- At rest nobody is lost. -/
theorem lost_of_atRest (h : m.atRest = true) : m.lost = [] := by
  rw [lost, (atRest_iff.mp h).2]
  split <;> first | rfl | contradiction

/-- At rest nobody is on the way. -/
theorem subscriptions_of_atRest (h : m.atRest = true) :
    m.control.subscriptions ++ m.stack.flatMap Frame.subscriptions = [] := by
  obtain ⟨hcontrol, hstack⟩ := atRest_iff.mp h
  rw [Control.subscriptions_of_not_isCall hcontrol, hstack]
  rfl

end Machine

/-! ## Along a history

The listeners of a pending cell are the registrations with it, in their order. As none of them gets lost
while the cell is pending, that is an equation between lists.
-/

/-- Registrations with a cell, one step after the other. -/
theorem registrations_cons (c : CellId) (m : Machine) (past : List Machine) :
    registrations c (m :: past) = registrations c past ++ m.registers c := by
  rw [registrations, List.reverse_cons, List.flatMap_append, List.flatMap_singleton, registrations]

/-- Who is registered with a cell was registered by some step. -/
theorem mem_registrations {s : Subscription} {c : CellId} {past : List Machine} :
    s ∈ registrations c past ↔ ∃ x ∈ past, s ∈ x.registers c := by
  simp only [registrations, List.mem_flatMap, List.mem_reverse]

/-- The last link counts. -/
theorem linked_cons (c : CellId) (m : Machine) (past : List Machine) :
    linked c (m :: past) = (m.links c).or (linked c past) := by
  rw [linked, List.findSome?_cons, linked]
  cases m.links c <;> rfl

namespace Call

/-- What is called from outside delivers nothing itself. -/
theorem Outside.subscriptions {c : Call} (h : c.Outside) : (Control.call c).subscriptions = [] := by
  cases h <;> rfl

theorem Outside.inFlight {c : Call} (h : c.Outside) : (Control.call c).inFlight = [] := by
  cases h <;> rfl

end Call

namespace History

variable {capacity : Nat} {m : Machine} {past : List Machine} {c d : CellId} {s : Subscription}

/-- Tickets are handed out in order. -/
theorem freshTicket_le (h : History capacity m past) {x : Machine} (hx : x ∈ m :: past) :
    x.world.freshTicket ≤ m.world.freshTicket :=
  h.persists (P := fun w => x.world.freshTicket ≤ w.freshTicket) hx (Nat.le_refl _)
    (fun before _ le => le.trans (Machine.freshTicket_le_step before.sound)) fun _ _ le => le

/-- The ticket of a listener that has been registered was handed out. -/
theorem ticket_lt (h : History capacity m past) (hs : s ∈ registrations c past) :
    s.ticket < m.world.freshTicket := by
  induction h with
  | start => cases hs
  | @step m past before busy ih =>
      rw [registrations_cons] at hs
      rcases List.mem_append.mp hs with hs | hs
      · exact (ih hs).trans_le (Machine.freshTicket_le_step before.sound)
      · obtain ⟨hticket, l, call⟩ := Machine.ticket_of_registers hs
        rw [Machine.freshTicket_step before.sound, call, hticket]
        exact Nat.lt_succ_self _
  | @enter m past before rest thread log call outside ih =>
      rw [registrations_cons, Machine.registers_of_atRest rest, List.append_nil] at hs
      exact ih hs

/-- A listener is registered with one cell. -/
theorem cell_unique (h : History capacity m past) (hc : s ∈ registrations c past)
    (hd : s ∈ registrations d past) : c = d := by
  induction h with
  | start => cases hc
  | @step m past before busy ih =>
      rw [registrations_cons] at hc hd
      -- A ticket that is handed out now was not handed out before.
      have now {c d : CellId} (hc : s ∈ registrations c past) (hd : s ∈ m.registers d) : False := by
        have hlt := before.ticket_lt hc
        rw [(Machine.ticket_of_registers hd).1] at hlt
        exact Nat.lt_irrefl _ hlt
      rcases List.mem_append.mp hc with hc | hc <;> rcases List.mem_append.mp hd with hd | hd
      · exact ih hc hd
      · exact (now hc hd).elim
      · exact (now hd hc).elim
      · obtain ⟨-, l, call⟩ := Machine.ticket_of_registers hc
        obtain ⟨-, l', call'⟩ := Machine.ticket_of_registers hd
        rw [call] at call'
        cases call'
        rfl
  | @enter m past before rest thread log call outside ih =>
      rw [registrations_cons, Machine.registers_of_atRest rest, List.append_nil] at hc hd
      exact ih hc hd

/-- The listeners of a pending cell are those registered with it, in that order. -/
theorem listeners_eq (h : History capacity m past) (hp : (m.world.cell c).isRealized = false) :
    (m.world.cell c).listeners.toList = registrations c past := by
  induction h with
  | start => rfl
  | @step m past before busy ih =>
      rw [registrations_cons, Machine.listeners_step before.sound hp,
        ih (Machine.pending_of_step before.sound hp)]
  | @enter m past before rest thread log call outside ih =>
      rw [registrations_cons, Machine.registers_of_atRest rest, List.append_nil]
      exact ih hp

/-- The revokee of a pending cell is the cell that was linked to it last. -/
theorem revokee_eq (h : History capacity m past) (hp : (m.world.cell c).isRealized = false) :
    (m.world.cell c).revokee = linked c past := by
  induction h with
  | start => rfl
  | @step m past before busy ih =>
      rw [linked_cons, Machine.revokee_step before.sound hp,
        ih (Machine.pending_of_step before.sound hp)]
  | @enter m past before rest thread log call outside ih =>
      rw [linked_cons, Machine.links_of_atRest rest, Option.none_or]
      exact ih hp

/-- The listeners of a cell were registered with it. -/
theorem registered_of_mem_listeners (h : History capacity m past)
    (hs : s ∈ (m.world.cell c).listeners.toList) : s ∈ registrations c past := by
  cases hr : (m.world.cell c).isRealized with
  | false => rwa [← h.listeners_eq hr]
  | true =>
      rw [((h.sound c).emptied hr).1] at hs
      cases hs

/-- What a step does to the listeners that are outstanding or spent: it adds the one it registers. -/
theorem perm_spent (h : History capacity m past) :
    (m.step.outstanding ++ spent (m :: past)).Perm
      (m.registered ++ (m.outstanding ++ spent past)) := by
  have hflow := (Machine.step_outstanding h.sound).append_right (spent past)
  rw [List.append_assoc] at hflow
  refine hflow.trans ?_
  rw [← List.append_assoc]
  exact List.perm_append_comm.append_right _

/-- Rest spends no listener. -/
theorem spent_of_atRest (rest : m.atRest = true) : spent (m :: past) = spent past := by
  show (m.told ++ m.lost) ++ spent past = _
  rw [Machine.told_of_atRest rest, Machine.lost_of_atRest rest]
  rfl

/-- Beginning something leaves all listeners outstanding. -/
theorem outstanding_enter (rest : m.atRest = true) (thread : Thread) (log : List Event) {call : Call}
    (outside : call.Outside) :
    Machine.outstanding ⟨{ m.world with thread, log }, .call call, []⟩ = m.outstanding := by
  rw [Machine.outstanding, Machine.outstanding, Machine.subscriptions_of_atRest rest,
    outside.subscriptions]
  rfl

/-- No two listeners that are outstanding, or have been told or lost, have the same ticket. -/
theorem nodup_tickets (h : History capacity m past) :
    ((m.outstanding ++ spent past).map Subscription.ticket).Nodup ∧
      ∀ s ∈ m.outstanding ++ spent past, s.ticket < m.world.freshTicket := by
  induction h with
  | start clock =>
      have hnone : Machine.outstanding ⟨World.start capacity clock, .ret .unit, []⟩ ++ spent [] = [] := rfl
      rw [hnone]
      exact ⟨.nil, fun s hs => absurd hs List.not_mem_nil⟩
  | @step m past before busy ih =>
      obtain ⟨hnodup, hlt⟩ := ih
      have hperm := before.perm_spent
      constructor
      · rw [(hperm.map Subscription.ticket).nodup_iff, List.map_append, List.nodup_append]
        refine ⟨?_, hnodup, ?_⟩
        · exact m.nodup_registered
        · -- The ticket that is handed out now is larger than all before.
          intro t ht t' ht' heq
          obtain ⟨s, hs, rfl⟩ := List.mem_map.mp ht
          obtain ⟨s', hs', rfl⟩ := List.mem_map.mp ht'
          have := hlt s' hs'
          rw [← heq, (Machine.ticket_of_registered hs).1] at this
          exact Nat.lt_irrefl _ this
      · intro s hs
        rcases List.mem_append.mp (hperm.subset hs) with hs | hs
        · obtain ⟨hticket, c, l, call⟩ := Machine.ticket_of_registered hs
          rw [Machine.freshTicket_step before.sound, call, hticket]
          exact Nat.lt_succ_self _
        · exact (hlt s hs).trans_le (Machine.freshTicket_le_step before.sound)
  | @enter m past before rest thread log call outside ih =>
      rw [spent_of_atRest rest, outstanding_enter rest thread log outside]
      exact ih

/-- Whoever is on the way was registered with a cell, and is told what that cell holds. -/
theorem stored_of_inFlight (h : History capacity m past) {o : Outcome}
    (hs : (s, o) ∈ m.inFlight) :
    ∃ c, s ∈ registrations c past ∧ (m.world.cell c).peek = some o := by
  induction h with
  | start => cases hs
  | @step m past before busy ih =>
      rcases Machine.inFlight_step before.sound hs with hs | ⟨c, stored, hs | hs⟩
      · obtain ⟨c, hmem, stored⟩ := ih hs
        refine ⟨c, ?_, (Machine.step_cell before.sound c).peek stored⟩
        rw [registrations_cons]
        exact List.mem_append_left _ hmem
      · refine ⟨c, ?_, stored⟩
        rw [registrations_cons]
        exact List.mem_append_left _ (before.registered_of_mem_listeners hs)
      · refine ⟨c, ?_, stored⟩
        rw [registrations_cons]
        exact List.mem_append_right _ hs
  | @enter m past before rest thread log call outside ih =>
      rw [Machine.inFlight, outside.inFlight] at hs
      cases hs

/-- Every listener that was registered is outstanding or spent. -/
theorem accounted (h : History capacity m past) (hs : s ∈ registrations c past) :
    s ∈ m.outstanding ++ spent past := by
  induction h with
  | start => cases hs
  | @step m past before busy ih =>
      rw [registrations_cons] at hs
      apply before.perm_spent.symm.subset
      rcases List.mem_append.mp hs with hs | hs
      · exact List.mem_append_right _ (ih hs)
      · exact List.mem_append_left _ (Machine.registered_of_registers hs)
  | @enter m past before rest thread log call outside ih =>
      rw [registrations_cons, Machine.registers_of_atRest rest, List.append_nil] at hs
      rw [spent_of_atRest rest, outstanding_enter rest thread log outside]
      exact ih hs

/-- Once a cell is realized and the machine is at rest, the listeners registered with it are spent. -/
theorem spent_of_registered (h : History capacity m past) (rest : m.atRest = true)
    (hs : s ∈ registrations c past) (hr : (m.world.cell c).isRealized = true) : s ∈ spent past := by
  rcases List.mem_append.mp (h.accounted hs) with hout | hspent
  · rw [Machine.outstanding, Machine.subscriptions_of_atRest rest, List.append_nil] at hout
    -- It would wait with a cell, which could only be the one it was registered with.
    obtain ⟨cell, hcell, hmem⟩ := List.mem_flatMap.mp hout
    obtain ⟨d, hd, hget⟩ := List.getElem_of_mem hcell
    have hcell' : m.world.cell d = cell := by
      have hd' : d < m.world.cells.items.size := hd
      rw [← hget]
      simp [World.cell, Arena.get, hd']
    rw [← hcell'] at hmem
    obtain rfl := h.cell_unique hs (h.registered_of_mem_listeners hmem)
    rw [((h.sound c).emptied hr).1] at hmem
    cases hmem
  · exact hspent

end History

end RequestGraph
