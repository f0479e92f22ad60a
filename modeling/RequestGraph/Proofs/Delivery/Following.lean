import RequestGraph.Proofs.Delivery.Links
import RequestGraph.Proofs.Ownership

/-!
# Following a cell, and abandoning it

When the step of a transformation returns a cell, the result and that inner cell are tied to each other in both
directions: the inner cell becomes the revokee of the result, and a listener of the inner cell forwards its
outcome to the result. Whichever of the two is completed first acts on the other one, in the middle of its own
delivery:

    inner completed first    →   the result takes its outcome
    result completed first   →   the inner cell is revoked, after the listeners of the result were told

Cells that are owned are left alone either way.
-/

namespace RequestGraph

/-- A completion of a cell that the cell accepts. -/
def Machine.Accepts (x : Machine) (c : CellId) (o : Outcome) : Prop :=
  ∃ a, x.control = .call (.complete c o a) ∧ x.world.refusal? c a = none

/-- A listener of a cell is told that forwards the outcome to another cell. -/
def Machine.Forwards (x : Machine) (inner result : CellId) (past : List Machine) (o : Outcome) : Prop :=
  ∃ s ∈ registrations inner past, s.listener = .forward result none ∧
    x.control = .call (.notify s o)

/-- What becomes of the result of a transformation and of the inner cell that its step has returned in the
machine `y`, with nothing left to be done in `m`. -/
structure Follows (m : Machine) (newer : List Machine) (y : Machine) (older : List Machine)
    (result inner : CellId) : Prop where
  /-- If both are pending, a listener is registered with the inner cell that forwards its outcome. -/
  registered : (y.world.cell result).isRealized = false → (y.world.cell inner).isRealized = false →
    ∃ s ∈ registrations inner newer, s.listener = .forward result none
  /-- When the inner cell has been completed, the listener has been told. -/
  told : ∀ s ∈ registrations inner newer, ∀ o, (m.world.cell inner).peek = some o →
    ∃ z ∈ newer ++ y :: older, z.control = .call (.notify s o)
  /-- If the result is free then, it takes the outcome, and the inner cell is not revoked. -/
  completed : ∀ z ∈ newer, ∀ o, z.Forwards inner result (newer ++ y :: older) o → z.world.Free result →
    (m.world.cell result).peek = some o ∧ (m.world.cell inner).peek = some o
  /-- If it is owned, it stays as it is. -/
  spared : ∀ z ∈ newer, ∀ s o, z.control = .call (.notify s o) → s.listener = .forward result none →
    (z.world.cell result).owner ≠ none → z.world.Performs (.notify s o) z.world (.ret .unit)
  /-- The same if the inner cell was realized already. -/
  flattened : ∀ o, (y.world.cell inner).peek = some o → y.world.Free result →
    (m.world.cell result).peek = some o ∧ (m.world.cell inner).peek = some o
  /-- If the result is completed first, then after its listeners were told the inner cell is revoked, unless
  it is realized or owned by then. -/
  abandoned : ∀ x ∈ newer, ∀ o, x.Accepts result o → ∃ w,
    Told o x.step.world (x.world.cell result).listeners.toList w ∧
    ⟨w, .call (.revoke inner (Outcome.error? o)), .completed :: x.stack⟩ ∈ newer ∧
    (w.Free inner → (m.world.cell inner).peek = some (.error (.revoked (Outcome.error? o))))
  /-- If it was completed before the step returned, this happens at once. -/
  late : ∀ o, (y.world.cell result).peek = some o →
    (∃ stack, y.iterate 3 = ⟨y.world, .call (.revoke inner (Outcome.error? o)), stack⟩) ∧
    (y.world.Free inner → (m.world.cell inner).peek = some (.error (.revoked (Outcome.error? o))))
  /-- An inner cell that is owned is not revoked, nor is one that is realized. -/
  owned : ∀ z ∈ newer, ∀ cause, z.control = .call (.revoke inner cause) → ¬z.world.Free inner →
    z.world.Performs (.revoke inner cause) z.world (.ret (.verdict (.ok false)))
  /-- What the result was completed with it keeps. -/
  final : ∀ x ∈ newer ++ y :: older, ∀ o,
    x.Accepts result o ∨ (x.world.cell result).peek = some o → (m.world.cell result).peek = some o

namespace World

variable {w : World} {c : CellId} {o : Outcome}

theorem refusal?_of_not_free (h : ¬w.Free c) : w.refusal? c .unowned = some (.ok false) := by
  cases realized : (w.cell c).isRealized with
  | true => exact refusal?_realized realized
  | false => exact refusal?_quiet realized fun unowned => h ⟨realized, unowned⟩

/-- A revocation leaves a cell alone that is realized or owned. -/
theorem performs_revoke_of_not_free (sound : w.Sound) (h : ¬w.Free c) (cause : Option Error) :
    w.Performs (.revoke c cause) w (.ret (.verdict (.ok false))) := by
  cases realized : (w.cell c).isRealized with
  | true =>
    have hinvoke : w.invoke (.revoke c cause) = w.ret (.verdict (.ok false)) := if_pos realized
    exact (performs_end hinvoke rfl).mpr ⟨rfl, rfl⟩
  | false =>
    have hinvoke : w.invoke (.revoke c cause) =
        w.call (.complete c (.error (.revoked cause)) .unowned) := by
      show w.revoke c cause = _
      rw [revoke, realized]
      rfl
    exact (performs_tail hinvoke).mpr
      ((performs_of_refusal sound (refusal?_of_not_free h)).mpr ⟨rfl, rfl⟩)

/-- A forwarded outcome leaves a cell alone that is realized or owned. -/
theorem performs_notify_of_not_free (sound : w.Sound) (h : ¬w.Free c) {s : Subscription}
    (forward : s.listener = .forward c none) (o : Outcome) :
    w.Performs (.notify s o) w (.ret .unit) := by
  refine performs_notify.mpr (.inl ⟨.verdict (.ok false), ?_, rfl⟩)
  rw [forward]
  have settles : w.invoke (.tell (.forward c none) o) = w.call (.settle c o none) := rfl
  have completes : w.invoke (.settle c o none) = w.call (.complete c o .unowned) := rfl
  rw [performs_tail settles, performs_tail completes]
  exact (performs_of_refusal sound (refusal?_of_not_free h)).mpr ⟨rfl, rfl⟩

end World

namespace History

variable {capacity : ℕ} {m x y : Machine} {past newer older : List Machine} {w : World}
  {stack : List Frame} {c result inner : CellId} {o : Outcome}

/-! ## Parts of a history

The law is about what comes after the return of a step, so the history is cut there. What happened since is
itself a history above an earlier one.
-/

/-- What comes after a busy machine and is not its step comes after that. -/
theorem append_of_step (h : History capacity m (newer ++ y :: older)) (busy : y.atRest = false)
    (hx : x ∈ newer) (other : x ≠ y.step) : ∃ newer', newer = newer' ++ [y.step] ∧ x ∈ newer' := by
  rcases h.step_of_append busy with ⟨rfl, -⟩ | ⟨newer', rfl⟩
  · cases hx
  · refine ⟨newer', rfl, ?_⟩
    rcases List.mem_append.mp hx with hx | hx
    · exact hx
    · exact absurd (List.mem_singleton.mp hx) other

/-- A listener that is registered after a machine where no panic is coming through is not left out, if the
sink has returned since. -/
theorem not_lost_since (h : History capacity m (newer ++ y :: older))
    (calm : ∀ p, y.control ≠ .raise p) (sink : ∀ z ∈ newer ++ [y], z.SinkReturns) {s : Subscription}
    (hs : s ∈ registrations c newer) : ∀ x ∈ newer ++ y :: older, s ∉ x.lost := by
  intro x hx hlost
  rcases List.mem_append.mp hx with hx | hx
  · obtain ⟨later, between, rfl⟩ := List.append_of_mem hx
    rw [List.append_assoc, List.cons_append] at h
    have orderly := h.of_append.orderly_since calm fun z hz => sink z (by simp at hz ⊢; tauto)
    rw [orderly.lost_eq_nil] at hlost
    cases hlost
  · have before := h.of_append
    rcases List.mem_cons.mp hx with rfl | hx
    · rw [(before.braced.orderly calm).lost_eq_nil] at hlost
      cases hlost
    · -- The ticket of the listener was handed out later than those that are spent by then.
      have spent : s ∈ spent older := List.mem_flatMap.mpr ⟨x, hx, List.mem_append_right _ hlost⟩
      have earlier := before.nodup_tickets.2 s (List.mem_append_right _ spent)
      obtain ⟨z, hz, registers⟩ := mem_registrations.mp hs
      rw [(Machine.ticket_of_registers registers).1] at earlier
      obtain ⟨later, between, rfl⟩ := List.append_of_mem hz
      rw [List.append_assoc, List.cons_append] at h
      exact absurd earlier (Nat.not_lt.mpr (h.of_append.freshTicket_le (by simp)))

/-- A cell that was linked and has not been replaced is the revokee. -/
theorem revokee_of_append (h : History capacity m (newer ++ x :: older))
    (call : x.control = .call (.link c inner)) (pending : (m.world.cell c).isRealized = false)
    (kept : ∀ z ∈ newer, ∀ d ∈ z.links c, d = inner ∨ (z.world.cell c).isRealized = true) :
    (m.world.cell c).revokee = some inner := by
  have there : c < x.world.cells.size := h.link_there (by simp) call
  have hx : x.links c = some inner := by simp [Machine.links, call, there]
  rw [h.revokee_eq pending, linked, List.findSome?_append, List.findSome?_cons, hx]
  cases later : newer.findSome? (·.links c) with
  | none => rfl
  | some d =>
    -- Whatever was linked later is the same cell, as the source was pending all the time.
    obtain ⟨z, hz, links⟩ := List.exists_of_findSome?_eq_some later
    rcases kept z hz d links with rfl | realized
    · rfl
    · have realized := h.realized_later (List.mem_append_left _ hz) realized
      rw [pending] at realized
      cases realized

/-! ## What has come of the two cells

The result follows the inner cell in two ways at once: it is linked to it, to be able to revoke it, and
subscribes to it. Which of the two is completed first decides which link matters.
-/

section Rest

variable (h : History capacity m past) (rest : m.atRest = true)
include h rest

/-- A completion that is accepted gives the cell its outcome for good. -/
theorem peek_of_accepts (hx : x ∈ m :: past) (accepts : x.Accepts c o) :
    (m.world.cell c).peek = some o := by
  obtain ⟨a, call, accepted⟩ := accepts
  have there : c < x.world.cells.size := (h.grounded_of_mem hx).call call
  have hstep : (x.step.world.cell c).peek = some o := by
    rw [Machine.step_call call, World.complete_of_accepted (h.sound_of_mem hx) accepted]
    show ((x.world.setCell c _).cell c).peek = _
    rw [World.cell_setCell_self there, Cell.peek_completed]
  exact h.peek_later (h.sequel rest hx (Machine.busy_of_call call)) hstep

theorem linking_of_returns (recent : newer <+: past)
    (hy : ⟨w, .ret (.step (.follow inner)), .adopting result :: stack⟩ ∈ m :: newer) :
    ⟨w, .call (.link result inner), .following result inner :: stack⟩ ∈ m :: newer :=
  h.sequel_of_prefix rest recent (h.sequel_of_prefix rest recent hy rfl) rfl

/-- A listener that forwards an outcome to a free cell completes it. -/
theorem carries_of_notify {s : Subscription} (forward : s.listener = .forward c none)
    (hx : ⟨w, .call (.notify s o), stack⟩ ∈ m :: past) (free : w.Free c) :
    (m.world.cell c).peek = some o := by
  have hnext : ⟨w, .call (.tell s.listener o), .notifying :: stack⟩ ∈ m :: past :=
    h.sequel rest hx rfl
  rw [forward] at hnext
  exact h.carries_of_settle rest (h.sequel rest hnext rfl) free

/-- A result whose step has returned a pending cell is told by it. -/
theorem registering_of_returns (recent : newer <+: past)
    (hy : ⟨w, .ret (.step (.follow inner)), .adopting result :: stack⟩ ∈ m :: newer)
    (pending : (w.cell result).isRealized = false) (waiting : (w.cell inner).isRealized = false) :
    ∃ x ∈ m :: newer, ∃ s ∈ x.registers inner, s.listener = .forward result none := by
  have hforward := h.forwarding_of_link rest recent (h.linking_of_returns rest recent hy) pending
  set linked := w.setCell result { w.cell result with revokee := some inner }
  have unknown : (linked.cell inner).peek = none := by
    rw [World.peek_setCell_revokee, Cell.peek_of_pending waiting]
  have hmove : Machine.ofMove (linked.forward result (.cell inner) none) stack ∈ m :: newer :=
    h.sequel_of_prefix rest recent hforward rfl
  simp only [World.forward, unknown] at hmove
  have hsubscribe : ⟨linked, .call (.subscribe inner (.forward result none)), stack⟩ ∈ m :: newer :=
    hmove
  have hpast := List.cons_subset_cons m recent.subset hsubscribe
  have there : inner < linked.cells.size := (h.grounded_of_mem hpast).control.1
  exact ⟨_, hsubscribe, ⟨linked.freshTicket, .forward result none⟩,
    by simp [Machine.registers, there], rfl⟩

end Rest

/-- The listener is registered after the step has returned. -/
theorem registered_of_returns (h : History capacity m (newer ++ y :: older)) (rest : m.atRest = true)
    (returns : y = ⟨w, .ret (.step (.follow inner)), .adopting result :: stack⟩)
    (pending : (w.cell result).isRealized = false) (waiting : (w.cell inner).isRealized = false) :
    ∃ s ∈ registrations inner newer, s.listener = .forward result none := by
  have recent : newer ++ [y] <+: newer ++ y :: older := ⟨older, by simp⟩
  have hy : ⟨w, .ret (.step (.follow inner)), .adopting result :: stack⟩ ∈ m :: (newer ++ [y]) := by
    rw [← returns]
    simp
  obtain ⟨x, hx, s, registers, forward⟩ :=
    h.registering_of_returns rest recent hy pending waiting
  refine ⟨s, mem_registrations.mpr ⟨x, ?_, registers⟩, forward⟩
  simp only [List.mem_cons, List.mem_append, List.not_mem_nil, or_false] at hx
  rcases hx with rfl | hx | rfl
  · rw [Machine.registers_of_atRest rest] at registers
    cases registers
  · exact hx
  · rw [returns] at registers
    cases registers

/-- A listener that is registered after a machine where no panic is coming through is told, if the sink has
returned since. -/
theorem notified_since (h : History capacity m (newer ++ y :: older)) (rest : m.atRest = true)
    (calm : ∀ p, y.control ≠ .raise p) (sink : ∀ z ∈ newer ++ [y], z.SinkReturns) {s : Subscription}
    (hs : s ∈ registrations c newer) (ho : (m.world.cell c).peek = some o) :
    ∃ z ∈ newer ++ y :: older, z.control = .call (.notify s o) := by
  obtain ⟨z, hz, registers⟩ := mem_registrations.mp hs
  have registered : s ∈ registrations c (newer ++ y :: older) :=
    mem_registrations.mpr ⟨z, List.mem_append_left _ hz, registers⟩
  obtain ⟨w, stack, hw⟩ := h.notified rest registered (h.not_lost_since calm sink hs) ho
  exact ⟨_, hw, rfl⟩

/-- A completion of the result that comes after its step has returned a cell reaches that cell, as the last
one. -/
theorem abandoned_of_accepts (h : History capacity m past) (rest : m.atRest = true)
    (split : past = newer ++ y :: older) (sink : ∀ x ∈ newer, x.SinkReturns)
    (returns : y = ⟨w, .ret (.step (.follow inner)), .adopting result :: stack⟩)
    (hx : x ∈ newer) (accepts : x.Accepts result o)
    (kept : ∀ z ∈ newer, ∀ d ∈ z.links result,
      d = inner ∨ (z.world.cell result).isRealized = true) :
    ∃ w, Told o x.step.world (x.world.cell result).listeners.toList w ∧
      ⟨w, .call (.revoke inner (Outcome.error? o)), .completed :: x.stack⟩ ∈ newer ∧
      (w.Free inner → (m.world.cell inner).peek = some (.error (.revoked (Outcome.error? o)))) := by
  obtain ⟨a, call, accepted⟩ := accepts
  have recent : newer <+: past := ⟨_, split.symm⟩
  have hpast : x ∈ m :: past := List.mem_cons_of_mem m (recent.subset hx)
  have linked : (x.world.cell result).revokee = some inner := by
    -- The link is made right after the step has returned, and so before the completion.
    have other {z : Machine} (hz : ∀ o a, z.control ≠ .call (.complete result o a)) : x ≠ z :=
      fun heq => hz o a (heq ▸ call)
    obtain ⟨newer₁, rfl, hx₁⟩ := (split ▸ h).append_of_step (by rw [returns]; rfl) hx
      (other (by rw [returns]; nofun))
    rw [List.append_assoc, List.singleton_append] at split
    obtain ⟨newer₂, rfl, hx₂⟩ := (split ▸ h).append_of_step (by rw [returns]; rfl) hx₁
      (other (by rw [returns]; nofun))
    obtain ⟨after, between, rfl⟩ := List.append_of_mem hx₂
    rw [List.append_assoc, List.singleton_append, List.append_assoc, List.cons_append] at split
    refine (split ▸ h).of_append.revokee_of_append (by rw [returns]; rfl)
      (World.refusal?_eq_none.mp accepted).1 fun z hz => kept z ?_
    simp [hz]
  have hdeliver : x.step ∈ m :: newer :=
    h.sequel_of_prefix rest recent (List.mem_cons_of_mem m hx) (Machine.busy_of_call call)
  rw [Machine.step_call call, World.complete_of_accepted (h.sound_of_mem hpast) accepted, linked]
    at hdeliver
  rw [Machine.step_call call, World.complete_of_accepted (h.sound_of_mem hpast) accepted]
  obtain ⟨w', told, hrevoke⟩ := h.revoking_of_deliver rest recent sink hdeliver
  exact ⟨w', told, mem_of_busy rest hrevoke rfl,
    h.carries_of_revoke rest (List.cons_subset_cons m recent.subset hrevoke)⟩

/-- **Following a cell, and abandoning it.** -/
theorem follows (h : History capacity m (newer ++ y :: older)) (rest : m.atRest = true)
    (sink : ∀ x ∈ newer, x.SinkReturns) (returns : y.StepReturns result inner)
    (kept : ∀ z ∈ newer, ∀ d ∈ z.links result,
      d = inner ∨ (z.world.cell result).isRealized = true) :
    Follows m newer y older result inner := by
  have later {z : Machine} (hz : z ∈ newer) : z ∈ m :: (newer ++ y :: older) := by simp [hz]
  have hy : y ∈ m :: (newer ++ y :: older) := by simp
  have sound : y.world.Sound := h.sound_of_mem hy
  obtain ⟨call, stack, hstack⟩ := returns
  have heq : y = ⟨y.world, .ret (.step (.follow inner)), .adopting result :: stack⟩ := by
    rw [← call, ← hstack]
  -- From here on, everything follows from two calls that are made in this history: the link to the cell
  -- that is followed, and the subscription after it.
  have hreturn : ⟨y.world, .ret (.step (.follow inner)), .adopting result :: stack⟩ ∈
      m :: (newer ++ y :: older) := heq ▸ hy
  have hlink := h.linking_of_returns rest List.prefix_rfl hreturn
  exact {
    registered := fun pending waiting => h.registered_of_returns rest heq pending waiting
    told := by
      intro s hs o ho
      refine h.notified_since rest (by rw [call]; nofun) (fun z hz => ?_) hs ho
      rcases List.mem_append.mp hz with hz | hz
      · exact sink z hz
      · rw [List.mem_singleton.mp hz]
        exact fun e report => nomatch call.symm.trans report
    completed := by
      rintro ⟨w, _, stack⟩ hz o ⟨s, hs, forward, rfl⟩ free
      exact ⟨h.carries_of_notify rest forward (later hz) free, h.stored_of_notify (later hz) hs⟩
    spared := by
      rintro ⟨w, _, stack⟩ hz s o rfl forward owned
      have sound : w.Sound := h.sound_of_mem (later hz)
      exact World.performs_notify_of_not_free sound (fun free => owned free.2) forward o
    flattened := by
      intro o ho free
      refine ⟨?_, h.peek_later hy ho⟩
      have hforward := h.forwarding_of_link rest List.prefix_rfl hlink free.1
      exact h.carries_of_forward rest hforward ((World.free_setCell_revokee _ _).mpr free)
        ((World.peek_setCell_revokee _ _).trans ho)
    abandoned := fun x hx o accepts => h.abandoned_of_accepts rest rfl sink heq hx accepts kept
    late := by
      intro o ho
      have hmove : y.world.link result inner = y.world.call (.revoke inner (Outcome.error? o)) := by
        rw [World.link_eq sound, ho]
      have hrevoke : Machine.ofMove (y.world.link result inner) (.following result inner :: stack) ∈ _ :=
        h.sequel rest hlink rfl
      rw [hmove] at hrevoke
      refine ⟨⟨.following result inner :: stack, ?_⟩, h.carries_of_revoke rest hrevoke⟩
      rw [heq]
      exact congrArg (Machine.ofMove · _) hmove
    owned := by
      rintro ⟨w, _, stack⟩ hz cause rfl free
      have sound : w.Sound := h.sound_of_mem (later hz)
      exact World.performs_revoke_of_not_free sound free cause
    final := by
      rintro x hx o (accepts | ho)
      · exact h.peek_of_accepts rest (List.mem_cons_of_mem m hx) accepts
      · exact h.peek_later (List.mem_cons_of_mem m hx) ho }

end History

/-- A run in which the result fails while the cell that its step has returned is pending. -/
theorem follows_of_abandoned : ∃ m newer y older, History 8 m (newer ++ y :: older) ∧
    y.StepReturns 2 1 ∧ (∃ x ∈ newer, x.Accepts 2 (.error (.revoked none))) ∧
    Follows m newer y older 2 1 := by
  have empty : History 8 _ _ := .start
  have source := (empty.enter rfl {} [] (.operate (.cell (.create "s")))).step rfl
  have inner := (source.enter rfl {} [] (.operate (.cell (.create "i")))).step rfl
  have bound := (inner.enter rfl {} []
    (.operate (.cell (.bind "s" ⟨[], .source (.cell "i")⟩ none "r")))).steps 5 (by decide +kernel)
  have returning := (bound.enter (by decide +kernel) {} []
    (.operate (.cell (.complete "s" (.ok (.constant 7)))))).steps 8 (by decide +kernel)
  have linked := (returning.step (by decide +kernel)).steps 9 (by decide +kernel)
  have failing := (linked.enter (by decide +kernel) {} []
    (.operate (.cell (.complete "r" (.error (.revoked none)))))).steps 15 (by decide +kernel)
  rw [← List.cons_append, ← List.append_assoc] at failing
  refine ⟨_, _, _, _, failing, ⟨rfl, _, rfl⟩, ⟨_, List.mem_of_getElem? (i := 13) rfl, ?accepts⟩,
    failing.follows (by decide +kernel) (by decide +kernel) ⟨rfl, _, rfl⟩ (by decide +kernel)⟩
  case accepts => exact ⟨.unowned, rfl, by decide +kernel⟩

end RequestGraph
