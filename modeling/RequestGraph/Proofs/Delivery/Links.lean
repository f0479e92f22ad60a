import RequestGraph.Proofs.Delivery.ExactlyOnce
import RequestGraph.Proofs.Delivery.Spreading
import RequestGraph.Proofs.Engine.Grounded
import RequestGraph.Proofs.Engine.Sequels
import RequestGraph.Proofs.Request.Cancelling

/-!
# No link is ever lost

A link leads from a cell to another one: a chain hands the outcome on, a revocation fails the other cell, and
a transformation completes its result with what its step comes to. When the first cell is realized and
nothing is left to be done, the link has done its work, or the other cell was out of its reach:

    (w.cell c).isRealized or (w.cell c).owner ≠ token   →   the same at any later time

Whether the first cell is completed before the link is made, or meanwhile, or later in the middle of some
other delivery, plays no part in this. Nor does what the listeners do, as long as the sink returns.
-/

namespace RequestGraph

/-- A cell is realized, or its owner is another one than a token; where no token is meant, it is realized
or owned. -/
def World.OutOfReach (w : World) (c : CellId) (token : Option Token) : Prop :=
  (w.cell c).isRealized = true ∨ (w.cell c).owner ≠ token

/-- A cell is pending, and nobody owns it. -/
def World.Free (w : World) (c : CellId) : Prop :=
  (w.cell c).isRealized = false ∧ (w.cell c).owner = none

instance (w : World) (c : CellId) : Decidable (w.Free c) := inferInstanceAs (Decidable (_ ∧ _))

/-- The step of the transformation that makes a cell has returned a cell to be followed. -/
def Machine.StepReturns (y : Machine) (result inner : CellId) : Prop :=
  y.control = .ret (.step (.follow inner)) ∧ ∃ stack, y.stack = .adopting result :: stack

/-- The result of a transformation is realized or owned, or the step has returned a cell that is still
pending. -/
def Machine.Adopted (m : Machine) (past : List Machine) (result : CellId) : Prop :=
  m.world.Settled result ∨
    ∃ y ∈ past, ∃ inner, y.StepReturns result inner ∧ (m.world.cell inner).isRealized = false

/-- What has become of the links that were ever made, where nothing is left to be done. -/
structure LinksKept (m : Machine) (past : List Machine) : Prop where
  /-- A chain, with a token or without, hands on what its source has come to. -/
  chained : ∀ x ∈ past, ∀ target source token,
    x.control = .call (.forward target (.cell source) token) →
      (m.world.cell source).isRealized = true → m.world.OutOfReach target token
  /-- A dependent is revoked, unless another one took its place while the source was pending. -/
  revoked : ∀ newer x older source dependent, past = newer ++ x :: older →
    x.control = .call (.link source dependent) →
      (∀ y ∈ newer, ∀ d, y.control = .call (.link source d) →
        (y.world.cell source).isRealized = true) →
      (m.world.cell source).isRealized = true → m.world.Settled dependent
  /-- A transformation completes its result, which is the next cell. -/
  transformed : ∀ x ∈ past, ∀ source onSuccess onError,
    x.control = .call (.transform source onSuccess onError) →
      (m.world.cell source).isRealized = true → m.Adopted past x.world.cells.size

/-! ## Cells out of reach

A cell that is realized, or owned by somebody else, need not hear of an outcome any more. That it is out of
reach lasts, since outcomes and owners stay.
-/

namespace World

variable {w : World} {c : CellId} {o : Outcome} {token : Option Token}

theorem settled_iff : w.Settled c ↔ w.OutOfReach c none := by
  rw [Settled, OutOfReach, Cell.isClaimed, Option.isSome_iff_ne_none]

@[simp] theorem peek_setCell_revokee (d : CellId) (revokee : Option CellId) :
    ((w.setCell c { w.cell c with revokee }).cell d).peek = (w.cell d).peek := by
  rw [cell_setCell]
  split
  · next h => rw [h.1]; rfl
  · rfl

@[simp] theorem free_setCell_revokee (d : CellId) (revokee : Option CellId) :
    (w.setCell c { w.cell c with revokee }).Free d ↔ w.Free d := by
  rw [Free, Free, cell_setCell]
  split
  · next h => rw [h.1]; rfl
  · rfl

/-- A cell that has been offered an outcome is out of reach. -/
theorem outOfReach_of_complete (sound : w.Sound) (there : c < w.cells.size) :
    (w.invoke (.complete c o (.ofToken token))).world.OutOfReach c token := by
  cases hrefusal : w.refusal? c (.ofToken token) with
  | none =>
    rw [complete_of_accepted sound hrefusal]
    left
    show ((w.setCell c _).cell c).isRealized = true
    rw [cell_setCell_self there, Cell.isRealized_completed]
  | some v =>
    rw [complete_of_refusal sound hrefusal]
    show w.OutOfReach c token
    by_contra hreach
    rw [OutOfReach, not_or, Bool.not_eq_true, not_not] at hreach
    have := refusal?_eq_none.mpr ⟨hreach.1, violation?_ofToken.mpr hreach.2.symm⟩
    exact nomatch hrefusal.symm.trans this

end World

namespace Machine

variable {m : Machine} {c : CellId} {token : Option Token}

/-- A token that has been handed out is not handed out for a second cell. -/
theorem step_outOfReach (sound : m.world.Sound) (there : c < m.world.cells.size)
    (known : ∀ t, token = some t → t < m.world.freshToken) (h : m.world.OutOfReach c token) :
    m.step.world.OutOfReach c token := by
  have hbecomes := step_cell sound c
  rcases h with realized | foreign
  · obtain ⟨o, ho⟩ := World.peek_of_isRealized sound realized
    exact .inl (Cell.isRealized_of_peek (hbecomes.peek ho))
  · unfold World.OutOfReach
    generalize m.step.world.cell c = cell at hbecomes
    cases hbecomes with
    | allocated fresh => exact absurd fresh (Nat.ne_of_lt there)
    | claimed =>
      right
      rintro rfl
      exact Nat.lt_irrefl _ (known _ rfl)
    | _ => exact .inr foreign

/-- What is linked to a pending cell becomes its revokee. -/
theorem step_link {d : CellId} (sound : m.world.Sound) (there : c < m.world.cells.size)
    (call : m.control = .call (.link c d)) (pending : (m.world.cell c).isRealized = false) :
    (m.step.world.cell c).isRealized = false ∧ (m.step.world.cell c).revokee = some d := by
  have hcell : m.step.world.cell c = { m.world.cell c with revokee := some d } := by
    rw [step_call call]
    show ((m.world.link c d).world.cell c) = _
    rw [World.link_eq sound, Cell.peek_of_pending pending]
    show ((m.world.setCell c _).cell c) = _
    rw [World.cell_setCell_self there]
  rw [hcell]
  exact ⟨pending, rfl⟩

/-- The revokee of a pending cell stays until another one is linked. When the cell is completed, it goes
into the delivery. -/
theorem step_revokee {d : CellId} (sound : m.world.Sound) (there : c < m.world.cells.size)
    (pending : (m.world.cell c).isRealized = false) (linked : (m.world.cell c).revokee = some d)
    (kept : ∀ d, m.control ≠ .call (.link c d)) :
    ((m.step.world.cell c).isRealized = false ∧ (m.step.world.cell c).revokee = some d) ∨
      ∃ ls o, m.step.control = .call (.deliver ls (some d) o) := by
  cases hr : (m.step.world.cell c).isRealized with
  | false =>
    refine .inl ⟨rfl, ?_⟩
    rw [revokee_step sound hr, links_eq_none fun ⟨d, call, _⟩ => kept d call, linked]
    rfl
  | true =>
    obtain ⟨o, a, call, accepted, -⟩ := (step_cell sound c).call_of_isRealized there pending hr
    right
    rw [step_call call,
      World.complete_of_accepted sound (World.refusal?_eq_none.mpr ⟨pending, accepted⟩), linked]
    exact ⟨_, o, rfl⟩

end Machine

namespace World

variable {w w' : World} {e : Control}

/-- A step of a transformation returns a step, or breaks off. -/
theorem performs_stage {s : Stage} {o : Outcome} (h : w.Performs (.stage s o) w' e) :
    (∃ st, e = .ret (.step st)) ∨ ∃ p, e = .raise p := by
  cases s with
  | pure f =>
    cases hf : f o with
    | ok st =>
      have hinvoke : w.invoke (.stage (.pure f) o) = w.ret (.step st) := by
        show w.stage (.pure f) o = _
        simp only [stage, hf]
      exact .inl ⟨st, ((performs_end hinvoke rfl).mp h).2⟩
    | error p =>
      have hinvoke : w.invoke (.stage (.pure f) o) = w.raise p := by
        show w.stage (.pure f) o = _
        simp only [stage, hf]
      exact .inr ⟨p, ((performs_end hinvoke rfl).mp h).2⟩
  | scripted body returned scope =>
    obtain ⟨w₁, e₁, runs, ends⟩ := (performs_call rfl).mp h
    rw [Machine.ends_iff_step] at ends
    cases e₁ with
    | call => cases runs.1
    | raise p => exact .inr ⟨p, by cases (Machine.ends_of_atRest rfl).mp ends; rfl⟩
    | ret r =>
      have ends : (Machine.ofMove (w₁.resume (.returning returned _) r) []).Ends w' e := ends
      unfold resume at ends
      dsimp only at ends
      split at ends <;> cases (Machine.ends_of_atRest rfl).mp ends
      · exact .inl ⟨_, rfl⟩
      · exact .inr ⟨_, rfl⟩
      · exact .inr ⟨_, rfl⟩

end World

/-! ## What has come of the calls

One law for each call that has been made in a history: if nothing is left to be done, it has come to its
end, and did what it was for. Each follows from the law of the call that it goes on with.
-/

namespace History

variable {capacity : ℕ} {m x : Machine} {past : List Machine} {w : World} {stack : List Frame}
  {c source target dependent result inner : CellId} {o : Outcome} {token : Option Token}

theorem sound_of_mem (h : History capacity m past) (hx : x ∈ m :: past) : x.world.Sound := by
  obtain ⟨earlier, hearlier, -⟩ := h.of_mem_cons hx
  exact hearlier.sound

theorem grounded_of_mem (h : History capacity m past) (hx : x ∈ m :: past) : x.Grounded := by
  obtain ⟨earlier, hearlier, -⟩ := h.of_mem_cons hx
  exact hearlier.grounded

/-- Only a cell that is there is linked to. -/
theorem link_there (h : History capacity m past) (hx : x ∈ m :: past)
    (call : x.control = .call (.link source dependent)) : source < x.world.cells.size :=
  ((h.grounded_of_mem hx).call call).1

theorem peek_later (h : History capacity m past) (hx : x ∈ m :: past)
    (ho : (x.world.cell c).peek = some o) : (m.world.cell c).peek = some o := by
  rcases List.mem_cons.mp hx with rfl | hx
  · exact ho
  · exact (h.later hx c).peek o ho

/-- What a listener is told is what the cell holds that it was registered with. -/
theorem stored_of_notify (h : History capacity m past) {s : Subscription}
    (hx : ⟨w, .call (.notify s o), stack⟩ ∈ m :: past) (registered : s ∈ registrations c past) :
    (m.world.cell c).peek = some o := by
  have flying : (s, o) ∈ Machine.inFlight ⟨w, .call (.notify s o), stack⟩ :=
    List.mem_append_left _ List.mem_cons_self
  rcases List.mem_cons.mp hx with rfl | hpast
  · obtain ⟨d, hd, stored⟩ := h.stored_of_inFlight flying
    obtain rfl := h.cell_unique registered hd
    exact stored
  · obtain ⟨earlier, hearlier, suffix⟩ := h.of_mem hpast
    obtain ⟨d, hd, stored⟩ := hearlier.stored_of_inFlight flying
    obtain ⟨y, hy, registers⟩ := mem_registrations.mp hd
    have hy' : y ∈ past := suffix.subset (List.mem_cons_of_mem _ hy)
    obtain rfl := h.cell_unique registered (mem_registrations.mpr ⟨y, hy', registers⟩)
    exact h.peek_later hx stored

/-- A cell that is out of reach stays there. -/
theorem outOfReach_later (h : History capacity m past) (hx : x ∈ m :: past)
    (there : c < x.world.cells.size) (known : ∀ t, token = some t → t < x.world.freshToken)
    (reach : x.world.OutOfReach c token) : m.world.OutOfReach c token := by
  refine h.persists (P := (World.OutOfReach · c token)) hx reach (fun before hx reach => ?_)
    fun _ _ reach => reach
  have le := before.extent_le hx
  exact Machine.step_outOfReach before.sound (le.cell there) (fun t ht => le.token (known t ht)) reach

section Rest

variable (h : History capacity m past) (rest : m.atRest = true)
include h rest

theorem outOfReach_of_complete (known : ∀ t, token = some t → t < w.freshToken)
    (hx : ⟨w, .call (.complete c o (.ofToken token)), stack⟩ ∈ m :: past) :
    m.world.OutOfReach c token := by
  have sound : w.Sound := h.sound_of_mem hx
  have there : c < w.cells.size := (h.grounded_of_mem hx).control
  have hnext := h.sequel rest hx rfl
  obtain ⟨earlier, hearlier, -⟩ := h.of_mem_cons hx
  have le := (hearlier.grounded.advance sound hearlier.tablesSound).2
  exact h.outOfReach_later hnext (le.cell there) (fun t ht => le.token (known t ht))
    (World.outOfReach_of_complete sound there)

theorem settled_of_complete (hx : ⟨w, .call (.complete c o .unowned), stack⟩ ∈ m :: past) :
    m.world.Settled c := by
  have known : ∀ t, (none : Option Token) = some t → t < w.freshToken := nofun
  exact World.settled_iff.mpr (h.outOfReach_of_complete rest known hx)

/-- A cell that is free takes the outcome that it is offered. -/
theorem carries_of_complete (hx : ⟨w, .call (.complete c o .unowned), stack⟩ ∈ m :: past)
    (free : w.Free c) : (m.world.cell c).peek = some o := by
  have there : c < w.cells.size := (h.grounded_of_mem hx).control
  exact h.peek_later (h.sequel rest hx rfl)
    (Machine.peek_of_complete (h.sound_of_mem hx) rfl there free.1 free.2)

theorem carries_of_settle (hx : ⟨w, .call (.settle c o none), stack⟩ ∈ m :: past) (free : w.Free c) :
    (m.world.cell c).peek = some o := h.carries_of_complete rest (h.sequel rest hx rfl) free

theorem carries_of_revoke {cause : Option Error}
    (hx : ⟨w, .call (.revoke c cause), stack⟩ ∈ m :: past) (free : w.Free c) :
    (m.world.cell c).peek = some (.error (.revoked cause)) := by
  have hnext : Machine.ofMove (w.revoke c cause) stack ∈ m :: past := h.sequel rest hx rfl
  rw [World.revoke, free.1] at hnext
  exact h.carries_of_complete rest hnext free

theorem outOfReach_of_settle (hx : ⟨w, .call (.settle c o token), stack⟩ ∈ m :: past) :
    m.world.OutOfReach c token := by
  cases token with
  | none => exact World.settled_iff.mp (h.settled_of_complete rest (h.sequel rest hx rfl))
  | some t =>
    have known : t < w.freshToken := (h.grounded_of_mem hx).control.2
    refine h.outOfReach_of_complete rest ?_ (h.sequel rest hx rfl)
    rintro _ ⟨⟩
    exact known

theorem settled_of_revoke {cause : Option Error}
    (hx : ⟨w, .call (.revoke c cause), stack⟩ ∈ m :: past) : m.world.Settled c := by
  cases hr : (w.cell c).isRealized with
  | true =>
    have there : c < w.cells.size := (h.grounded_of_mem hx).control
    exact World.settled_iff.mpr (h.outOfReach_later hx there nofun (.inl hr))
  | false =>
    have hnext : Machine.ofMove (w.revoke c cause) stack ∈ m :: past := h.sequel rest hx rfl
    rw [World.revoke, hr] at hnext
    exact h.settled_of_complete rest hnext

/-- A free result that follows a cell that is realized takes its outcome. -/
theorem carries_of_forward
    (hx : ⟨w, .call (.forward c (.cell source) none), stack⟩ ∈ m :: past) (free : w.Free c)
    (ho : (w.cell source).peek = some o) : (m.world.cell c).peek = some o := by
  have hnext : Machine.ofMove (w.forward c (.cell source) none) stack ∈ m :: past :=
    h.sequel rest hx rfl
  simp only [World.forward, ho] at hnext
  exact h.carries_of_settle rest hnext free

/-- A result that is linked to a cell follows it afterwards. -/
theorem forwarding_of_link {newer : List Machine} (recent : newer <+: past)
    (hx : ⟨w, .call (.link result inner), .following result inner :: stack⟩ ∈ m :: newer)
    (pending : (w.cell result).isRealized = false) :
    ⟨w.setCell result { w.cell result with revokee := some inner },
      .call (.forward result (.cell inner) none), stack⟩ ∈ m :: newer := by
  have sound := h.sound_of_mem (List.cons_subset_cons m recent.subset hx)
  have hlinked : Machine.ofMove (w.link result inner) (.following result inner :: stack) ∈
      m :: newer := h.sequel_of_prefix rest recent hx rfl
  rw [World.link_eq sound, Cell.peek_of_pending pending] at hlinked
  exact h.sequel_of_prefix rest recent hlinked rfl

/-- A listener that was registered with a cell, and was not left out, has been told what the cell has come
to. -/
theorem notified {s : Subscription} (registered : s ∈ registrations c past)
    (kept : ∀ x ∈ past, s ∉ x.lost) (ho : (m.world.cell c).peek = some o) :
    ∃ w' stack', ⟨w', .call (.notify s o), stack'⟩ ∈ past := by
  have told := told_of_not_lost
    (h.spent_of_registered rest registered (Cell.isRealized_of_peek ho)) kept
  obtain ⟨⟨w', control, stack'⟩, hy, htold⟩ := List.mem_flatMap.mp told
  unfold Machine.told at htold
  split at htold
  · next s' o' call =>
    obtain rfl := List.mem_singleton.mp htold
    obtain rfl : control = _ := call
    have stored := h.stored_of_notify (List.mem_cons_of_mem m hy) registered
    obtain rfl := Option.some.inj (ho.symm.trans stored)
    exact ⟨w', stack', hy⟩
  · cases htold

/-- A listener that was registered with a cell, or was to be, is told what the cell has come to. -/
theorem told_of_subscribe (whole : ∀ x ∈ past, x.lost = []) {l : Listener}
    (hx : ⟨w, .call (.subscribe c l), stack⟩ ∈ m :: past) (ho : (m.world.cell c).peek = some o) :
    ∃ w' stack', ⟨w', .call (.tell l o), stack'⟩ ∈ m :: past := by
  suffices ∃ w' ticket stack', ⟨w', .call (.notify ⟨ticket, l⟩ o), stack'⟩ ∈ m :: past by
    obtain ⟨w', ticket, stack', hy⟩ := this
    exact ⟨w', _, h.sequel rest hy rfl⟩
  have sound : w.Sound := h.sound_of_mem hx
  cases hp : (w.cell c).peek with
  | some o' =>
    have hnext : Machine.ofMove (w.subscribe c l) stack ∈ m :: past := h.sequel rest hx rfl
    rw [World.subscribe_eq sound, hp] at hnext
    obtain rfl := Option.some.inj (ho.symm.trans (h.peek_later hx hp))
    exact ⟨_, _, _, hnext⟩
  | none =>
    have there : c < w.cells.size := (h.grounded_of_mem hx).control.1
    have registered : ⟨w.freshTicket, l⟩ ∈ registrations c past := by
      refine mem_registrations.mpr ⟨_, mem_of_busy rest hx rfl, ?_⟩
      simp [Machine.registers, there]
    have kept : ∀ x ∈ past, ⟨w.freshTicket, l⟩ ∉ x.lost := fun x hx => by
      rw [whole x hx]
      exact List.not_mem_nil
    obtain ⟨w', stack', hy⟩ := h.notified rest registered kept ho
    exact ⟨w', _, stack', List.mem_cons_of_mem m hy⟩

/-- A delivery has told everyone, and then gone on to the revokee, if the sink has returned since. -/
theorem revoking_of_deliver {newer : List Machine} (recent : newer <+: past)
    (sink : ∀ x ∈ newer, x.SinkReturns) {ls : List Subscription}
    (hx : ⟨w, .call (.deliver ls (some dependent) o), stack⟩ ∈ m :: newer) :
    ∃ w₁, Told o w ls w₁ ∧
      ⟨w₁, .call (.revoke dependent (Outcome.error? o)), .completed :: stack⟩ ∈ m :: newer := by
  induction ls generalizing w with
  | nil => exact ⟨w, .nil, h.sequel_of_prefix rest recent hx rfl⟩
  | cons s ls ih =>
    have hnotify := h.sequel_of_prefix rest recent hx rfl
    have sound := h.sound_of_mem (List.cons_subset_cons m recent.subset hnotify)
    obtain ⟨w', r, tells, hy⟩ := h.returned rest recent sink rfl sound hnotify
    obtain ⟨w₁, others, hz⟩ := ih (h.sequel_of_prefix rest recent hy rfl)
    exact ⟨w₁, .cons tells others, hz⟩

variable (sink : ∀ x ∈ past, x.SinkReturns)
include sink

/-- A chain has handed on what its source came to. -/
theorem outOfReach_of_forward
    (hx : ⟨w, .call (.forward target (.cell source) token), stack⟩ ∈ m :: past)
    (hr : (m.world.cell source).isRealized = true) : m.world.OutOfReach target token := by
  have hnext : Machine.ofMove (w.forward target (.cell source) token) stack ∈ m :: past :=
    h.sequel rest hx rfl
  unfold World.forward at hnext
  cases hp : (w.cell source).peek with
  | some o =>
    simp only [hp] at hnext
    exact h.outOfReach_of_settle rest hnext
  | none =>
    simp only [hp] at hnext
    obtain ⟨o, ho⟩ := World.peek_of_isRealized h.sound hr
    obtain ⟨w', stack', hy⟩ := h.told_of_subscribe rest (h.lost_eq_nil sink) hnext ho
    exact h.outOfReach_of_settle rest (h.sequel rest hy rfl)

theorem settled_of_deliver {ls : List Subscription}
    (hx : ⟨w, .call (.deliver ls (some dependent) o), stack⟩ ∈ m :: past) :
    m.world.Settled dependent := by
  obtain ⟨w₁, -, hy⟩ := h.revoking_of_deliver rest List.prefix_rfl sink hx
  exact h.settled_of_revoke rest hy

/-- The result of a transformation takes what its step returned, or follows a cell. -/
theorem settled_of_adopt {step : Step} (hx : ⟨w, .call (.adopt result step), stack⟩ ∈ m :: past) :
    m.world.Settled result ∨
      ∃ inner, step = .follow inner ∧ (m.world.cell inner).isRealized = false := by
  have hnext := h.sequel rest hx rfl
  cases step with
  | value v => exact .inl (h.settled_of_complete rest hnext)
  | fail e => exact .inl (h.settled_of_complete rest hnext)
  | follow inner =>
    cases hr : (m.world.cell inner).isRealized with
    | false => exact .inr ⟨inner, rfl, hr⟩
    | true =>
      refine .inl (World.settled_iff.mpr ?_)
      have there : result < w.cells.size := (h.grounded_of_mem hx).control.1
      cases hp : (w.cell result).isRealized with
      | true => exact h.outOfReach_later hx there nofun (.inl hp)
      | false => exact h.outOfReach_of_forward rest sink (h.forwarding_of_link rest List.prefix_rfl hnext hp) hr

theorem adopted_of_stage {s : Stage}
    (hx : ⟨w, .call (.stage s o), .adopting result :: stack⟩ ∈ m :: past) :
    m.Adopted past result := by
  obtain ⟨w', e, performs, hend⟩ := h.performed rest hx
  obtain ⟨st, rfl⟩ | ⟨p, rfl⟩ := World.performs_stage performs
  · obtain settled | ⟨inner, rfl, pending⟩ := h.settled_of_adopt rest sink (h.sequel rest hend rfl)
    · exact .inl settled
    · exact .inr ⟨_, mem_of_busy rest hend rfl, inner, ⟨rfl, _, rfl⟩, pending⟩
  · -- A step that breaks off fails the result.
    obtain settled | ⟨inner, follows, -⟩ := h.settled_of_adopt rest sink (h.sequel rest hend rfl)
    · exact .inl settled
    · cases follows

/-- A transformation has been told what its source came to. -/
theorem adopted_of_transform {onSuccess : Stage} {onError : Option Stage}
    (hx : ⟨w, .call (.transform source onSuccess onError), stack⟩ ∈ m :: past)
    (hr : (m.world.cell source).isRealized = true) : m.Adopted past w.cells.size := by
  obtain ⟨o, ho⟩ := World.peek_of_isRealized h.sound hr
  obtain ⟨w', stack', hy⟩ :=
    h.told_of_subscribe rest (h.lost_eq_nil sink) (h.sequel rest hx rfl) ho
  have hnext := h.sequel rest hy rfl
  cases o with
  | ok v => exact h.adopted_of_stage rest sink hnext
  | error e =>
    cases onError with
    | some recover => exact h.adopted_of_stage rest sink hnext
    | none => exact .inl (h.settled_of_complete rest hnext)

end Rest

/-! ## The main result -/

/-- What was linked to a pending cell is its revokee while the cell is pending and nothing else is linked to
it, or has gone into its delivery. -/
theorem linked_or_delivered {newer older : List Machine}
    (h : History capacity m (newer ++ x :: older)) (call : x.control = .call (.link source dependent))
    (pending : (x.world.cell source).isRealized = false)
    (kept : ∀ y ∈ newer, ∀ d, y.control = .call (.link source d) →
      (y.world.cell source).isRealized = true) :
    ((m.world.cell source).isRealized = false ∧ (m.world.cell source).revokee = some dependent) ∨
      ∃ z ∈ m :: (newer ++ x :: older), ∃ ls o, z.control = .call (.deliver ls (some dependent) o) := by
  -- The induction is on the machines since the link was made.
  induction newer generalizing m with
  | nil =>
    have hx : x ∈ m :: ([] ++ x :: older) := by simp
    have before := h.before
    obtain ⟨-, rfl⟩ | ⟨rest, -⟩ := h.step_or_enter
    · exact .inl (Machine.step_link before.sound (h.link_there hx call) call pending)
    · cases rest.symm.trans (Machine.busy_of_call call)
  | cons y newer ih =>
    have before : History capacity y (newer ++ x :: older) := h.before
    have hx : x ∈ y :: (newer ++ x :: older) := by simp
    obtain ⟨unrealized, linked⟩ | ⟨z, hz, hcontrol⟩ :=
      ih before fun y hy => kept y (List.mem_cons_of_mem _ hy)
    · have hlink : ∀ d, y.control ≠ .call (.link source d) := by
        intro d hd
        exact nomatch unrealized.symm.trans (kept y List.mem_cons_self d hd)
      obtain ⟨-, rfl⟩ | ⟨-, thread, log, c, -, rfl⟩ := h.step_or_enter
      · have there := (before.extent_le hx).cell (before.link_there hx call)
        obtain hkept | hdeliver := Machine.step_revokee before.sound there unrealized linked hlink
        · exact .inl hkept
        · exact .inr ⟨_, List.mem_cons_self, hdeliver⟩
      · exact .inl ⟨unrealized, linked⟩
    · exact .inr ⟨z, List.mem_cons_of_mem _ hz, hcontrol⟩

/-- **No link is ever lost**, whatever is done in between, as long as the sink returns. -/
theorem links_kept (h : History capacity m past) (rest : m.atRest = true)
    (sink : ∀ x ∈ past, x.SinkReturns) : LinksKept m past where
  chained x hx target source token call hr := by
    obtain ⟨w, control, stack⟩ := x
    obtain rfl : control = _ := call
    exact h.outOfReach_of_forward rest sink (List.mem_cons_of_mem _ hx) hr
  revoked newer x older source dependent split call kept hr := by
    subst split
    have hx : x ∈ m :: (newer ++ x :: older) := by simp
    cases hp : (x.world.cell source).isRealized with
    | true =>
      -- The dependent is revoked on the spot.
      obtain ⟨w, control, stack⟩ := x
      obtain rfl : control = .call (.link source dependent) := call
      have sound : w.Sound := h.sound_of_mem hx
      obtain ⟨o, ho⟩ := World.peek_of_isRealized sound hp
      have hnext : Machine.ofMove (w.link source dependent) stack ∈ _ := h.sequel rest hx rfl
      rw [World.link_eq sound, ho] at hnext
      exact h.settled_of_revoke rest hnext
    | false =>
      obtain ⟨pending, -⟩ | ⟨⟨w, control, stack⟩, hz, ls, o, hcontrol⟩ :=
        h.linked_or_delivered call hp kept
      · exact nomatch pending.symm.trans hr
      · obtain rfl : control = _ := hcontrol
        exact h.settled_of_deliver rest sink hz
  transformed x hx source onSuccess onError call hr := by
    obtain ⟨w, control, stack⟩ := x
    obtain rfl : control = _ := call
    exact h.adopted_of_transform rest sink (List.mem_cons_of_mem _ hx) hr

end History

/-- A run in which a chain is registered behind a listener that breaks off, and then its source is
completed. -/
theorem links_kept_past_panic : ∃ m past, History 8 m past ∧ m.atRest = true ∧
    (∃ x ∈ past, x.control = .call (.forward 1 (.cell 0) none)) ∧
    (m.world.cell 0).isRealized = true ∧ LinksKept m past := by
  let failing : Script := [.fault (.panic .foreign)]
  have empty : History 8 _ _ := .start
  have source := (empty.enter rfl {} [] (.operate (.cell (.create "s")))).step rfl
  have target := (source.enter rfl {} [] (.operate (.cell (.create "t")))).step rfl
  have listened := (target.enter rfl {} []
    (.operate (.cell (.listen "s" "heard" failing [])))).steps 3 (by decide +kernel)
  have chaining := (listened.enter (by decide +kernel) {} []
    (.operate (.cell (.chain "t" (.cell "s") none)))).step rfl
  have chained := chaining.steps 3 (by decide +kernel)
  have completed := (chained.enter (by decide +kernel) {} []
    (.operate (.cell (.complete "s" (.ok (.constant 7)))))).steps 21 (by decide +kernel)
  refine ⟨_, _, completed, by decide +kernel, ⟨_, List.mem_append_right _ (List.mem_cons_of_mem _
    (List.mem_append_left _ (List.mem_append_right _ (List.mem_singleton_self _)))), ?chain⟩,
    by decide +kernel, completed.links_kept (by decide +kernel) (by decide +kernel)⟩
  case chain => rfl

end RequestGraph
