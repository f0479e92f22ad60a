import RequestGraph.Proofs.Delivery.Registration
import RequestGraph.Proofs.Engine.Calm

/-!
# One delivery

A completion tells the listeners one after another, each through to its end, and revokes the revokee
after the last. What a listener breaks off with is kept in and reported, once. Only if the sink breaks off
as well does the delivery end early: then the listener that was just being told is the last.
-/

namespace RequestGraph

/-- Telling some listeners one after another leads from one world to another. -/
inductive Told (o : Outcome) : World → List Subscription → World → Prop
  | nil {w : World} : Told o w [] w
  | cons {w w₁ w' : World} {s : Subscription} {rest : List Subscription} {r : Result}
      (tells : w.Performs (.notify s o) w₁ (.ret r)) (others : Told o w₁ rest w') :
      Told o w (s :: rest) w'

theorem Told.snoc {o : Outcome} {w w₁ w' : World} {done : List Subscription} {s : Subscription}
    {r : Result} (h : Told o w done w₁) (tells : w₁.Performs (.notify s o) w' (.ret r)) :
    Told o w (done ++ [s]) w' := by
  induction h with
  | nil => exact .cons tells .nil
  | cons tells' _ ih => exact .cons tells' (ih tells)

/-- How far a delivery has come that began in a world: the listeners that it has turned to so far, and
the machine. -/
inductive Delivering (w : World) (listeners : List Subscription) (revokee : Option CellId)
    (o : Outcome) : List Subscription → Machine → Prop
  /-- Some have been told; the next is to be told. -/
  | between {done rest : List Subscription} {w₁ : World} (all : listeners = done ++ rest)
      (told : Told o w done w₁) :
      Delivering w listeners revokee o done ⟨w₁, .call (.deliver rest revokee o), []⟩
  /-- Some have been told, and one is being told. -/
  | telling {done rest : List Subscription} {s : Subscription} {w₁ : World}
      (all : listeners = done ++ s :: rest) (told : Told o w done w₁) (n : Nat) :
      Delivering w listeners revokee o (done ++ [s])
        (((⟨w₁, .call (.notify s o), []⟩ : Machine).iterate n).above [.delivering rest revokee o])
  /-- Some have been told, and telling one broke off. -/
  | failed {done rest : List Subscription} {s : Subscription} {w₁ w₂ : World} {p : Panic}
      (all : listeners = done ++ s :: rest) (told : Told o w done w₁)
      (breaks : w₁.Performs (.notify s o) w₂ (.raise p)) :
      Delivering w listeners revokee o (done ++ [s]) ⟨w₂, .raise p, []⟩
  /-- All have been told, and the revokee is being revoked. -/
  | revoking {d : CellId} {w₁ : World} (linked : revokee = some d)
      (told : Told o w listeners w₁) (n : Nat) :
      Delivering w listeners revokee o listeners
        (((⟨w₁, .call (.revoke d (Outcome.error? o)), []⟩ : Machine).iterate n).above [.completed])
  /-- All have been told, and revoking the revokee broke off. -/
  | revokeFailed {d : CellId} {w₁ w₂ : World} {p : Panic} (linked : revokee = some d)
      (told : Told o w listeners w₁)
      (breaks : w₁.Performs (.revoke d (Outcome.error? o)) w₂ (.raise p)) :
      Delivering w listeners revokee o listeners ⟨w₂, .raise p, []⟩
  /-- All have been told, and the revokee has been revoked. -/
  | revoked {d : CellId} {w₁ w₂ : World} {r : Result} (linked : revokee = some d)
      (told : Told o w listeners w₁)
      (revokes : w₁.Performs (.revoke d (Outcome.error? o)) w₂ (.ret r)) :
      Delivering w listeners revokee o listeners ⟨w₂, .ret (.verdict (.ok true)), []⟩
  /-- All have been told, and there is no revokee. -/
  | finished {w₁ : World} (unlinked : revokee = none) (told : Told o w listeners w₁) :
      Delivering w listeners revokee o listeners ⟨w₁, .ret (.verdict (.ok true)), []⟩

variable {w : World} {ls : List Subscription} {revokee : Option CellId} {o : Outcome}

theorem Machine.iterate_succ (m : Machine) (n : Nat) : m.iterate (n + 1) = (m.iterate n).step := by
  rw [iterate_add]
  rfl

theorem Machine.eq_of_atRest {m : Machine} (h : m.atRest = true) :
    (∃ r, m = ⟨m.world, .ret r, []⟩) ∨ ∃ p, m = ⟨m.world, .raise p, []⟩ := by
  obtain ⟨w, control, stack⟩ := m
  obtain ⟨hcontrol, rfl⟩ := atRest_iff.mp h
  cases control with
  | call => cases hcontrol
  | ret r => exact .inl ⟨r, rfl⟩
  | raise p => exact .inr ⟨p, rfl⟩

/-- A delivery that goes on by a step is one that has come further. -/
theorem Delivering.step {heard : List Subscription} {m : Machine}
    (h : Delivering w ls revokee o heard m) :
    ∃ heard', Delivering w ls revokee o heard' m.step := by
  cases h with
  | @between done rest w₁ all told =>
      cases rest with
      -- Everybody has been told, and the revokee comes last.
      | nil =>
          obtain rfl : ls = heard := by rw [all, List.append_nil]
          cases revokee with
          | none => exact ⟨_, .finished rfl told⟩
          | some d => exact ⟨_, .revoking rfl told 0⟩
      | cons s rest => exact ⟨_, .telling all told 0⟩
  | @telling done rest s w₁ all told n =>
      cases hr : ((⟨w₁, .call (.notify s o), []⟩ : Machine).iterate n).atRest with
      -- The listener is still running, above the rest of the delivery.
      | false =>
          rw [Machine.step_above hr, ← Machine.iterate_succ]
          exact ⟨_, .telling all told (n + 1)⟩
      -- It has come to its end: with a result the delivery goes on, with a panic it is over.
      | true =>
          rcases Machine.eq_of_atRest hr with ⟨r, hm⟩ | ⟨p, hm⟩
          · have tells : w₁.Performs (.notify s o) _ (.ret r) := ⟨rfl, n, hm⟩
            rw [hm]
            exact ⟨_, .between (by rw [all, List.append_assoc]; rfl) (told.snoc tells)⟩
          · have breaks : w₁.Performs (.notify s o) _ (.raise p) := ⟨rfl, n, hm⟩
            rw [hm]
            exact ⟨_, .failed all told breaks⟩
  | failed all told breaks => exact ⟨_, .failed all told breaks⟩
  | @revoking d w₁ linked told n =>
      cases hr : ((⟨w₁, .call (.revoke d (Outcome.error? o)), []⟩ : Machine).iterate n).atRest with
      | false =>
          rw [Machine.step_above hr, ← Machine.iterate_succ]
          exact ⟨_, .revoking linked told (n + 1)⟩
      | true =>
          rcases Machine.eq_of_atRest hr with ⟨r, hm⟩ | ⟨p, hm⟩
          · have revokes : w₁.Performs (.revoke d (Outcome.error? o)) _ (.ret r) := ⟨rfl, n, hm⟩
            rw [hm]
            exact ⟨_, .revoked linked told revokes⟩
          · have breaks : w₁.Performs (.revoke d (Outcome.error? o)) _ (.raise p) := ⟨rfl, n, hm⟩
            rw [hm]
            exact ⟨_, .revokeFailed linked told breaks⟩
  | revokeFailed linked told breaks => exact ⟨_, .revokeFailed linked told breaks⟩
  | revoked linked told revokes => exact ⟨_, .revoked linked told revokes⟩
  | finished unlinked told => exact ⟨_, .finished unlinked told⟩

/-- A delivery tells its listeners one after another, and then revokes the revokee. -/
theorem delivering_iterate (w : World) (ls : List Subscription) (revokee : Option CellId)
    (o : Outcome) (n : Nat) : ∃ heard, Delivering w ls revokee o heard
      ((⟨w, .call (.deliver ls revokee o), []⟩ : Machine).iterate n) := by
  induction n with
  | zero => exact ⟨[], .between rfl .nil⟩
  | succ n ih =>
      obtain ⟨heard, h⟩ := ih
      rw [Machine.iterate_succ]
      exact h.step

/-! ## How listeners and the sink break off

A listener that breaks off is reported and the delivery goes on. So a panic that comes out of a delivery is
always one of the sink.
-/

theorem performs_report {e : Error} {w' : World} {c : Control} :
    w.Performs (.report e) w' c ↔
      (w' = if w.sink = .off then w else w.note (.sunk (w.reportError e))) ∧
        c = if w.sink = .panic then .raise (.message "sink failed") else .ret .unit := by
  cases hsink : w.sink with
  | log =>
      have hmove : w.invoke (.report e) = (w.note (.sunk (w.reportError e))).ret .unit := by
        simp only [World.invoke, World.report, hsink]
      simp [World.performs_end hmove rfl]
  | panic =>
      have hmove : w.invoke (.report e) =
          (w.note (.sunk (w.reportError e))).raise (.message "sink failed") := by
        simp only [World.invoke, World.report, hsink]
      simp [World.performs_end hmove rfl]
  | off =>
      have hmove : w.invoke (.report e) = w.ret .unit := by
        simp only [World.invoke, World.report, hsink]
      simp [World.performs_end hmove rfl]

/-- What a listener breaks off with is kept in and reported; nothing else is. -/
theorem performs_notify {s : Subscription} {w' : World} {e : Control} :
    w.Performs (.notify s o) w' e ↔
      (∃ r, w.Performs (.tell s.listener o) w' (.ret r) ∧ e = .ret .unit) ∨
        ∃ w₁ p, w.Performs (.tell s.listener o) w₁ (.raise p) ∧
          w₁.Performs (.report (.ofPanic p)) w' e := by
  have hmove : w.invoke (.notify s o) = w.call (.tell s.listener o) [.notifying] := rfl
  rw [World.performs_call hmove]
  constructor
  · rintro ⟨w₁, e₁, tells, ends⟩
    cases e₁ with
    | call => exact nomatch tells.1
    | ret r =>
        have hrest := (Machine.ends_of_atRest rfl).mp (Machine.ends_iff_step.mp ends)
        cases hrest
        exact .inl ⟨r, tells, rfl⟩
    | raise p => exact .inr ⟨w₁, p, tells, Machine.ends_iff_step.mp ends⟩
  · rintro (⟨r, tells, rfl⟩ | ⟨w₁, p, tells, reports⟩)
    · exact ⟨w', .ret r, tells, Machine.ends_iff_step.mpr (.refl rfl)⟩
    · exact ⟨w₁, .raise p, tells, Machine.ends_iff_step.mpr reports⟩

/-- Telling a listener breaks off in a world: the listener did, and the sink on the report of it. -/
def SinkFailed (w : World) (s : Subscription) (o : Outcome) (w' : World) (p : Panic) : Prop :=
  ∃ w₁ q, w.Performs (.tell s.listener o) w₁ (.raise q) ∧ w₁.sink = .panic ∧
    w' = w₁.note (.sunk (w₁.reportError (.ofPanic q))) ∧ p = .message "sink failed"

theorem performs_notify_raise {s : Subscription} {w' : World} {p : Panic} :
    w.Performs (.notify s o) w' (.raise p) ↔ SinkFailed w s o w' p := by
  rw [performs_notify]
  constructor
  · rintro (⟨r, -, hret⟩ | ⟨w₁, q, tells, reports⟩)
    · cases hret
    · obtain ⟨hw, hc⟩ := performs_report.mp reports
      cases hsink : w₁.sink with
      | panic =>
          rw [hsink] at hw hc
          exact ⟨w₁, q, tells, hsink, hw, Control.raise.inj hc⟩
      | log | off =>
          rw [hsink] at hc
          cases hc
  · rintro ⟨w₁, q, tells, hsink, rfl, rfl⟩
    refine .inr ⟨w₁, q, tells, performs_report.mpr ?_⟩
    simp [hsink]

/-- As long as the sink returns, a delivery that ends has told everyone and revoked the revokee. -/
theorem everyone_told (sound : w.Sound) {n : Nat}
    (sink : ∀ k < n, ((⟨w, .call (.deliver ls revokee o), []⟩ : Machine).iterate k).SinkReturns)
    (rest : ((⟨w, .call (.deliver ls revokee o), []⟩ : Machine).iterate n).atRest = true) :
    ∃ w₁ w', Told o w ls w₁ ∧
      (⟨w, .call (.deliver ls revokee o), []⟩ : Machine).iterate n =
        ⟨w', .ret (.verdict (.ok true)), []⟩ ∧
      (revokee = none → w' = w₁) ∧
      ∀ d, revokee = some d → ∃ r, w₁.Performs (.revoke d (Outcome.error? o)) w' (.ret r) := by
  obtain ⟨heard, h⟩ := delivering_iterate w ls revokee o n
  -- As the sink returns, no panic can come out of a delivery. That leaves the two ways in which one ends
  -- well.
  have calm (w' : World) (p : Panic) : _ ≠ (⟨w', .raise p, []⟩ : Machine) :=
    Machine.calm_not_raise sound rfl sink
  generalize (⟨w, .call (.deliver ls revokee o), []⟩ : Machine).iterate n = m at *
  cases h with
  | between => cases rest
  | telling =>
      obtain ⟨-, hstack⟩ := Machine.atRest_iff.mp rest
      exact absurd hstack (List.append_ne_nil_of_right_ne_nil _ (List.cons_ne_nil _ _))
  | revoking =>
      obtain ⟨-, hstack⟩ := Machine.atRest_iff.mp rest
      exact absurd hstack (List.append_ne_nil_of_right_ne_nil _ (List.cons_ne_nil _ _))
  | failed => exact (calm _ _ rfl).elim
  | revokeFailed => exact (calm _ _ rfl).elim
  | revoked linked told revokes =>
      refine ⟨_, _, told, rfl, (fun h => nomatch linked.symm.trans h), ?_⟩
      intro d' hd'
      obtain rfl := Option.some.inj (linked.symm.trans hd')
      exact ⟨_, revokes⟩
  | finished unlinked told =>
      exact ⟨_, _, told, rfl, fun _ => rfl, fun d h => nomatch unlinked.symm.trans h⟩

/-- A delivery that breaks off does so because the sink did, on the report for the last listener that
was told, or else when everybody was told and the revokee was being revoked. -/
theorem broken_off {w' : World} {p : Panic} {n : Nat}
    (h : (⟨w, .call (.deliver ls revokee o), []⟩ : Machine).iterate n = ⟨w', .raise p, []⟩) :
    (∃ done s rest w₁, ls = done ++ s :: rest ∧ Told o w done w₁ ∧ SinkFailed w₁ s o w' p) ∨
      ∃ d w₁, revokee = some d ∧ Told o w ls w₁ ∧
        w₁.Performs (.revoke d (Outcome.error? o)) w' (.raise p) := by
  obtain ⟨heard, hd⟩ := delivering_iterate w ls revokee o n
  rw [h] at hd
  generalize hm : (⟨w', .raise p, []⟩ : Machine) = m at hd
  cases hd with
  | between => cases hm
  | telling =>
      have hstack := congrArg Machine.stack hm
      exact absurd hstack.symm (List.append_ne_nil_of_right_ne_nil _ (List.cons_ne_nil _ _))
  | revoking =>
      have hstack := congrArg Machine.stack hm
      exact absurd hstack.symm (List.append_ne_nil_of_right_ne_nil _ (List.cons_ne_nil _ _))
  | failed all told breaks =>
      cases hm
      exact .inl ⟨_, _, _, _, all, told, performs_notify_raise.mp breaks⟩
  | revokeFailed linked told breaks =>
      cases hm
      exact .inr ⟨_, _, linked, told, breaks⟩
  | revoked => cases hm
  | finished => cases hm

end RequestGraph
