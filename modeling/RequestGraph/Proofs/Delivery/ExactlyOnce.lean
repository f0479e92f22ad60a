import RequestGraph.Proofs.Delivery.Order

/-!
# Delivery, exactly once and in order

What holds of the delivery to listeners at every machine of every run, whatever the listeners themselves
do: they may register with, complete, chain or revoke the same cells or others, and break off.
-/

namespace RequestGraph

/-- Listeners are told exactly once and in order. -/
structure DeliversOnce (m : Machine) (past : List Machine) : Prop where
  /-- No listener is told twice, and one that was left without being told never is. -/
  once : ((spent (m :: past)).map Subscription.ticket).Nodup
  /-- A listener is registered with one cell. -/
  own : ∀ c d s, s ∈ registrations c past → s ∈ registrations d past → c = d
  /-- Whoever is told was registered with a cell, and is told what that cell holds. -/
  stored : ∀ s o, m.control = .call (.notify s o) →
    ∃ c, s ∈ registrations c past ∧ (m.world.cell c).peek = some o
  /-- A completion that is accepted delivers to the listeners that were registered while the cell was
  pending, in the order of their registration, and then to the revokee that was linked last. -/
  completing : ∀ c o a, m.control = .call (.complete c o a) → m.world.refusal? c a = none →
    m.step = ⟨m.world.setCell c ((m.world.cell c).completed o),
      .call (.deliver (registrations c past) (linked c past) o), m.stack⟩
  /-- A delivery tells them one after another, each through to its end, and then revokes the revokee. -/
  inOrder : ∀ listeners revokee o, m.control = .call (.deliver listeners revokee o) →
    ∀ n, ∃ heard, Delivering m.world listeners revokee o heard
      ((⟨m.world, m.control, []⟩ : Machine).iterate n)
  /-- A listener that is registered with a realized cell is told in place of the registration, which comes
  back when the listener does. -/
  inline : ∀ c l o, m.control = .call (.subscribe c l) → (m.world.cell c).peek = some o →
    m.step = ⟨{ m.world with freshTicket := m.world.freshTicket + 1 },
      .call (.notify ⟨m.world.freshTicket, l⟩ o), m.stack⟩
  /-- Telling a user's listener shows that it was told, and what, and then runs its script for that outcome, once, in
  the scope of what it was told. -/
  tells : ∀ tag onSuccess onError scope o, m.control = .call (.tell (.user tag onSuccess onError scope) o) →
    m.step = ⟨m.world.note (.heard tag (m.world.reportOutcome o)), .call (match o with
      | .ok _ => .script onSuccess (scope.receive o)
      | .error _ => .script onError (scope.receive o)), m.stack⟩
  /-- What a listener breaks off with is kept in and reported, once; otherwise nothing is reported. -/
  reported : ∀ s o w' e, m.world.Performs (.notify s o) w' e ↔
    (∃ r, m.world.Performs (.tell s.listener o) w' (.ret r) ∧ e = .ret .unit) ∨
      ∃ w₁ p, m.world.Performs (.tell s.listener o) w₁ (.raise p) ∧
        w₁.Performs (.report (.ofPanic p)) w' e
  /-- A report hands the error to the sink once, and changes nothing else. A sink that logs adds the error to the log,
  and then returns or breaks off. -/
  sinks : ∀ e, m.control = .call (.report e) → m.step = match m.world.sink with
    | .log => ⟨m.world.note (.sunk (m.world.reportError e)), .ret .unit, m.stack⟩
    | .panic => ⟨m.world.note (.sunk (m.world.reportError e)), .raise (.message "sink failed"), m.stack⟩
    | .off => ⟨m.world, .ret .unit, m.stack⟩
  /-- If the sink returns, a delivery that ends has told everyone and revoked the revokee. -/
  everyone : ∀ listeners revokee o, m.control = .call (.deliver listeners revokee o) → ∀ n,
    (∀ k < n, ((⟨m.world, m.control, []⟩ : Machine).iterate k).SinkReturns) →
    ((⟨m.world, m.control, []⟩ : Machine).iterate n).atRest = true →
      ∃ w₁ w', Told o m.world listeners w₁ ∧
        (⟨m.world, m.control, []⟩ : Machine).iterate n = ⟨w', .ret (.verdict (.ok true)), []⟩ ∧
        (revokee = none → w' = w₁) ∧
        ∀ d, revokee = some d → ∃ r, w₁.Performs (.revoke d (Outcome.error? o)) w' (.ret r)
  /-- If the sink breaks off on the report for a listener, the panic leaves the delivery, which has told
  the listeners up to that one. Only while the revokee is being revoked may it break off otherwise. -/
  upTo : ∀ listeners revokee o, m.control = .call (.deliver listeners revokee o) → ∀ n w' p,
    (⟨m.world, m.control, []⟩ : Machine).iterate n = ⟨w', .raise p, []⟩ →
      (∃ done s rest w₁, listeners = done ++ s :: rest ∧ Told o m.world done w₁ ∧
        SinkFailed w₁ s o w' p) ∨
      ∃ d w₁, revokee = some d ∧ Told o m.world listeners w₁ ∧
        w₁.Performs (.revoke d (Outcome.error? o)) w' (.raise p)
  /-- A panic that comes through to a delivery leaves the rest of its listeners without being told. -/
  leaves : ∀ p rest revokee o stack, m.control = .raise p →
    m.stack = .delivering rest revokee o :: stack →
      m.lost = rest ∧ m.step = ⟨m.world, .raise p, stack⟩
  /-- If the sink has always returned, then at rest everybody who was registered with a cell that is
  realized has been told. -/
  settled : m.atRest = true → (∀ x ∈ past, x.SinkReturns) → ∀ c s, s ∈ registrations c past →
    (m.world.cell c).isRealized = true → s ∈ past.flatMap Machine.told

/-- Nobody is left without being told while fragile frames are safe. -/
theorem Machine.Orderly.lost_eq_nil {m : Machine} (h : m.Orderly) : m.lost = [] := by
  unfold Machine.lost
  split
  · next p frame stack hcontrol hstack =>
      cases frame with
      | delivering rest revokee o =>
          have hsuits := h.control (.delivering rest revokee o) (by rw [hstack]; rfl) rfl
          rw [hcontrol] at hsuits
          cases hsuits with
          | unread henriching => cases henriching
      | _ => rfl
  · rfl

namespace History

variable {capacity : Nat} {m : Machine} {past : List Machine}

/-- A listener that is spent and was never left without being told has been told. -/
theorem told_of_not_lost {s : Subscription} (hs : s ∈ spent past) (kept : ∀ x ∈ past, s ∉ x.lost) :
    s ∈ past.flatMap Machine.told := by
  obtain ⟨x, hx, hmem⟩ := List.mem_flatMap.mp hs
  exact List.mem_flatMap.mpr ⟨x, hx, (List.mem_append.mp hmem).resolve_right (kept x hx)⟩

/-- Nobody has been left without being told as long as the sink has returned. -/
theorem lost_eq_nil (h : History capacity m past) (sink : ∀ x ∈ past, x.SinkReturns) :
    ∀ x ∈ past, x.lost = [] := by
  intro x hx
  obtain ⟨past', hpast, hsuffix⟩ := h.of_mem hx
  exact (hpast.orderly fun y hy =>
    sink y (hsuffix.subset (List.mem_cons_of_mem _ hy))).lost_eq_nil

theorem told_of_spent (h : History capacity m past) (sink : ∀ x ∈ past, x.SinkReturns)
    {s : Subscription} (hs : s ∈ spent past) : s ∈ past.flatMap Machine.told :=
  told_of_not_lost hs fun x hx hlost => by
    rw [h.lost_eq_nil sink x hx] at hlost
    cases hlost

/-- The listeners that are told or lost next are outstanding now. -/
theorem nodup_spent_cons (h : History capacity m past) :
    ((spent (m :: past)).map Subscription.ticket).Nodup := by
  cases hr : m.atRest with
  | true =>
      rw [spent_of_atRest hr]
      have := h.nodup_tickets.1
      rw [List.map_append] at this
      exact (List.nodup_append.mp this).2.1
  | false =>
      have := (h.step hr).nodup_tickets.1
      rw [List.map_append] at this
      exact (List.nodup_append.mp this).2.1

/-- **Exactly-once, in-order delivery**, at every machine of every run. -/
theorem delivers_once (h : History capacity m past) : DeliversOnce m past where
  once := h.nodup_spent_cons
  own c d s hc hd := h.cell_unique hc hd
  stored s o call := by
    apply h.stored_of_inFlight
    rw [Machine.inFlight, call]
    exact List.mem_append_left _ List.mem_cons_self
  completing c o a call accepted := by
    -- A completion is only accepted while the cell is pending, and until then the listeners registered are
    -- all there.
    have hp : (m.world.cell c).isRealized = false := by
      by_contra hr
      rw [World.refusal?, if_pos (Bool.not_eq_false _ ▸ hr)] at accepted
      cases accepted
    rw [← h.listeners_eq hp, ← h.revokee_eq hp]
    have sound := h.sound
    obtain ⟨w, control, stack⟩ := m
    obtain rfl : control = .call (.complete c o a) := call
    show Machine.ofMove (w.invoke _) stack = _
    rw [World.complete_of_accepted sound accepted]
    rfl
  inOrder listeners revokee o call n := by
    rw [call]
    exact delivering_iterate m.world listeners revokee o n
  inline c l o call stored := by
    have sound := h.sound
    obtain ⟨w, control, stack⟩ := m
    obtain rfl : control = .call (.subscribe c l) := call
    show Machine.ofMove (w.subscribe c l) stack = _
    rw [World.subscribe_eq sound, stored]
    rfl
  tells tag onSuccess onError scope o call := by
    rw [Machine.step_call call]
    cases o <;> rfl
  reported s o w' e := performs_notify
  sinks e call := by
    rw [Machine.step_call call]
    show Machine.ofMove (m.world.report e) m.stack = _
    rw [World.report]
    cases m.world.sink <;> rfl
  everyone listeners revokee o call n := by
    rw [call]
    exact everyone_told h.sound
  upTo listeners revokee o call n w' p := by
    rw [call]
    exact broken_off
  leaves p rest revokee o stack hcontrol hstack := by
    obtain ⟨w, control, frames⟩ := m
    obtain rfl : control = .raise p := hcontrol
    obtain rfl : frames = _ := hstack
    exact ⟨rfl, rfl⟩
  settled rest sink c s hs hr := h.told_of_spent sink (h.spent_of_registered rest hs hr)

end History

/-- A run with three listeners. The first breaks off, which is reported. The second registers one more, which is told
before the third, and tries to complete the cell again. -/
theorem delivers_once_to_listeners : ∃ m past, History 8 m past ∧ m.atRest = true ∧
    (∀ x ∈ past, x.SinkReturns) ∧ (past.flatMap Machine.told).map Subscription.ticket = [2, 3, 1, 0] ∧
      DeliversOnce m past := by
  let failing : Script := [.fault (.panic .foreign)]
  let reentrant : Script :=
    [.cell (.listen "c" "inner" [] []), .cell (.complete "c" (.ok (.constant 9)))]
  have empty : History 8 _ _ := .start
  have created := (empty.enter rfl {} [] (.operate (.cell (.create "c")))).step rfl
  have first := (created.enter rfl {} []
    (.operate (.cell (.listen "c" "first" failing [])))).steps 3 (by decide +kernel)
  have second := (first.enter (by decide +kernel) {} []
    (.operate (.cell (.listen "c" "second" reentrant [])))).steps 3 (by decide +kernel)
  have third := (second.enter (by decide +kernel) {} []
    (.operate (.cell (.listen "c" "third" [] [])))).steps 3 (by decide +kernel)
  have told := (third.enter (by decide +kernel) {} []
    (.operate (.cell (.complete "c" (.ok (.constant 7)))))).steps 39 (by decide +kernel)
  refine ⟨_, _, told, ?rest, ?sink, ?order, told.delivers_once⟩
  case rest => decide +kernel
  case sink => decide +kernel
  case order => decide +kernel

end RequestGraph
