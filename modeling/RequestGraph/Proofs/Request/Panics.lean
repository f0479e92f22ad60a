import RequestGraph.Proofs.Engine.Containment
import RequestGraph.Proofs.Request.Memoizing

/-!
# What becomes of a node's panic

A node that breaks off is accounted for once. If its cell is pending, the cell fails with the panic, and the
sink hears nothing of it; if the cell has been completed by then, it keeps its outcome, and the sink hears of
the panic. Either way the job of the node comes back as if nothing had happened, and its claim is spent:

    pending   →  the cell fails with p, its listeners are told, and the job comes back
    realized  →  p is reported, once, and the job comes back

Nodes that run inside one another, because the one has asked for the key of the other, have different cells,
and none but the innermost one has to do with the panic.
-/

namespace RequestGraph

/-- How the panic of a node is accounted for that leaves its body now, above the rest of a stack. -/
structure Machine.Accounts (capacity : ℕ) (y : Machine) (p : Panic) (claim : Claim)
    (stack : List Frame) : Prop where
  /-- A cell that is pending fails with the panic, and its listeners are told so. -/
  fails : (y.world.cell claim.cell).isRealized = false →
    y.iterate 2 = ⟨y.world.setCell claim.cell ((y.world.cell claim.cell).completed (.error (.ofPanic p))),
      .call (.deliver (y.world.cell claim.cell).listeners.toList (y.world.cell claim.cell).revokee
        (.error (.ofPanic p))), .accounting (.ofPanic p) :: stack⟩ ∧
    ((y.iterate 2).world.cell claim.cell).peek = some (.error (.ofPanic p))
  /-- After that the job comes back. The panic is not reported. -/
  unreported : (y.world.cell claim.cell).isRealized = false → ∀ c, (y.iterate 2).control = .call c →
    (⟨(y.iterate 2).world, .call c, []⟩ : Machine).SinkHolds → ∀ w e,
      (y.iterate 2).world.Performs c w e → ∃ n,
        y.iterate n = ⟨w, .ret (.verdict (.ok true)), .accounting (.ofPanic p) :: stack⟩ ∧
          y.iterate (n + 1) = ⟨w, .ret .unit, stack⟩
  /-- A cell that has an outcome keeps it, and the panic is reported, once, before the job comes back. -/
  reported : ∀ o, (y.world.cell claim.cell).peek = some o →
    y.iterate 2 = ⟨y.world, .ret (.verdict (.ok false)), .accounting (.ofPanic p) :: stack⟩ ∧
      y.iterate 3 = ⟨y.world, .call (.report (.ofPanic p)), stack⟩ ∧
        (y.world.sink ≠ .panic → y.iterate 4 =
          ⟨if y.world.sink = .off then y.world
            else y.world.note (.sunk (y.world.reportError (.ofPanic p))), .ret .unit, stack⟩)
  /-- From then on the outcome of the cell does not change, completing it does nothing, and a claim that was
  kept answers that it was refused. -/
  spent : ∀ m past, History capacity m past → y.iterate 2 ∈ m :: past →
    (m.world.cell claim.cell).isRealized = true ∧
    (m.world.cell claim.cell).peek = ((y.iterate 2).world.cell claim.cell).peek ∧
    (∀ o a, m.control = .call (.complete claim.cell o a) →
      m.step = ⟨m.world, .ret (.verdict (.ok false)), m.stack⟩) ∧
    ∀ name outcome scope o, m.control = .call (.op (.claim (.complete name outcome)) scope) →
      m.world.claim? scope name = .ok claim → m.world.outcome? scope outcome = .ok o →
        m.iterate 3 = ⟨m.world, .ret (.reply (.flag false)), m.stack⟩
  /-- The node has ended for good, so that no other panic is accounted for in its name. -/
  ended : ∀ m past, History capacity m past → y ∈ past → ¬m.Runs claim

/-- What becomes of panics at a machine of a run. -/
structure Machine.AccountsForPanics (capacity : ℕ) (past : List Machine) (m : Machine) : Prop where
  /-- The panic of a node is accounted for when it leaves the body of the node. -/
  node : ∀ p claim stack, m.control = .raise p → m.stack = .guarding claim :: stack →
    m.Accounts capacity p claim stack
  /-- No panic gets out of a fetch, of a dispatch, or of a job that is run, as long as the sink returns. -/
  contained : ∀ c, m.control = .call c → c.keepsIn = true →
    (⟨m.world, .call c, []⟩ : Machine).SinkHolds → ∀ w e, m.world.Performs c w e →
      ∃ r, e = .ret r ∧ ∃ n, m.iterate n = ⟨w, .ret r, m.stack⟩
  /-- Nor of asking for a key, unless there is no index left for it. -/
  asked : ∀ k key, m.control = .call (.fetchKey k key) →
    (⟨m.world, .call (.fetchKey k key), []⟩ : Machine).SinkHolds → ∀ w p,
      m.world.Performs (.fetchKey k key) w (.raise p) →
        (m.world.keys.intern key).2 = none ∧ p = .broken .indexLeft
  /-- Nodes that run inside one another are to complete different cells. -/
  apart : ∀ claim stack, m.stack = .guarding claim :: stack →
    ∀ outer, .guarding outer ∈ stack → outer.cell ≠ claim.cell
  /-- While a node runs its cell is not completed, by whichever panic, but with its claim, which an operation
  has presented. -/
  outer : ∀ claim, m.Runs claim → (m.world.cell claim.cell).isRealized = true →
    ∃ x ∈ past, ∃ op scope, x.control = .call (.op op scope) ∧
      x.world.Presents scope op claim.cell claim.token

/-! ## Guards

The nodes that are running, innermost first, are read off the stack. Each owns its cell, so two of them
never have the same one.
-/

/-- The cell of the node that a frame guards. -/
def Frame.guarded? : Frame → Option CellId
  | .guarding claim => some claim.cell
  | _ => none

/-- The cells of the nodes that are running, the innermost first. -/
def Machine.guarded (m : Machine) : List CellId := m.stack.filterMap Frame.guarded?

namespace Machine

variable {m : Machine} {claim : Claim}

theorem runs_of_mem_guarded {c : CellId} (h : c ∈ m.guarded) : ∃ claim, m.Runs claim ∧ claim.cell = c := by
  obtain ⟨frame, hframe, hc⟩ := List.mem_filterMap.mp h
  cases frame with
  | guarding claim => exact ⟨claim, hframe, Option.some.inj hc⟩
  | _ => cases hc

theorem filterMap_guarded?_eq_nil {frames : List Frame} (h : ∀ claim, .guarding claim ∉ frames) :
    frames.filterMap Frame.guarded? = [] := by
  refine List.filterMap_eq_nil_iff.mpr fun frame hframe => ?_
  cases frame with
  | guarding claim => exact absurd hframe (h claim)
  | _ => rfl

/-- A step puts up one guard at most, when it starts a node. -/
theorem guarded_step (sound : m.world.Sound) : m.step.guarded.Sublist m.guarded ∨
    ∃ k claim node, m.StartsNode k claim node ∧ m.step.guarded = claim.cell :: m.guarded := by
  obtain ⟨w, control, stack⟩ := m
  cases control with
  | ret r => cases stack with
    | nil => exact .inl (.refl _)
    | cons frame stack =>
      left
      show (((w.resume frame r).frames ++ stack).filterMap Frame.guarded?).Sublist _
      rcases World.frames_resume (w := w) frame r with hframes | ⟨_, -, hstays⟩
      · rw [hframes]
        exact (List.sublist_cons_self frame stack).filterMap _
      · rw [hstays]
        exact .refl _
  | raise p => cases stack with
    | nil => exact .inl (.refl _)
    | cons frame stack =>
      left
      have none : (w.unwind frame p).frames.filterMap Frame.guarded? = [] := by
        cases frame <;> rfl
      show (((w.unwind frame p).frames ++ stack).filterMap Frame.guarded?).Sublist _
      rw [List.filterMap_append, none]
      exact (List.sublist_cons_self frame stack).filterMap _
  | call c =>
    have of_none {mv : Move} (none : ∀ claim, .guarding claim ∉ mv.frames) :
        (ofMove mv stack).guarded.Sublist (⟨w, .call c, stack⟩ : Machine).guarded := by
      show ((mv.frames ++ stack).filterMap Frame.guarded?).Sublist _
      rw [List.filterMap_append, filterMap_guarded?_eq_nil none]
      exact .refl _
    rw [step_call rfl]
    have hspec := World.invoke_spec sound c
    generalize hmv : w.invoke c = mv at hspec
    cases hspec with
    | operated hop => exact .inl (of_none fun claim => not_guarding_of_operated hop)
    | @nodeStarted k c node _ pending unowned =>
      rw [← hmv]
      refine .inr ⟨k, _, node, starts_of_free sound rfl pending unowned, ?_⟩
      rw [World.job_of_free sound pending unowned]
      rfl
    | _ => exact .inl (of_none fun claim hmem => by simp at hmem)

end Machine

namespace History

variable {capacity : ℕ} {m x : Machine} {past : List Machine} {claim : Claim}

/-- No two nodes that are running are to complete the same cell. -/
theorem nodup_guarded (h : History capacity m past) : m.guarded.Nodup := by
  induction h with
  | start => exact List.nodup_nil
  | enter => exact List.nodup_nil
  | @step m past before _ ih =>
    rcases Machine.guarded_step before.sound with sub | ⟨k, claim, node, starts, hguarded⟩
    · exact ih.sublist sub
    · rw [hguarded]
      refine ih.cons fun hmem => ?_
      -- The cells of the nodes that are running are owned; that of a node that starts is not.
      obtain ⟨other, runs, hcell⟩ := Machine.runs_of_mem_guarded hmem
      have howner := (before.owner_of_runs runs).2
      rw [hcell, (starts.free before.sound).2] at howner
      cases howner

/-- Nodes that run inside one another have different cells. -/
theorem apart_of_guarding (h : History capacity m past) {stack : List Frame}
    (guard : m.stack = .guarding claim :: stack) {outer : Claim} (hmem : .guarding outer ∈ stack) :
    outer.cell ≠ claim.cell := by
  have distinct := h.nodup_guarded
  rw [Machine.guarded, guard] at distinct
  intro heq
  exact (List.nodup_cons.mp distinct).1 (List.mem_filterMap.mpr ⟨.guarding outer, hmem, congrArg some heq⟩)

/-- A node whose panic has left its body has ended for good. -/
theorem not_runs_of_guarding (h : History capacity m past) (hx : x ∈ past) {p : Panic}
    {stack : List Frame} (breaks : x.control = .raise p) (guard : x.stack = .guarding claim :: stack) :
    ¬m.Runs claim := by
  induction h with
  | start => cases hx
  | enter => exact List.not_mem_nil
  | @step m past before _ ih =>
    intro runs
    rcases List.mem_cons.mp hx with rfl | hx
    · -- The guard has just been taken from the stack, and there is no other below it.
      obtain ⟨w, _, _⟩ := x
      subst breaks guard
      have hmem : .guarding claim ∈ .accounting (.ofPanic p) :: stack := runs
      have hmem := (List.mem_cons.mp hmem).resolve_left nofun
      exact before.apart_of_guarding rfl hmem rfl
    · rcases runs.of_step before.sound with runs | ⟨k, node, starts⟩
      · exact ih hx runs
      · -- The cell has been owned since, so that no node starts on it.
        obtain ⟨earlier, hearlier, -⟩ := before.of_mem hx
        have hruns : x.Runs claim := by
          rw [Machine.Runs, guard]
          exact List.mem_cons_self
        have howner := (before.later hx claim.cell).owner _ (hearlier.owner_of_runs hruns).2
        rw [(starts.free before.sound).2] at howner
        cases howner

/-- The claim with which the cell of a running node is completed was presented by an operation. -/
theorem presented_by_operation (h : History capacity m past) (runs : m.Runs claim)
    (realized : (m.world.cell claim.cell).isRealized = true) :
    ∃ x ∈ past, ∃ op scope, x.control = .call (.op op scope) ∧
      x.world.Presents scope op claim.cell claim.token := by
  obtain ⟨z, hz, -, o, call⟩ := h.completed_by_claim runs realized
  obtain ⟨earlier, hearlier, suffix⟩ := h.of_mem hz
  have carries : z.Carries claim.cell claim.token := by
    left
    rw [call]
    rfl
  obtain ⟨x, hx, presents⟩ := hearlier.presented_of_carries carries
  have hx : x ∈ past := suffix.subset (List.mem_cons_of_mem _ hx)
  cases presents with
  | @operation scope op call grant => exact ⟨x, hx, op, scope, call, grant⟩
  | node breaks guard => exact absurd runs (h.not_runs_of_guarding hx breaks guard)

end History

/-! ## The panic of a node

The panic goes to the cell first, and to the sink only if the cell refuses it. Each way is followed step by
step, until the job comes back.
-/

namespace World

variable {w : World} {claim : Claim} {stack : List Frame}

theorem refusal?_of_owner (pending : (w.cell claim.cell).isRealized = false)
    (owner : (w.cell claim.cell).owner = some claim.token) :
    w.refusal? claim.cell (.presenting (some claim.token)) = none := by
  rw [refusal?_eq_none]
  refine ⟨pending, ?_⟩
  rw [owner]
  simp [Cell.violation?]

/-- A pending cell takes the panic. -/
theorem iterate_of_pending (p : Panic) (stack : List Frame) (sound : w.Sound)
    (pending : (w.cell claim.cell).isRealized = false)
    (owner : (w.cell claim.cell).owner = some claim.token) :
    (⟨w, .raise p, .guarding claim :: stack⟩ : Machine).iterate 2 =
      ⟨w.setCell claim.cell ((w.cell claim.cell).completed (.error (.ofPanic p))),
        .call (.deliver (w.cell claim.cell).listeners.toList (w.cell claim.cell).revokee
          (.error (.ofPanic p))), .accounting (.ofPanic p) :: stack⟩ := by
  show Machine.ofMove (w.invoke (.complete claim.cell (.error (.ofPanic p))
    (.presenting (some claim.token)))) (.accounting (.ofPanic p) :: stack) = _
  rw [complete_of_accepted sound (refusal?_of_owner pending owner)]
  rfl

/-- A realized cell refuses it. -/
theorem iterate_of_realized (p : Panic) (stack : List Frame) (sound : w.Sound)
    (realized : (w.cell claim.cell).isRealized = true) :
    (⟨w, .raise p, .guarding claim :: stack⟩ : Machine).iterate 2 =
      ⟨w, .ret (.verdict (.ok false)), .accounting (.ofPanic p) :: stack⟩ := by
  show Machine.ofMove (w.invoke (.complete claim.cell (.error (.ofPanic p))
    (.presenting (some claim.token)))) (.accounting (.ofPanic p) :: stack) = _
  rw [complete_of_refusal sound (refusal?_realized realized)]
  rfl

theorem step_report {e : Error} (returns : w.sink ≠ .panic) :
    (⟨w, .call (.report e), stack⟩ : Machine).step =
      ⟨if w.sink = .off then w else w.note (.sunk (w.reportError e)), .ret .unit, stack⟩ := by
  show Machine.ofMove (w.report e) stack = _
  unfold report
  cases hsink : w.sink with
  | log => rfl
  | off => rfl
  | panic => exact absurd hsink returns

end World

namespace Machine

variable {m : Machine} {w : World} {p : Panic} {claim : Claim} {stack : List Frame} {c : CellId}

/-- A completion of a realized cell does nothing. -/
theorem step_complete_of_realized (sound : m.world.Sound) (realized : (m.world.cell c).isRealized = true)
    {o : Outcome} {a : Authority} (call : m.control = .call (.complete c o a)) :
    m.step = ⟨m.world, .ret (.verdict (.ok false)), m.stack⟩ := by
  rw [step_call call, World.complete_of_refusal sound (World.refusal?_realized realized)]
  rfl

/-- Nor does a claim on it. -/
theorem iterate_claim_of_realized (sound : m.world.Sound)
    (realized : (m.world.cell claim.cell).isRealized = true) {name : Option String}
    {outcome : OutcomeExpr} {scope : Scope} {o : Outcome}
    (call : m.control = .call (.op (.claim (.complete name outcome)) scope))
    (claims : m.world.claim? scope name = .ok claim) (comes : m.world.outcome? scope outcome = .ok o) :
    m.iterate 3 = ⟨m.world, .ret (.reply (.flag false)), m.stack⟩ := by
  have presented : m.step = ⟨m.world, .call (.complete claim.cell o (.presenting (some claim.token))),
      .answer .accepted :: m.stack⟩ := by
    rw [step_call call]
    show ofMove ((m.world.claimOp scope (.complete name outcome)).orUnknown m.world) m.stack = _
    simp only [World.claimOp, claims, comes]
    rfl
  have refused : (⟨m.world, .call (.complete claim.cell o (.presenting (some claim.token))),
      .answer .accepted :: m.stack⟩ : Machine).step = _ := step_complete_of_realized sound realized rfl
  show m.step.step.step = _
  rw [presented, refused]
  rfl

end Machine

namespace History

variable {capacity : ℕ} {w : World} {p : Panic} {claim : Claim} {stack : List Frame} {past : List Machine}

/-- Once the panic has been handed to its cell, the cell is realized. -/
theorem realized_of_breaks (h : History capacity ⟨w, .raise p, .guarding claim :: stack⟩ past) :
    (((⟨w, .raise p, .guarding claim :: stack⟩ : Machine).iterate 2).world.cell
      claim.cell).isRealized = true := by
  obtain ⟨there, owner⟩ := h.owner_of_runs List.mem_cons_self
  cases realized : (w.cell claim.cell).isRealized with
  | true =>
    rw [World.iterate_of_realized p stack h.sound realized]
    exact realized
  | false =>
    rw [World.iterate_of_pending p stack h.sound realized owner]
    show ((w.setCell claim.cell _).cell claim.cell).isRealized = true
    rw [World.cell_setCell_self there, Cell.isRealized_completed]

/-- **A panic is accounted for once**, by the cell of its node or by the sink. -/
theorem accounts (h : History capacity ⟨w, .raise p, .guarding claim :: stack⟩ past) :
    (⟨w, .raise p, .guarding claim :: stack⟩ : Machine).Accounts capacity p claim stack where
  fails := by
    intro pending
    obtain ⟨there, owner⟩ := h.owner_of_runs List.mem_cons_self
    have handed := World.iterate_of_pending p stack h.sound pending owner
    refine ⟨handed, ?_⟩
    rw [handed]
    show ((w.setCell claim.cell _).cell claim.cell).peek = _
    rw [World.cell_setCell_self there, Cell.peek_completed]
  unreported := by
    intro pending c call sink w' e performs
    have handed := World.iterate_of_pending p stack h.sound pending
      (h.owner_of_runs List.mem_cons_self).2
    have sound := Machine.sound_iterate (m := ⟨w, .raise p, .guarding claim :: stack⟩) h.sound 2
    rw [handed] at call sink performs sound
    cases call
    obtain ⟨r, rfl⟩ := Machine.comesBack_of_isCalm sound rfl sink w' e performs
    obtain rfl := World.verdict_of_deliver performs
    obtain ⟨n, hn⟩ := performs.reaches (.accounting (.ofPanic p) :: stack)
    have reached : (⟨w, .raise p, .guarding claim :: stack⟩ : Machine).iterate (2 + n) =
        ⟨w', .ret (.verdict (.ok true)), .accounting (.ofPanic p) :: stack⟩ := by
      rw [Machine.iterate_add, handed, hn]
    refine ⟨2 + n, reached, ?_⟩
    rw [Machine.iterate_add, reached]
    rfl
  reported := by
    intro o ho
    have handed := World.iterate_of_realized p stack h.sound (Cell.isRealized_of_peek ho)
    have reported : (⟨w, .raise p, .guarding claim :: stack⟩ : Machine).iterate 3 =
        ⟨w, .call (.report (.ofPanic p)), stack⟩ := by
      rw [Machine.iterate_add _ 2 1, handed]
      rfl
    refine ⟨handed, reported, fun returns => ?_⟩
    rw [Machine.iterate_add _ 3 1, reported]
    exact World.step_report returns
  spent := by
    intro m past' later hmem
    have realized := h.realized_of_breaks
    have stays : (m.world.cell claim.cell).isRealized = true ∧ (m.world.cell claim.cell).peek =
        (((⟨w, .raise p, .guarding claim :: stack⟩ : Machine).iterate 2).world.cell claim.cell).peek := by
      rcases List.mem_cons.mp hmem with heq | hmem
      · rw [← heq]
        exact ⟨realized, rfl⟩
      · obtain ⟨o, ho⟩ := World.peek_of_isRealized (Machine.sound_iterate h.sound 2) realized
        have hlater := (later.later hmem claim.cell).peek o ho
        exact ⟨Cell.isRealized_of_peek hlater, hlater.trans ho.symm⟩
    exact ⟨stays.1, stays.2, fun o a => Machine.step_complete_of_realized later.sound stays.1,
      fun name outcome scope o => Machine.iterate_claim_of_realized later.sound stays.1⟩
  ended := fun m past' later hmem => later.not_runs_of_guarding hmem rfl rfl

/-- **What becomes of panics.** -/
theorem accounts_for_panics {m : Machine} (h : History capacity m past) :
    m.AccountsForPanics capacity past where
  node := by
    intro p claim stack breaks guard
    obtain ⟨w, _, _⟩ := m
    subst breaks guard
    exact h.accounts
  contained := by
    intro c call keepsIn sink w e performs
    obtain ⟨r, rfl⟩ := World.comesBack_of_keepsIn h.sound keepsIn sink w e performs
    refine ⟨r, rfl, ?_⟩
    obtain ⟨w, _, _⟩ := m
    subst call
    exact performs.reaches _
  asked := fun k key _ sink w p performs =>
    have exhausted := World.exhausted_of_fetchKey h.sound sink performs
    ⟨exhausted.1, exhausted.2.1⟩
  apart := fun claim stack guard outer hmem => h.apart_of_guarding guard hmem
  outer := fun claim runs realized => h.presented_by_operation runs realized

end History

/-- A run in which a node breaks off after it has completed its cell. Another one, which it has run inside of
itself, has broken off before that, and has left its claim behind. -/
theorem accounts_for_panics_of_nested : ∃ m past, History 8 m past ∧
    (m.control matches .raise (.message "outer")) = true ∧ m.guarded = [0] ∧
      (m.world.cell 0).phase = .succeeded ∧ (m.world.cell 1).phase = .failed ∧
        m.world.names.claims.get? "kept" = some ⟨1, 1⟩ ∧ m.AccountsForPanics 8 past := by
  let nodes : List (String × Script) := [
    ("a", [.context (.fetch none "b" "b"), .claim (.complete none (.ok (.constant 3))),
      .fault (.panic (.message "outer"))]),
    ("b", [.claim (.park "kept"), .fault (.panic (.message "inner"))])]
  have empty : History 8 _ _ := .start
  have provided := (empty.enter rfl {} [] (.operate (.context (.createProvider "p" nodes)))).step rfl
  have opened := (provided.enter rfl {} [] (.operate (.context (.create "k" [] "p" none)))).step rfl
  have breaks := (opened.enter rfl {} []
    (.operate (.context (.fetch (some "k") "a" "a")))).steps 37 (by decide +kernel)
  exact ⟨_, _, breaks, by decide +kernel, by decide +kernel, by decide +kernel, by decide +kernel,
    by decide +kernel, breaks.accounts_for_panics⟩

end RequestGraph
