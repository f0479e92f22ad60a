import RequestGraph.Proofs.FanIn.Settling
import RequestGraph.Proofs.Graph.Opening

/-!
# The evaluation of a graph

A context that nobody has asked for anything is asked for some keys of a graph, one after another, and the
jobs that are queued meanwhile are run in any order. That comes to an end, and then

    keys that are reached       have a cell, and their nodes have been started once,
    no failure, no cycle        have succeeded with their value,
    a failure is reached        have failed with the error of one,
    a cycle, and no failure     are pending for ever.
-/

namespace RequestGraph

/-- The evaluation of a graph by a context, from a world on. -/
noncomputable def Graph.setting (g : Graph) (requested : List String) (w : World) (k : ContextId) :
    Setting where
  graph := g
  context := k
  pool := (w.context k).pool
  keys := g.reached requested
  closed x hx d hd := by
    obtain ⟨r, hr, reaches⟩ := Graph.mem_reached.mp hx
    exact Graph.mem_reached.mpr ⟨r, hr, reaches.tail hd⟩
  before x := w.log.countP (Event.starts x)

namespace Setting

/-- What the cells of the context have come to, and how often nodes have been started. -/
structure Evaluated (S : Setting) (requested : List String) (w : World) : Prop where
  reached : ∀ x, (∃ c, w.Holds S.context x c) ↔ ∃ r ∈ requested, S.graph.Reaches r x
  started : ∀ x, (∃ r ∈ requested, S.graph.Reaches r x) → (S.graph.rule x).body?.isSome = true →
    w.log.countP (Event.starts x) = S.before x + 1
  unstarted : ∀ x, (¬∃ r ∈ requested, S.graph.Reaches r x) →
    w.log.countP (Event.starts x) = S.before x
  succeeded : ∀ x c, w.Holds S.context x c → (∀ z, S.graph.Reaches x z → S.graph.failure? z = none) →
    (∀ z, S.graph.Reaches x z → ¬S.graph.Circular z) →
      ∃ n, S.graph.Evaluates x n ∧ (w.cell c).peek = some (.ok (.number n))
  failed : ∀ x c, w.Holds S.context x c →
    (∃ z, S.graph.Reaches x z ∧ (S.graph.failure? z).isSome = true) →
      ∃ z e, S.graph.Reaches x z ∧ S.graph.failure? z = some e ∧
        (w.cell c).peek = some (.error e)
  pending : ∀ x c, w.Holds S.context x c → (∀ z, S.graph.Reaches x z → S.graph.failure? z = none) →
    (∃ z, S.graph.Reaches x z ∧ S.graph.Circular z) → (w.cell c).peek = none

end Setting

/-- A context evaluates a graph, whatever the schedule. -/
structure Graph.Settles (g : Graph) (requested : List String) (w : World) (k : ContextId) : Prop where
  /-- No schedule goes on for ever. -/
  ends : Acc (fun q p => (g.setting requested w k).Advances p q) ⟨requested, w⟩
  /-- Whatever may be done next comes back. -/
  returns : ∀ p, Relation.ReflTransGen (g.setting requested w k).Advances ⟨requested, w⟩ p →
    ∀ call p', (g.setting requested w k).Next p call p' →
      ∃ w' r, p'.world.Performs call w' (.ret r)
  evaluated : ∀ p, Relation.ReflTransGen (g.setting requested w k).Advances ⟨requested, w⟩ p →
    p.keys = [] → (g.setting requested w k).queue p.world = [] →
      (g.setting requested w k).Evaluated requested p.world

variable {S : Setting} {b : Board} {w : World} {x y z d : String} {c : CellId} {t : Token}
  {f : FanInId} {requested : List String} {g : Graph} {k : ContextId}

/-! ## Nodes that wait

When nothing runs and nothing is queued, a node that waits does so for one that waits as well. As there are
finitely many, to follow them leads into a cycle.
-/

/-- The node of a key awaits its dependencies. -/
def Board.Waits (b : Board) (x : String) : Prop := ∃ t f, b.standing x = .waiting t f

/-- Where nothing is queued and nothing runs, whatever has been asked for waits or is done. -/
def Board.AtRest (b : Board) : Prop :=
  ∀ x, b.standing x = .fresh ∨ b.Waits x ∨ ∃ o, b.standing x = .done o

theorem Board.AtRest.started (h : b.AtRest) (there : b.standing x ≠ .fresh) :
    (b.standing x).hasStarted = true ∧ (b.standing x).hasAsked = true := by
  rcases h x with fresh | ⟨t, f, waits⟩ | ⟨o, done⟩
  · exact absurd fresh there
  · rw [waits]
    exact ⟨rfl, rfl⟩
  · rw [done]
    exact ⟨rfl, rfl⟩

theorem Board.AtRest.waits (h : b.AtRest) (there : b.standing x ≠ .fresh)
    (unsettled : (b.standing x).outcome? = none) : b.Waits x := by
  rcases h x with fresh | waits | ⟨o, done⟩
  · exact absurd fresh there
  · exact waits
  · rw [done] at unsettled
    cases unsettled

namespace Setting

theorem Queues.atRest (h : S.Queues b w) (empty : S.queue w = []) : b.AtRest := by
  obtain ⟨xs, -, hqueued, -, hqueue⟩ := h.jobs
  rw [empty] at hqueue
  obtain rfl := List.map_eq_nil_iff.mp hqueue.symm
  intro x
  cases hx : b.standing x with
  | fresh => exact .inl rfl
  | queued => exact absurd ((hqueued x).mpr hx) List.not_mem_nil
  | running t => exact absurd hx (h.idle x t)
  | waiting t f => exact .inr (.inl ⟨t, f, hx⟩)
  | done o => exact .inr (.inr ⟨o, rfl⟩)

/-- The cell of a key that a fan-in listens to is pending. -/
theorem Tracks.unsettled (h : S.Tracks b [] w) (there : b.standing d ≠ .fresh) {s : Subscription}
    (hs : s ∈ (w.cell (b.cell d)).listeners.toList) : (b.standing d).outcome? = none := by
  have hsound := h.serves.sound (b.cell d)
  cases hd : (b.standing d).outcome? with
  | none => rfl
  | some o =>
      have realized : (w.cell (b.cell d)).isRealized = true := by
        rw [← hsound.isSome_peek, h.shows.peek d there, hd]
        rfl
      rw [(hsound.emptied realized).1] at hs
      cases hs

/-- A node that waits, waits for a dependency that waits itself; the others have succeeded or wait too. -/
theorem Tracks.of_waits (h : S.Tracks b [] w) (rest : b.AtRest) (waits : b.Waits y) :
    (∃ d, S.graph.Needs y d ∧ b.Waits d) ∧
      ∀ d, S.graph.Needs y d → b.Waits d ∨ (b.standing d).HasSucceeded := by
  obtain ⟨t, f, hy⟩ := waits
  have joins := h.relays.joins y t f hy
  have there (d : String) (hd : S.graph.Needs y d) : b.standing d ≠ .fresh :=
    h.agrees.asked y (by rw [hy]; rfl) d hd
  constructor
  · -- A signal is still to come, and as none is due some cell has a listener that will send it.
    have positive : 0 < relayCount f w.listeners := joins.positive
    obtain ⟨s, hs, relays⟩ := List.countP_pos_iff.mp positive
    obtain ⟨c, hc⟩ := World.exists_of_mem_listeners hs
    obtain ⟨d, hd, rfl⟩ := joins.heeds c s hc (Listener.relays_iff.mp relays)
    exact ⟨d, hd, rest.waits (there d hd) (h.unsettled (there d hd) hc)⟩
  · intro d hd
    rcases joins.covered d hd with succeeded | ⟨s, hs, -⟩ | ⟨_, _, due, -⟩ | ⟨_, due, -⟩
    · exact .inr succeeded
    · exact .inl (rest.waits (there d hd) (h.unsettled (there d hd) hs))
    · cases due
    · cases due

/-- No node waits that reaches a failure. -/
theorem Tracks.failure?_of_waits (h : S.Tracks b [] w) (rest : b.AtRest) (waits : b.Waits y)
    (reaches : S.graph.Reaches y z) : S.graph.failure? z = none := by
  -- Whatever is reached waits too or has a value, and neither fails by itself.
  have hz : b.Waits z ∨ ∃ n, S.graph.Evaluates z n := by
    induction reaches with
    | refl => exact .inl waits
    | tail _ needs ih =>
        rcases ih with waits | ⟨n, evaluates⟩
        · refine ((h.of_waits rest waits).2 _ needs).imp_right fun ⟨v, done⟩ => ?_
          obtain ⟨n, -, evaluates⟩ := h.agrees.yields _ _ done
          exact ⟨n, evaluates⟩
        · exact .inr (evaluates.step needs)
  rcases hz with waits | ⟨n, evaluates⟩
  · obtain ⟨⟨d, needs, -⟩, -⟩ := h.of_waits rest waits
    obtain ⟨deps, fn, rule⟩ := Graph.rule_of_needs needs
    rw [Graph.failure?, rule]
  · exact evaluates.failure?_eq_none .refl

/-- A node that waits for ever reaches a cycle. -/
theorem Tracks.circular_of_waits (h : S.Tracks b [] w) (rest : b.AtRest) (waits : b.Waits y) :
    ∃ z, S.graph.Reaches y z ∧ S.graph.Circular z := by
  by_contra straight
  have hmem : y ∈ S.keys := by
    obtain ⟨t, f, hy⟩ := waits
    refine (h.places.held y ?_).1
    rw [hy]
    exact nofun
  have acc := Graph.acc_of_not_circular S.closed hmem fun z reaches circular =>
    straight ⟨z, reaches, circular⟩
  -- From a node that waits one can go on for ever.
  have never {y : String} (acc : Acc (fun d y => S.graph.Needs y d) y) : ¬b.Waits y := by
    induction acc with
    | intro y _ ih =>
        intro waits
        obtain ⟨⟨d, needs, waits⟩, -⟩ := h.of_waits rest waits
        exact ih d needs waits
  exact never acc waits

/-! ## At the end of a schedule

What a key has come to is compared with what the rules say. Both a value and a failure are passed on along
the dependencies, and a key without either is one of those that wait.
-/

/-- What a key has come to. -/
inductive Fate (g : Graph) (b : Board) (x : String) : Prop
  | value {n : Int64} (done : b.standing x = .done (.ok (.number n))) (evaluates : g.Evaluates x n)
  | failure {z : String} {e : Error} (done : b.standing x = .done (.error e))
      (reaches : g.Reaches x z) (fails : g.failure? z = some e)
  | waits {z : String} (waits : b.Waits x) (unfailing : ∀ z, g.Reaches x z → g.failure? z = none)
      (reaches : g.Reaches x z) (circular : g.Circular z)

theorem Tracks.fate (h : S.Tracks b [] w) (rest : b.AtRest) (there : b.standing x ≠ .fresh) :
    Fate S.graph b x := by
  rcases (rest x).resolve_left there with waits | ⟨o, done⟩
  · obtain ⟨z, reaches, circular⟩ := h.circular_of_waits rest waits
    exact .waits waits (fun _ => h.failure?_of_waits rest waits) reaches circular
  · have yields := h.agrees.yields x o done
    cases o with
    | ok v =>
        obtain ⟨n, rfl, evaluates⟩ := yields
        exact .value done evaluates
    | error e =>
        obtain ⟨z, reaches, fails⟩ := yields
        exact .failure done reaches fails

/-- A key has a cell exactly if it has been asked for. -/
theorem Tracks.holds_iff (h : S.Tracks b [] w) :
    w.Holds S.context x c ↔ b.standing x ≠ .fresh ∧ c = b.cell x := by
  constructor
  · rintro ⟨index, hkey, hslot⟩
    obtain ⟨y, hy, there⟩ := h.places.slotted index c hslot
    obtain rfl := Option.some.inj (hy.symm.trans hkey)
    have holds : w.Holds S.context y c := ⟨index, hkey, hslot⟩
    exact ⟨there, holds.unique h.serves.tables (h.places.held y there).2.1⟩
  · rintro ⟨there, rfl⟩
    exact (h.places.held x there).2.1

/-- All that is reached from what has been asked for has been asked for. -/
theorem Tracks.asked_of_reaches (h : S.Tracks b [] w) (rest : b.AtRest)
    (there : b.standing x ≠ .fresh) (reaches : S.graph.Reaches x y) : b.standing y ≠ .fresh := by
  induction reaches with
  | refl => exact there
  | tail _ needs ih => exact h.agrees.asked _ (rest.started ih).2 _ needs

/-- When nothing is left to be done, the graph has been evaluated. -/
theorem Rests.evaluated {p : Agenda} (h : S.Rests requested b p)
    (keys : ∀ x, x ∈ S.keys ↔ ∃ r ∈ requested, S.graph.Reaches r x) (none : p.keys = [])
    (empty : S.queue p.world = []) : S.Evaluated requested p.world := by
  have tracks := h.tracks
  have rest := h.queues.atRest empty
  have asked (x : String) : b.standing x ≠ .fresh ↔ ∃ r ∈ requested, S.graph.Reaches r x := by
    constructor
    · exact fun there => (keys x).mp (tracks.places.held x there).1
    · rintro ⟨r, hr, reaches⟩
      refine tracks.asked_of_reaches rest ((h.asked r hr).resolve_left ?_) reaches
      rw [none]
      exact List.not_mem_nil
  have peek {x : String} {c : CellId} (holds : p.world.Holds S.context x c) :
      (p.world.cell c).peek = (b.standing x).outcome? := by
    obtain ⟨there, rfl⟩ := tracks.holds_iff.mp holds
    exact tracks.shows.peek x there
  -- At the end of the schedule every key that was reached has met its fate: a value, a failure that it
  -- reaches, or waiting for good.
  have fate {x : String} {c : CellId} (holds : p.world.Holds S.context x c) : Fate S.graph b x :=
    tracks.fate rest (tracks.holds_iff.mp holds).1
  constructor
  case reached =>
    intro x
    rw [← asked x]
    exact ⟨fun ⟨c, holds⟩ => (tracks.holds_iff.mp holds).1,
      fun there => ⟨_, tracks.holds_iff.mpr ⟨there, rfl⟩⟩⟩
  case started =>
    intro x reached body
    have started := (rest.started ((asked x).mpr reached)).1
    rw [tracks.counts x, started, body]
    rfl
  case unstarted =>
    intro x unreached
    rw [← asked x, not_not] at unreached
    rw [tracks.counts x, unreached]
    rfl
  case succeeded =>
    intro x c holds unfailing straight
    cases fate holds with
    | value done evaluates => exact ⟨_, evaluates, by rw [peek holds, done]; rfl⟩
    | failure _ reaches fails => exact nomatch fails.symm.trans (unfailing _ reaches)
    | waits _ _ reaches circular => exact absurd circular (straight _ reaches)
  case failed =>
    rintro x c holds ⟨z, reaches, fails⟩
    cases fate holds with
    | value _ evaluates =>
        rw [evaluates.failure?_eq_none reaches] at fails
        cases fails
    | failure done reaches fails => exact ⟨_, _, reaches, fails, by rw [peek holds, done]; rfl⟩
    | waits _ unfailing =>
        rw [unfailing z reaches] at fails
        cases fails
  case pending =>
    rintro x c holds unfailing ⟨z, reaches, circular⟩
    cases fate holds with
    | value _ evaluates => exact absurd circular (evaluates.not_circular reaches)
    | failure _ reaches fails => exact nomatch fails.symm.trans (unfailing _ reaches)
    | waits waits =>
        obtain ⟨t, f, waits⟩ := waits
        rw [peek holds, waits]
        rfl

end Setting

/-! ## At the beginning

The board of a context that nobody has asked is blank, and a blank board obeys all laws.
-/

/-- The board of a context that nobody has asked for anything. -/
def Board.blank : Board := ⟨fun _ => 0, fun _ => .fresh⟩

namespace History

variable {capacity : ℕ} {m : Machine} {past : List Machine}

theorem rests_opened (h : History capacity m past) (opened : g.Opened requested m.world k) :
    (g.setting requested m.world k).Rests requested .blank ⟨requested, m.world⟩ := by
  have fresh {x : String} (there : Board.blank.standing x ≠ .fresh) : False := there rfl
  have queue : (g.setting requested m.world k).queue m.world = [] := by
    rw [Setting.queue]
    split
    · next e strategy => exact (opened.idle e strategy).2
    · rfl
  refine ⟨⟨?serves, ?places, ?shows, ?agrees, ?relays, fun x => rfl⟩, ?queues, ?known, ?asked⟩
  case serves =>
    exact ⟨h.sound, h.tablesSound, opened.there, opened.unfrozen, rfl, opened.inputs, opened.nodes,
      opened.faithful, opened.room⟩
  case places =>
    refine ⟨fun x there => (fresh there).elim, fun index c hslot => ?_,
      fun x y there => (fresh there).elim⟩
    cases (opened.untouched index).symm.trans hslot
  case shows =>
    refine ⟨fun x there => (fresh there).elim, ?_, fun x there => (fresh there).elim⟩
    rintro x o ⟨⟩
  case agrees => exact ⟨fun x o => Standing.noConfusion, fun x asked => by cases asked⟩
  case relays =>
    refine ⟨fun x there => (fresh there).elim, fun s o due => absurd due List.not_mem_nil,
      fun y t f waits => Standing.noConfusion waits, fun f hf => ?_⟩
    have hdue : relayCount f m.outstanding = 0 := (Nat.add_eq_zero_iff.mp (h.fresh f hf)).2
    rw [Machine.outstanding, relayCount, List.countP_append] at hdue
    exact (Nat.add_eq_zero_iff.mp hdue).1
  case queues =>
    exact ⟨fun x t => Standing.noConfusion, fun e strategy => (opened.idle e strategy).1, [],
      List.nodup_nil, fun x => iff_of_false List.not_mem_nil Standing.noConfusion,
      fun x hx => absurd hx List.not_mem_nil, queue⟩
  case known => exact fun x hx => Graph.mem_reached.mpr ⟨x, hx, .refl⟩
  case asked => exact fun x hx => .inl hx

/-- **Evaluation is correct and does not depend on the schedule**: a context that nobody has asked for
anything evaluates the graph of its inputs and nodes. -/
theorem graph_settles (h : History capacity m past) (opened : g.Opened requested m.world k) :
    g.Settles requested m.world k := by
  have rests := h.rests_opened opened
  refine ⟨rests.acc opened.runs, fun p reaches call p' hnext => ?_, fun p reaches none empty => ?_⟩
  · obtain ⟨b, rests⟩ := rests.reaches opened.runs reaches
    obtain ⟨-, w', r, hperforms, -⟩ := rests.next opened.runs hnext
    exact ⟨w', r, hperforms⟩
  · obtain ⟨b, rests⟩ := rests.reaches opened.runs reaches
    exact rests.evaluated (fun x => Graph.mem_reached) none empty

end History

/-- A graph with a value to be computed and a key that waits for itself, on a queue. -/
theorem graph_settles_of_loop : ∃ (g : Graph) (m : Machine) (past : List Machine),
    History 8 m past ∧ g.Opened ["b", "c"] m.world 0 ∧ g.Evaluates "b" 6 ∧ g.Circular "c" ∧
      g.Settles ["b", "c"] m.world 0 := by
  let g : Graph := ⟨⟨[("a", .input 3), ("b", .node ["a", "a"] List.sum), ("c", .node ["c"] List.sum)]⟩⟩
  have room : (∅ ∪ g.reached ["b", "c"]).card ≤ Interner.maxKeys := by
    rw [Finset.empty_union]
    exact (Graph.card_reached_le _).trans (by decide)
  have empty : History 8 _ _ := .start
  obtain ⟨m, past, h, -, opened⟩ := empty.opens rfl g .queue nofun room
  refine ⟨g, m, past, h, opened, ?_, ?_, h.graph_settles opened⟩
  · have rule : g.rule "b" = .node ["a", "a"] List.sum := rfl
    have evaluates : g.Evaluates "b" ([3, 3].sum) := .node rule (fun _ => 3) fun d hd => by
      obtain rfl : d = "a" := by simpa using hd
      exact .input rfl
    exact evaluates
  · exact .single (List.mem_singleton_self "c")

end RequestGraph
