import Mathlib.Data.Finset.Basic
import Mathlib.Data.Finset.Card
import RequestGraph.Proofs.Engine.Returning
import RequestGraph.Proofs.FanIn.Signals
import RequestGraph.Proofs.Graph.Rules
import RequestGraph.Proofs.Provider

/-!
# Keeping track of a graph

A context that evaluates a graph is followed on a *board*, which notes for every key its cell and how far it
has come. Nothing but the keys of the graph touches the context, so all that its cells have to tell are
signals to the fan-ins of nodes that wait, or of nodes that have failed since. Signals that have been taken
from their cell but not delivered are *due*.
-/

namespace RequestGraph

/-- How far a key has come. -/
inductive Standing where
  /-- Nobody has asked for it. -/
  | fresh
  /-- It has a cell, and nothing has been started for it. -/
  | queued
  /-- Its node is running, with a token. -/
  | running (t : Token)
  /-- Its node awaits its dependencies by a fan-in. -/
  | waiting (t : Token) (f : FanInId)
  | done (o : Outcome)

namespace Standing

/-- The outcome of the cell. -/
def outcome? : Standing → Option Outcome
  | .done o => some o
  | _ => none

/-- Who owns the cell, as long as that matters. -/
def owner? : Standing → Option (Option Token)
  | .queued => some none
  | .running t | .waiting t _ => some (some t)
  | _ => none

/-- Whether a node has been started. -/
def hasStarted : Standing → Bool
  | .running _ | .waiting .. | .done _ => true
  | _ => false

/-- Whether all dependencies have been asked for. -/
def hasAsked : Standing → Bool
  | .waiting .. | .done _ => true
  | _ => false

/-- Whether a node awaits its dependencies. -/
def isWaiting : Standing → Bool
  | .waiting .. => true
  | _ => false

/-- Whether the value of a key is there. -/
def HasSucceeded (s : Standing) : Prop := ∃ v, s = .done (.ok v)

end Standing

/-- The cells of the keys of a graph, and how far they have come. -/
structure Board where
  cell : String → CellId
  standing : String → Standing

namespace Board

/-- Notes how far a key has come. -/
def set (b : Board) (x : String) (s : Standing) : Board :=
  { b with standing := Function.update b.standing x s }

/-- Notes the cell of a key that nobody had asked for. -/
def enter (b : Board) (x : String) (c : CellId) : Board where
  cell := Function.update b.cell x c
  standing := Function.update b.standing x .queued

variable {b : Board} {x y : String} {s : Standing} {c : CellId}

@[simp] theorem cell_set : (b.set x s).cell = b.cell := rfl

@[simp] theorem standing_set_self : (b.set x s).standing x = s := Function.update_self ..

/-- Noting something for one key leaves the others where they are. -/
theorem standing_set_of_ne (h : y ≠ x) : (b.set x s).standing y = b.standing y :=
  Function.update_of_ne h ..

/-- A key that stands otherwise than the key that is set goes on standing so. -/
theorem standing_set_of_standing {s' : Standing} (hy : b.standing y = s') (hne : b.standing x ≠ s') :
    (b.set x s).standing y = s' := by
  rw [standing_set_of_ne, hy]
  rintro rfl
  exact hne hy

/-- What is not set was so before. -/
theorem standing_of_set {s' : Standing} (hy : (b.set x s).standing y = s') (hne : s ≠ s') :
    y ≠ x ∧ b.standing y = s' := by
  have hyx : y ≠ x := by
    rintro rfl
    exact hne (standing_set_self.symm.trans hy)
  exact ⟨hyx, (standing_set_of_ne hyx).symm.trans hy⟩

@[simp] theorem standing_enter_self : (b.enter x c).standing x = .queued := Function.update_self ..

/-- A key that gets a cell leaves the others where they are. -/
theorem standing_enter_of_ne (h : y ≠ x) : (b.enter x c).standing y = b.standing y :=
  Function.update_of_ne h ..

@[simp] theorem cell_enter_self : (b.enter x c).cell x = c := Function.update_self ..

/-- A key that gets a cell leaves the cells of the others. -/
theorem cell_enter_of_ne (h : y ≠ x) : (b.enter x c).cell y = b.cell y := Function.update_of_ne h ..

end Board

/-- What a fan-in is still to be told. -/
inductive Due where
  /-- The outcome of a cell. -/
  | told (s : Subscription) (o : Outcome)
  /-- Which cells it is to watch, and then the end of its set-up. -/
  | setup (f : FanInId) (cells : List CellId)

/-- Whether something is due to a fan-in. -/
def Due.isFor (f : FanInId) : Due → Bool
  | .told s _ => s.listener.relays f
  | .setup f' _ => f' = f

/-- How many signals a fan-in is to have. -/
def World.signals (w : World) (due : List Due) (f : FanInId) : ℕ :=
  relayCount f w.listeners + due.countP (Due.isFor f)

/-- Whether an event is the start of the node of a key. -/
def Event.starts (x : String) : Event → Bool
  | .node key => key = x
  | _ => false

/-- A graph that a context is to evaluate. -/
structure Setting where
  graph : Graph
  context : ContextId
  pool : Pool
  /-- The keys that may be asked for. -/
  keys : Finset String
  closed : ∀ x ∈ keys, ∀ d, graph.Needs x d → d ∈ keys
  /-- How often the node of a key had been started before. -/
  before : String → ℕ

namespace Setting

variable (S : Setting)

/-- What a node that has been started runs with. -/
def scope (claim : Claim) : Scope := { context := some S.context, claim := some claim }

/-- What a node does once its dependencies are there. -/
def join (deps : List String) (f : List Int64 → Int64) (claim : Claim) : Continuation :=
  .user "deps" (Rule.combining deps f) Rule.passing (S.scope claim)

/-- The nodes and the inputs that a context works with are those of the graph. -/
structure Serves (w : World) : Prop where
  sound : w.Sound
  tables : w.TablesSound
  opened : S.context < w.contexts.size
  unfrozen : (w.context S.context).isFrozen = false
  pool : (w.context S.context).pool = S.pool
  inputs : ∀ x, (w.context S.context).inputs.get? x = (S.graph.rule x).input?.map Source.value
  nodes : ∀ x, (S.graph.rule x).input? = none →
    (w.providers.get (w.context S.context).provider).nodes.get? x =
      (S.graph.rule x).body?.map (Node.mk x)
  /-- What the provider remembers is what its nodes say. -/
  faithful : (w.providers.get (w.context S.context).provider).Faithful w.keys.registry
  /-- There are indices left for all keys. -/
  room : (w.keys.registry.toFinset ∪ S.keys).card ≤ Interner.maxKeys

/-- The board has the cells of the context. -/
structure Places (b : Board) (w : World) : Prop where
  held : ∀ x, b.standing x ≠ .fresh →
    x ∈ S.keys ∧ w.Holds S.context x (b.cell x) ∧ b.cell x < w.cells.size
  slotted : ∀ (index : KeyIndex) c, (w.context S.context).slots.lookup index.toUInt64 = some c →
    ∃ x, w.keys.registry[index.toNat]? = some x ∧ b.standing x ≠ .fresh
  apart : ∀ x y, b.standing x ≠ .fresh → b.standing y ≠ .fresh → b.cell x = b.cell y → x = y

end Setting

/-- The cells are as far as the board says. -/
structure Board.Shows (b : Board) (w : World) : Prop where
  peek : ∀ x, b.standing x ≠ .fresh → (w.cell (b.cell x)).peek = (b.standing x).outcome?
  owner : ∀ x o, (b.standing x).owner? = some o → (w.cell (b.cell x)).owner = o
  revokee : ∀ x, b.standing x ≠ .fresh → (w.cell (b.cell x)).revokee = none

namespace Setting

variable (S : Setting)

/-- What the board says agrees with the graph. -/
structure Agrees (b : Board) : Prop where
  yields : ∀ x o, b.standing x = .done o → S.graph.Yields x o
  asked : ∀ x, (b.standing x).hasAsked = true → ∀ d, S.graph.Needs x d → b.standing d ≠ .fresh

/-- The fan-in of a node that waits counts the signals that it is to have, and every dependency has succeeded
or is going to tell it. -/
structure Joins (b : Board) (due : List Due) (w : World) (y : String) (t : Token) (f : FanInId) :
    Prop where
  there : f < w.fanIns.size
  rule : ∃ deps h, S.graph.rule y = .node deps h ∧
    w.fanIn f = ⟨w.signals due f, false, some (S.join deps h ⟨b.cell y, t⟩)⟩
  positive : 0 < w.signals due f
  named : ∀ d, S.graph.Needs y d → w.names.cells.get? d = some (b.cell d)
  /-- Nothing but dependencies tells the fan-in anything. -/
  heeds : ∀ c, ∀ s ∈ (w.cell c).listeners.toList, s.listener = .relay f →
    ∃ d, S.graph.Needs y d ∧ c = b.cell d
  covered : ∀ d, S.graph.Needs y d → (b.standing d).HasSucceeded ∨
    (∃ s ∈ (w.cell (b.cell d)).listeners.toList, s.listener = .relay f) ∨
    (∃ s e, .told s (.error e) ∈ due ∧ s.listener = .relay f) ∨
    ∃ cells, .setup f cells ∈ due ∧ b.cell d ∈ cells

/-- A fan-in has failed, or is that of a node that waits for a key. -/
def Hears (b : Board) (w : World) (f : FanInId) (x : String) : Prop :=
  (w.fanIn f).failed = true ∨ ∃ y t, b.standing y = .waiting t f ∧ S.graph.Needs y x

/-- All that is to be told is told to fan-ins of nodes. -/
structure Relays (b : Board) (due : List Due) (w : World) : Prop where
  heard : ∀ x, b.standing x ≠ .fresh → ∀ s ∈ (w.cell (b.cell x)).listeners.toList,
    ∃ f, s.listener = .relay f ∧ S.Hears b w f x
  told : ∀ s o, .told s o ∈ due → ∃ f, s.listener = .relay f ∧ ((w.fanIn f).failed = true ∨
    ∃ y t x, b.standing y = .waiting t f ∧ S.graph.Needs y x ∧ b.standing x = .done o)
  joins : ∀ y t f, b.standing y = .waiting t f → S.Joins b due w y t f
  unheard : ∀ f, w.fanIns.size ≤ f → relayCount f w.listeners = 0

/-- Each node has been started as often as the board says: once, or not yet. -/
def Counts (b : Board) (w : World) : Prop :=
  ∀ x, w.log.countP (Event.starts x) = S.before x +
    if (b.standing x).hasStarted && (S.graph.rule x).body?.isSome then 1 else 0

/-- A world evaluates a graph, as the board says, with some signals due. -/
structure Tracks (b : Board) (due : List Due) (w : World) : Prop where
  serves : S.Serves w
  places : S.Places b w
  shows : b.Shows w
  agrees : S.Agrees b
  relays : S.Relays b due w
  counts : S.Counts b w

end Setting

end RequestGraph
