import RequestGraph.Engine.Machine

/-!
# What machines mention

Cells, contexts, tokens and executors are numbers, and almost everything that a machine keeps mentions some of them:
names, scopes, listeners, jobs, calls and frames. The *extent* of a world says how many there are of each,
and a thing is *within* an extent if everything that it mentions is there. As worlds only grow, so do their
extents, and what was within one stays within all later ones.
-/

namespace RequestGraph

/-- How many cells, contexts, tokens and executors there are. -/
structure Extent where
  cells : Nat
  contexts : Nat
  tokens : Nat
  executors : Nat

/-- Nothing that was there is lost. -/
structure Extent.Le (b b' : Extent) : Prop where
  cells : b.cells ≤ b'.cells
  contexts : b.contexts ≤ b'.contexts
  tokens : b.tokens ≤ b'.tokens
  executors : b.executors ≤ b'.executors

theorem Extent.Le.refl (b : Extent) : b.Le b :=
  ⟨Nat.le_refl _, Nat.le_refl _, Nat.le_refl _, Nat.le_refl _⟩

theorem Extent.Le.trans {b b' b'' : Extent} (h : b.Le b') (h' : b'.Le b'') : b.Le b'' :=
  ⟨Nat.le_trans h.cells h'.cells, Nat.le_trans h.contexts h'.contexts,
    Nat.le_trans h.tokens h'.tokens, Nat.le_trans h.executors h'.executors⟩

section

variable {b b' : Extent} (le : b.Le b')
include le

/-- A cell that is there stays there. -/
theorem Extent.Le.cell {c : CellId} (h : c < b.cells) : c < b'.cells := Nat.lt_of_lt_of_le h le.cells

/-- A context that is there stays there. -/
theorem Extent.Le.context {k : ContextId} (h : k < b.contexts) : k < b'.contexts :=
  Nat.lt_of_lt_of_le h le.contexts

/-- A token that was given out stays given out. -/
theorem Extent.Le.token {t : Token} (h : t < b.tokens) : t < b'.tokens :=
  Nat.lt_of_lt_of_le h le.tokens

/-- An executor that is there stays there. -/
theorem Extent.Le.executor {e : ExecutorId} (h : e < b.executors) : e < b'.executors :=
  Nat.lt_of_lt_of_le h le.executors

end

/-- What there is in a world. -/
def World.extent (w : World) : Extent := ⟨w.cells.size, w.contexts.size, w.freshToken, w.executors.size⟩

variable {b b' : Extent}

/-! ### Scopes and what waits for cells

What code may use, and what is kept for later. Whatever a listener, a continuation or a job mentions, it
mentions through one of its parts, so the definitions follow the types.
-/

def Claim.Within (b : Extent) (claim : Claim) : Prop :=
  claim.cell < b.cells ∧ claim.token < b.tokens

structure Scope.Within (b : Extent) (s : Scope) : Prop where
  context : ∀ k, s.context = some k → k < b.contexts
  claim : ∀ claim, s.claim = some claim → claim.Within b

def Source.Within (b : Extent) : Source → Prop
  | .value _ => True
  | .cell c => c < b.cells

def Step.Within (b : Extent) : Step → Prop
  | .follow c => c < b.cells
  | .value _ | .fail _ => True

def Stage.Within (b : Extent) : Stage → Prop
  | .pure f => ∀ o s, f o = .ok s → s.Within b
  | .scripted _ _ scope => scope.Within b

def Listener.Within (b : Extent) : Listener → Prop
  | .user _ _ _ scope => scope.Within b
  | .forward target token => target < b.cells ∧ ∀ t, token = some t → t < b.tokens
  | .transform result onSuccess onError =>
    result < b.cells ∧ onSuccess.Within b ∧ ∀ s, onError = some s → s.Within b
  | .relay _ => True
  | .latch c => c < b.cells

def Continuation.Within (b : Extent) : Continuation → Prop
  | .user _ _ _ scope => scope.Within b
  | .yank k _ result => k < b.contexts ∧ result < b.cells

def Pool.Within (b : Extent) (p : Pool) : Prop := ∀ e, p.strategy = .executor e → e < b.executors

def Job.Within (b : Extent) : Job → Prop
  | .user _ _ scope => scope.Within b
  | .node k target _ => k < b.contexts ∧ target < b.cells

section Mono

variable (le : b.Le b')
include le

/-- Claims on cells that are there stay within all later extents, and so do the scopes and listeners
below. -/
theorem Claim.Within.mono {claim : Claim} (h : claim.Within b) : claim.Within b' :=
  ⟨le.cell h.1, le.token h.2⟩

theorem Scope.Within.mono {s : Scope} (h : s.Within b) : s.Within b' :=
  ⟨fun k hk => le.context (h.context k hk), fun claim hc => (h.claim claim hc).mono le⟩

theorem Source.Within.mono {s : Source} (h : s.Within b) : s.Within b' := by
  cases s with
  | value => trivial
  | cell c => exact le.cell h

theorem Step.Within.mono {s : Step} (h : s.Within b) : s.Within b' := by
  cases s with
  | follow c => exact le.cell h
  | value | fail => trivial

/-- Of a pure stage, every step that it can take has to be within the extent. -/
theorem Stage.Within.mono {s : Stage} (h : s.Within b) : s.Within b' := by
  cases s with
  | pure f => exact fun o s hs => (h o s hs).mono le
  | scripted body returned scope => exact Scope.Within.mono le h

/-- Listeners are kept by the cells of later worlds, with larger extents. -/
theorem Listener.Within.mono {l : Listener} (h : l.Within b) : l.Within b' := by
  cases l with
  | user => exact Scope.Within.mono le h
  | forward => exact ⟨le.cell h.1, fun t ht => le.token (h.2 t ht)⟩
  | transform =>
    exact ⟨le.cell h.1, h.2.1.mono le, fun s hs => (h.2.2 s hs).mono le⟩
  | relay => trivial
  | latch => exact le.cell h

theorem Continuation.Within.mono {k : Continuation} (h : k.Within b) : k.Within b' := by
  cases k with
  | user => exact Scope.Within.mono le h
  | yank => exact ⟨le.context h.1, le.cell h.2⟩

theorem Pool.Within.mono {p : Pool} (h : p.Within b) : p.Within b' := fun e he => le.executor (h e he)

/-- Jobs wait in queues, and when their turn comes they still mention what is there. -/
theorem Job.Within.mono {j : Job} (h : j.Within b) : j.Within b' := by
  cases j with
  | user => exact Scope.Within.mono le h
  | node => exact ⟨le.context h.1, le.cell h.2⟩

end Mono

/-- A pure function of numbers never leads to another cell. -/
theorem Stage.within_ofFunction (f : NumberFunction) : (ofFunction f).Within b := by
  intro o s hs
  cases o with
  | ok v =>
    cases hv : f v.toNumber with
    | ok n =>
      simp only [hv, Except.map, Except.ok.injEq] at hs
      subst hs
      trivial
    | error p => simp [hv, Except.map] at hs
  | error e =>
    cases hs
    trivial

/-- Looking up an entry of a view never leads to another cell. -/
theorem Stage.within_entry (key : String) : (entry key).Within b := by
  intro o s hs
  dsimp only at hs
  split at hs
  · split at hs <;> cases hs <;> trivial
  · cases hs; trivial
  · cases hs; trivial

/-! ### Calls, frames and results

The same for what is done next and for what waits below. An error mentions nothing, and neither does a
panic.
-/

/-- All of some cells are there. -/
def CellsWithin (b : Extent) (cells : List CellId) : Prop := ∀ c ∈ cells, c < b.cells

/-- All of some listeners are within an extent. -/
def TellsWithin (b : Extent) (listeners : List Subscription) : Prop :=
  ∀ s ∈ listeners, s.listener.Within b

def Call.Within (b : Extent) : Call → Prop
  | .script _ scope | .op _ scope => scope.Within b
  | .complete c _ _ | .revoke c _ | .settle c _ none => c < b.cells
  | .settle c _ (some t) => c < b.cells ∧ t < b.tokens
  | .deliver listeners revokee _ => TellsWithin b listeners ∧ ∀ d, revokee = some d → d < b.cells
  | .notify s _ => s.listener.Within b
  | .tell l _ => l.Within b
  | .subscribe c l => c < b.cells ∧ l.Within b
  | .link source dependent => source < b.cells ∧ dependent < b.cells
  | .forward target source token =>
    target < b.cells ∧ source.Within b ∧ ∀ t, token = some t → t < b.tokens
  | .transform source onSuccess onError =>
    source < b.cells ∧ onSuccess.Within b ∧ ∀ s, onError = some s → s.Within b
  | .stage s _ => s.Within b
  | .adopt result step => result < b.cells ∧ step.Within b
  | .await cells k => CellsWithin b cells ∧ k.Within b
  | .watch _ cells => CellsWithin b cells
  | .conclude k _ => k.Within b
  | .dispatch pool j => pool.Within b ∧ j.Within b
  | .perform _ j | .job j => j.Within b
  | .performQueued _ s => s.job.Within b
  | .fetch k _ _ | .fetchKey k _ | .cancel k _ => k < b.contexts
  | .gather k _ _ found => k < b.contexts ∧ CellsWithin b found
  | .sweep ledger _ => CellsWithin b (ledger.map Prod.snd)
  | .report _ | .signal .. | .drain .. | .work => True

def Frame.Within (b : Extent) : Frame → Prop
  | .script _ _ scope | .returning _ scope => scope.Within b
  | .delivering rest revokee _ => TellsWithin b rest ∧ ∀ d, revokee = some d → d < b.cells
  | .adopting c | .made c => c < b.cells
  | .following result inner => result < b.cells ∧ inner < b.cells
  | .watching _ rest => CellsWithin b rest
  | .guarding claim => claim.Within b
  | .gathering k _ _ found => k < b.contexts ∧ CellsWithin b found
  | .enriching k _ result _ => k < b.contexts ∧ result < b.cells
  | .sweeping rest _ => CellsWithin b (rest.map Prod.snd)
  | .answer _ | .completed | .notifying | .settling | .reporting | .restoring _ | .leaving _
  | .accounting _ | .draining .. | .working => True

def Control.Within (b : Extent) : Control → Prop
  | .call c => c.Within b
  | .ret (.cell c) => c < b.cells
  | .ret (.step s) => s.Within b
  | .ret _ | .raise _ => True

theorem CellsWithin.mono {cells : List CellId} (le : b.Le b') (h : CellsWithin b cells) :
    CellsWithin b' cells := fun c hc => le.cell (h c hc)

/-- What waits below a call is not touched while the call makes new things. -/
theorem Frame.Within.mono {frame : Frame} (le : b.Le b') (h : frame.Within b) : frame.Within b' := by
  cases frame with
  | script | returning => exact Scope.Within.mono le h
  | delivering =>
    exact ⟨fun s hs => (h.1 s hs).mono le, fun d hd => le.cell (h.2 d hd)⟩
  | adopting | made => exact le.cell h
  | following => exact ⟨le.cell h.1, le.cell h.2⟩
  | watching | sweeping => exact CellsWithin.mono le h
  | guarding => exact Claim.Within.mono le h
  | gathering => exact ⟨le.context h.1, h.2.mono le⟩
  | enriching => exact ⟨le.context h.1, le.cell h.2⟩
  | _ => trivial

/-! ### Worlds

A world is within its own extent if each of its parts is. The names are among the parts, so that what a
script may refer to is there.
-/

/-- All that has been given a name is there. -/
structure NamesWithin (b : Extent) (cells : OrderedMap String CellId) (tokens : OrderedMap String Token)
    (claims : OrderedMap String Claim) (contexts : OrderedMap String ContextId)
    (views : OrderedMap String CellId) (pools : OrderedMap String Pool) : Prop where
  cells : ∀ name c, cells.get? name = some c → c < b.cells
  tokens : ∀ name t, tokens.get? name = some t → t < b.tokens
  claims : ∀ name claim, claims.get? name = some claim → claim.Within b
  contexts : ∀ name k, contexts.get? name = some k → k < b.contexts
  views : ∀ name c, views.get? name = some c → c < b.cells
  pools : ∀ name pool, pools.get? name = some pool → pool.Within b

def Names.Within (b : Extent) (n : Names) : Prop :=
  NamesWithin b n.cells n.tokens n.claims n.contexts n.views n.pools

structure Cell.Within (b : Extent) (c : Cell Subscription) : Prop where
  listeners : TellsWithin b c.listeners.toList
  revokee : ∀ d, c.revokee = some d → d < b.cells

structure Context.Within (b : Extent) (c : Context) : Prop where
  inputs : ∀ key source, c.inputs.get? key = some source → source.Within b
  slots : ∀ index c', c.slots.lookup index = some c' → c' < b.cells
  ledger : CellsWithin b (c.ledger.toList.map Prod.snd)
  pool : c.pool.Within b

/-- The jobs that wait are within an extent. -/
def JobsWithin (b : Extent) (jobs : List (Submission Job)) : Prop := ∀ s ∈ jobs, s.job.Within b

/-- What the parts of a world mention is there. -/
structure HoldsWithin (b : Extent) (names : Names) (cells : Arena (Cell Subscription))
    (fanIns : Arena (FanIn Continuation)) (contexts : Arena Context)
    (executors : Arena (List (Submission Job))) (worker : Worker Job) : Prop where
  names : names.Within b
  cells : ∀ c, (cells.get c).Within b
  fanIns : ∀ f k, (fanIns.get f).continuation = some k → k.Within b
  contexts : ∀ k, (contexts.get k).Within b
  executors : ∀ e, JobsWithin b (executors.get e)
  injected : JobsWithin b worker.injected
  stack : JobsWithin b worker.stack

/-- What a world keeps is within an extent. -/
def World.Within (b : Extent) (w : World) : Prop :=
  HoldsWithin b w.names w.cells w.fanIns w.contexts w.executors w.worker

section Worlds

theorem Cell.Within.mono {c : Cell Subscription} (le : b.Le b') (h : c.Within b) : c.Within b' :=
  ⟨fun s hs => (h.listeners s hs).mono le, fun d hd => le.cell (h.revokee d hd)⟩

/-- A cell that nobody listens to and that revokes nothing mentions nothing. -/
theorem Cell.within_quiet {c : Cell Subscription} (listeners : c.listeners.toList = [])
    (revokee : c.revokee = none) : c.Within b := by
  refine ⟨fun s hs => ?_, fun d hd => ?_⟩
  · simp [listeners] at hs
  · simp [revokee] at hd

theorem Context.Within.mono {c : Context} (le : b.Le b') (h : c.Within b) : c.Within b' :=
  ⟨fun key s hs => (h.inputs key s hs).mono le, fun i d hd => le.cell (h.slots i d hd),
    h.ledger.mono le, h.pool.mono le⟩

/-- The names that a script has given keep denoting what is there. -/
theorem Names.Within.mono {n : Names} (le : b.Le b') (h : n.Within b) : n.Within b' where
  cells name c hc := le.cell (h.cells name c hc)
  tokens name t ht := le.token (h.tokens name t ht)
  claims name claim hc := (h.claims name claim hc).mono le
  contexts name k hk := le.context (h.contexts name k hk)
  views name c hc := le.cell (h.views name c hc)
  pools name pool hpool := (h.pools name pool hpool).mono le

/-- All of the above for the parts of a world at once. -/
theorem World.Within.mono {w : World} (le : b.Le b') (h : w.Within b) : w.Within b' where
  names := h.names.mono le
  cells c := (h.cells c).mono le
  fanIns f k hk := (h.fanIns f k hk).mono le
  contexts k := (h.contexts k).mono le
  executors e s hs := (h.executors e s hs).mono le
  injected s hs := (h.injected s hs).mono le
  stack s hs := (h.stack s hs).mono le

end Worlds

/-- Everything that a machine mentions is there. -/
structure Machine.Grounded (m : Machine) : Prop where
  world : m.world.Within m.world.extent
  control : m.control.Within m.world.extent
  stack : ∀ frame ∈ m.stack, frame.Within m.world.extent

/-- In a grounded machine the call in control mentions what is there only. -/
theorem Machine.Grounded.call {m : Machine} (h : m.Grounded) {c : Call} (call : m.control = .call c) :
    c.Within m.world.extent := by
  have within := h.control
  rwa [call] at within

end RequestGraph
