import RequestGraph.Proofs.Engine.Moves

/-!
# What operations do

The state that cells, fan-ins and requests live in is the *core* of a world; names, queues, the running
thread and the log are not part of it. An operation of a script leaves the core alone and answers, or
enters one of a few calls, or makes one small change of the core: it allocates a cell, claims one, marks
one, interns a key, or opens or closes a context. It enters a call with a token only if that token is
presented by the operation.
-/

namespace RequestGraph

/-- The part of a world that cells, fan-ins and requests live in. -/
structure Core where
  cells : Arena (Cell Subscription)
  fanIns : Arena (FanIn Continuation)
  contexts : Arena Context
  keys : Interner String
  freshToken : Token
  freshTicket : Nat

/-- The core of a world. -/
def World.core (w : World) : Core :=
  ⟨w.cells, w.fanIns, w.contexts, w.keys, w.freshToken, w.freshTicket⟩

/-- Whether something is called. -/
def Control.isCall : Control → Bool
  | .call _ => true
  | _ => false

/-- The calls that an operation enters, unless it presents a token. -/
def Call.isEntry : Call → Bool
  | .complete _ _ .unowned | .complete _ _ (.presenting none) | .forward _ _ none => true
  | .script .. | .subscribe _ (.user ..) | .transform .. | .revoke .. | .link .. | .report _
  | .await _ (.user ..) | .dispatch _ (.user ..) | .drain .. | .fetchKey .. | .fetch ..
  | .cancel .. => true
  | .gather _ _ _ found => found.isEmpty
  | _ => false

/-- The cell that a call is to complete with a token, now or once its source is there, and the token. -/
def Call.presents : Call → Option (CellId × Token)
  | .complete c _ (.presenting (some t)) | .settle c _ (some t) | .forward c _ (some t) => some (c, t)
  | _ => none

/-- The operations that present a token to a cell: strict completions and chains that name it, and
those of a claim that carries it. -/
inductive World.Presents (w : World) (scope : Scope) : Op → CellId → Token → Prop
  | complete {cell token : String} {outcome : OutcomeExpr} {c : CellId} {t : Token}
      (found : w.cell? cell = .ok c) (named : w.token? token = .ok t) :
      w.Presents scope (.cell (.completeWith cell outcome (some token))) c t
  | chain {cell token : String} {source : SourceExpr} {c : CellId} {t : Token}
      (found : w.cell? cell = .ok c) (named : w.token? token = .ok t) :
      w.Presents scope (.cell (.chain cell source (some token))) c t
  | completeClaim {name : Option String} {outcome : OutcomeExpr} {c : CellId} {t : Token}
      (held : w.claim? scope name = .ok ⟨c, t⟩) :
      w.Presents scope (.claim (.complete name outcome)) c t
  | chainClaim {name : Option String} {source : SourceExpr} {c : CellId} {t : Token}
      (held : w.claim? scope name = .ok ⟨c, t⟩) :
      w.Presents scope (.claim (.chain name source)) c t

/-- The frames that an operation leaves behind: they answer it, or put the ambient back. -/
def Frame.isOuter : Frame → Bool
  | .answer _ | .restoring _ => true
  | _ => false

/-- The frames that an operation leaves behind hold nothing of what their kinds do not hold. -/
theorem Frame.flatMap_eq_nil_of_isOuter {α : Type} {g : Frame → List α}
    (hg : ∀ frame : Frame, frame.isOuter = true → g frame = []) {frames : List Frame}
    (h : frames.all Frame.isOuter = true) : frames.flatMap g = [] :=
  List.flatMap_eq_nil_iff.mpr fun frame hframe => hg frame (List.all_eq_true.mp h frame hframe)

/-- A cell as it is allocated by an operation. -/
inductive Cell.IsNew (token : Token) : Cell Subscription → Prop
  | blank : IsNew token default
  | owned : IsNew token (.owned token)
  | realized (o : Outcome) : IsNew token (.realized o)

/-- Cells are sound when they are allocated. -/
theorem Cell.IsNew.sound {token : Token} {cell : Cell Subscription} (h : cell.IsNew token) :
    cell.Sound := by
  cases h with
  | blank => exact sound_default
  | owned => exact sound_owned token
  | realized o => exact sound_realized o

/-- Nobody listens to a cell that has just been allocated. -/
theorem Cell.IsNew.toList_listeners {token : Token} {cell : Cell Subscription}
    (h : cell.IsNew token) : cell.listeners.toList = [] := by
  cases h <;> rfl

/-- What the move of an operation may be. -/
inductive Operated (w : World) (scope : Scope) (op : Op) : Move → Prop
  | answered {w' : World} {control : Control} {frames : List Frame} (core : w'.core = w.core)
      (ends : control.isCall = false) (outer : frames.all Frame.isOuter = true) :
      Operated w scope op ⟨w', control, frames⟩
  | entered {w' : World} {c : Call} {frames : List Frame} (core : w'.core = w.core)
      (entry : c.isEntry = true) (outer : frames.all Frame.isOuter = true) :
      Operated w scope op ⟨w', .call c, frames⟩
  | presented {w' : World} {c : Call} {frames : List Frame} {cell : CellId} {t : Token}
      (core : w'.core = w.core) (grant : w.Presents scope op cell t)
      (presents : c.presents = some (cell, t)) (outer : frames.all Frame.isOuter = true) :
      Operated w scope op ⟨w', .call c, frames⟩
  | allocated {w' : World} {r : Result} {cell : Cell Subscription} {token : Token}
      (new : cell.IsNew w.freshToken)
      (core : w'.core = { w.core with cells := w.cells.push cell, freshToken := token }) :
      Operated w scope op ⟨w', .ret r, []⟩
  | claimed {w' : World} {r : Result} {c : CellId} (pending : (w.cell c).isRealized = false)
      (unowned : (w.cell c).owner = none)
      (core : w'.core =
        { w.core with
          cells := w.cells.set c { w.cell c with phase := .listening, owner := some w.freshToken }
          freshToken := w.freshToken + 1 }) :
      Operated w scope op ⟨w', .ret r, []⟩
  | labelled {w' : World} {r : Result} {c : CellId} {label : Option String}
      (core : w'.core = { w.core with cells := w.cells.set c { w.cell c with label } }) :
      Operated w scope op ⟨w', .ret r, []⟩
  | latched {w' : World} {c : CellId} {frames : List Frame} (absent : (w.cell c).latch = .absent)
      (core : w'.core = { w.core with cells := w.cells.set c { w.cell c with latch := .shut } })
      (outer : frames.all Frame.isOuter = true) (pending : (w.cell c).isRealized = false) :
      Operated w scope op ⟨w', .call (.subscribe c (.latch c)), frames⟩
  | interned {w' : World} {control : Control} {key : String}
      (core : w'.core = { w.core with keys := (w.keys.intern key).1 })
      (ends : control.isCall = false) :
      Operated w scope op ⟨w', control, []⟩
  | resolved {w' : World} {r : Result} {key : String}
      (core : w'.core = { w.core with keys := (w.keys.index? key).1 }) :
      Operated w scope op ⟨w', .ret r, []⟩
  | fetching {w' : World} {k : ContextId} {index : KeyIndex} {key of : String}
      {frames : List Frame} (core : w'.core = { w.core with keys := (w.keys.intern of).1 })
      (outer : frames.all Frame.isOuter = true) :
      Operated w scope op ⟨w', .call (.fetch k index key), frames⟩
  | opened {w' : World} {r : Result} {context : Context} (slots : context.slots = {})
      (ledger : context.ledger = {})
      (core : w'.core = { w.core with contexts := w.contexts.push context }) :
      Operated w scope op ⟨w', .ret r, []⟩
  | froze {w' : World} {control : Control} {k : ContextId} {context : Context}
      (freeze : (w.context k).freeze = .ok context) (ends : control.isCall = false)
      (core : w'.core = { w.core with contexts := w.contexts.set k context }) :
      Operated w scope op ⟨w', control, []⟩

namespace World

variable {w : World} {scope : Scope} {op : Op}

/-- An operation that leaves the core alone may answer. -/
theorem operated_reply (w' : World) (r : Reply) (core : w'.core = w.core) :
    Operated w scope op (w'.reply r) := .answered core rfl rfl

theorem orUnknown_pure (m : Move) : Lookup.orUnknown w (pure m) = m := rfl

/-- Looking up a name changes nothing if the name is unknown. -/
theorem operated_bind {α : Type} {x : Lookup α} {f : α → Lookup Move}
    (known : ∀ a, x = .ok a → Operated w scope op ((f a).orUnknown w)) :
    Operated w scope op ((x >>= f).orUnknown w) := by
  cases x with
  | error name => exact operated_reply w _ rfl
  | ok a => exact known a rfl

/-- What a look-up found, when something was made of it. -/
theorem bind_ok {α β : Type} {x : Lookup α} {f : α → β} {b : β}
    (h : (do return f (← x) : Lookup β) = .ok b) : ∃ a, x = .ok a ∧ f a = b := by
  cases x with
  | error name => cases h
  | ok a => exact ⟨a, rfl, Except.ok.inj h⟩

/-- An operation that claims a cell names its claim, or it finds that it may not. -/
theorem operated_nameClaim (h : w.Sound) (c : CellId) (again : Move)
    (name : Claim → Names → Names) : Operated w scope op (nameClaim (w.tryClaim c) again name) := by
  rw [tryClaim_eq h]
  cases hr : (w.cell c).isRealized with
  | true => exact operated_reply w _ rfl
  | false =>
    cases hc : (w.cell c).isClaimed with
    | true => exact operated_reply w _ rfl
    | false =>
      have howner : (w.cell c).owner = none := by simpa [Cell.isClaimed] using hc
      exact .claimed hr howner rfl

/-- In a sound world what shows no outcome is pending. -/
theorem pending_of_peek (h : w.Sound) {c : CellId} (hp : (w.cell c).peek = none) :
    (w.cell c).isRealized = false := by
  rw [← (h c).isSome_peek, hp]
  rfl

/-- A wait for a pending cell marks its latch, and listens for it if it has just been made. -/
theorem operated_waitBefore (w' : World) (core : w'.core = w.core) {c : CellId}
    (pending : (w.cell c).isRealized = false) (how : Answering) :
    Operated w scope op (w'.waitBefore c how) := by
  have hcells : w'.cells = w.cells := congrArg Core.cells core
  have hcell : w'.cell c = w.cell c := by rw [cell, hcells, cell]
  unfold waitBefore
  split
  · next habsent =>
    rw [hcell] at habsent
    refine .latched habsent ?_ rfl pending
    show ({ w'.core with cells := w'.cells.set c { w'.cell c with latch := .shut } } : Core) = _
    rw [core, hcell, hcells]
  · exact .answered core rfl rfl

/-- Clocks are not part of the core. -/
theorem core_readClock (w : World) : w.readClock.core = w.core := rfl

/-- Waiting leaves the latch behind at most, whether it gets a deadline or breaks off over it. -/
theorem operated_block (h : w.Sound) (c : CellId) (limit : Option Duration) :
    Operated w scope op (w.block c limit) := by
  unfold block
  split
  · exact operated_reply w _ rfl
  · next hp => exact operated_waitBefore w rfl (pending_of_peek h hp) _
  · next hp =>
    split
    · exact operated_waitBefore _ (core_readClock w) (pending_of_peek h hp) _
    · exact .answered rfl rfl rfl

/-- Ending a wait leaves the core alone. -/
theorem operated_pass (w' : World) (core : w'.core = w.core) (c : CellId) :
    Operated w scope op (w'.pass c) := by
  unfold pass
  split
  · exact .answered core rfl rfl
  · exact operated_reply w' _ core

/-- An operation with a key interns it first. -/
theorem operated_withIndex (key : String) (next : World → KeyIndex → Move)
    (h : ∀ index, Operated w scope op (next { w with keys := (w.keys.intern key).1 } index)) :
    Operated w scope op (w.withIndex key next) := by
  unfold withIndex
  split
  · exact .answered rfl rfl rfl
  · next keys index heq =>
    have hkeys : keys = (w.keys.intern key).1 := by rw [heq]
    rw [hkeys]
    exact h index

/-- What operations on cells do. -/
theorem cellOp_spec (h : w.Sound) (scope : Scope) (op : CellOp Script) :
    Operated w scope (.cell op) ((w.cellOp scope op).orUnknown w) := by
  cases op with
  | create as => exact .allocated .blank rfl
  | createOwned as token => exact .allocated .owned rfl
  | createRealized as outcome => exact operated_bind fun o _ => .allocated (.realized o) rfl
  | state cell => exact operated_bind fun c _ => operated_reply w _ rfl
  | render cell => exact operated_bind fun c _ => operated_reply w _ rfl
  | claim cell token => exact operated_bind fun c _ => operated_nameClaim h c _ _
  | acquire cell claim => exact operated_bind fun c _ => operated_nameClaim h c _ _
  | sameToken token other =>
    exact operated_bind fun t _ => operated_bind fun t' _ => operated_reply w _ rfl
  | complete cell outcome =>
    exact operated_bind fun c _ => operated_bind fun o _ => .entered rfl rfl rfl
  | completeWith cell outcome token =>
    refine operated_bind fun c hc => operated_bind fun o _ => ?_
    cases token with
    | none => exact .entered rfl rfl rfl
    | some name =>
      refine operated_bind fun a ha => ?_
      obtain ⟨t, ht, rfl⟩ := bind_ok ha
      exact .presented rfl (.complete hc ht) rfl rfl
  | chain cell source token =>
    refine operated_bind fun c hc => operated_bind fun s _ => ?_
    cases token with
    | none => exact .entered rfl rfl rfl
    | some name =>
      refine operated_bind fun a ha => ?_
      obtain ⟨t, ht, rfl⟩ := bind_ok ha
      exact .presented rfl (.chain hc ht) rfl rfl
  | listen cell tag onSuccess onError => exact operated_bind fun c _ => .entered rfl rfl rfl
  | map cell f as => exact operated_bind fun c _ => .entered rfl rfl rfl
  | bind cell step recover as => exact operated_bind fun c _ => .entered rfl rfl rfl
  | revoke cell cause => exact operated_bind fun c _ => operated_bind fun e _ => .entered rfl rfl rfl
  | revokeTo cell dependent =>
    exact operated_bind fun c _ => operated_bind fun d _ => .entered rfl rfl rfl
  | setLabel cell text =>
    refine operated_bind fun c _ => ?_
    cases (w.cell c).label with
    | some _ => exact operated_reply w _ rfl
    | none => exact .labelled rfl
  | label cell => exact operated_bind fun c _ => operated_reply w _ rfl
  | same cell other =>
    exact operated_bind fun c _ => operated_bind fun c' _ => operated_reply w _ rfl
  | realized source => exact operated_bind fun s _ => operated_reply w _ rfl
  | wait cell guarded =>
    refine operated_bind fun c _ => ?_
    show Operated w scope _ (if _ then _ else _)
    split
    · exact operated_reply w _ rfl
    · exact operated_block h c none
  | waitFor cell limit => exact operated_bind fun c _ => operated_block h c (some limit)
  | startWaiter cell as =>
    refine operated_bind fun c _ => ?_
    show Operated w scope _ (Lookup.orUnknown w (if _ then _ else _))
    split
    · next hp =>
      refine operated_waitBefore _ ?_ (pending_of_peek h (Option.isNone_iff_eq_none.mp hp)) .nothing
      rfl
    · exact operated_reply _ _ rfl
  | joinWaiter waiter =>
    simp only [cellOp]
    split
    · exact operated_reply w _ rfl
    · split
      · exact operated_reply w _ rfl
      · refine operated_pass _ ?_ _
        rfl
  | await targets tag onSuccess onError => exact operated_bind fun cs _ => .entered rfl rfl rfl

/-- What operations with a claim do. -/
theorem claimOp_spec (scope : Scope) (op : ClaimOp) :
    Operated w scope (.claim op) ((w.claimOp scope op).orUnknown w) := by
  cases op with
  | park as => exact operated_bind fun claim _ => operated_reply _ _ rfl
  | token name as => exact operated_bind fun claim _ => operated_reply _ _ rfl
  | cell name as => exact operated_bind fun claim _ => operated_reply _ _ rfl
  | complete name outcome =>
    exact operated_bind fun claim h => operated_bind fun o _ =>
      .presented rfl (.completeClaim h) rfl rfl
  | chain name source =>
    exact operated_bind fun claim h => operated_bind fun s _ => .presented rfl (.chainClaim h) rfl rfl

/-- What operations that go wrong do. -/
theorem faultOp_spec (scope : Scope) (op : FaultOp) :
    Operated w scope (.fault op) ((w.faultOp scope op).orUnknown w) := by
  cases op with
  | sink mode => exact operated_reply _ _ rfl
  | report e => exact operated_bind fun e _ => .entered rfl rfl rfl
  | panic p => exact .answered rfl rfl rfl

/-- What operations with pools do: queues are not part of the core. -/
theorem poolOp_spec (scope : Scope) (op : PoolOp Script) :
    Operated w scope (.pool op) ((w.poolOp scope op).orUnknown w) := by
  cases op with
  | createAmbient as base bindings spanOf =>
    exact operated_bind fun a _ => operated_bind fun _ _ => operated_reply _ _ rfl
  | lookup name type => exact operated_bind fun a _ => operated_reply w _ rfl
  | lookupCurrent type => exact operated_reply w _ rfl
  | lookupPool name type => exact operated_bind fun p _ => operated_reply w _ rfl
  | renderAmbient name => exact operated_bind fun a _ => operated_reply w _ rfl
  | renderPool name => exact operated_bind fun p _ => operated_reply w _ rfl
  | scope name body => exact operated_bind fun a _ => .entered rfl rfl rfl
  | create as kind ambient =>
    refine operated_bind fun a _ => operated_reply _ _ ?_
    cases kind <;> rfl
  | dispatch name tag body => exact operated_bind fun p _ => .entered rfl rfl rfl
  | run name limit order => exact operated_bind fun e _ => .entered rfl rfl rfl
  | queued name => exact operated_bind fun e _ => operated_reply w _ rfl

/-- What operations with contexts and providers do. -/
theorem contextOp_spec (scope : Scope) (op : ContextOp Script) :
    Operated w scope (.context op) ((w.contextOp scope op).orUnknown w) := by
  cases op with
  | intern key =>
    refine operated_withIndex key (fun w index => w.reply (.count index.toNat)) fun index => ?_
    exact .interned rfl rfl
  | interned key => exact .resolved rfl
  | createProvider as nodes => exact operated_reply _ _ rfl
  | register name key body =>
    refine operated_bind fun p _ => ?_
    cases (w.providers.get p).shared <;> exact operated_reply _ _ rfl
  | renderProvider name => exact operated_bind fun p _ => operated_reply w _ rfl
  | hasNode name key index =>
    refine operated_bind fun p _ => ?_
    cases index with
    | ofKey of =>
      rw [orUnknown_pure, withIndexOf]
      refine operated_withIndex of _ fun index => ?_
      exact .interned rfl rfl
    | number n => exact operated_reply _ _ rfl
  | create as inputs provider pool =>
    exact operated_bind fun i _ => operated_bind fun p _ => operated_bind fun pool _ => .opened rfl rfl rfl
  | fetch context key as => exact operated_bind fun k _ => .entered rfl rfl rfl
  | fetchAt context key index as =>
    refine operated_bind fun k _ => ?_
    cases index with
    | ofKey of =>
      refine operated_withIndex of
        (fun w index => w.call (.fetch k index key) [.answer (.nameFetched as)]) fun index => ?_
      exact .fetching rfl rfl
    | number n => exact .entered rfl rfl rfl
  | freeze context =>
    refine operated_bind fun k _ => ?_
    cases hf : (w.context k).freeze with
    | error e => exact operated_reply w _ rfl
    | ok frozen =>
      dsimp only
      split <;> exact .froze hf rfl rfl
  | cancel context cause => exact operated_bind fun k _ => operated_bind fun e _ => .entered rfl rfl rfl
  | isFrozen context => exact operated_bind fun k _ => operated_reply w _ rfl
  | render context => exact operated_bind fun k _ => operated_reply w _ rfl
  | inputs context => exact operated_bind fun k _ => operated_reply w _ rfl

/-- What operations with views do: they read. -/
theorem viewOp_spec (scope : Scope) (op : ViewOp Script) :
    Operated w scope (.view op) ((w.viewOp scope op).orUnknown w) := by
  cases op with
  | yank context keys as => exact operated_bind fun k _ => .entered rfl rfl rfl
  | view name =>
    refine operated_bind fun c _ => ?_
    split <;> exact operated_reply w _ rfl
  | get name key =>
    refine operated_bind fun c _ => ?_
    split <;> exact operated_reply w _ rfl
  | isOf name context =>
    refine operated_bind fun c _ => operated_bind fun k _ => ?_
    split <;> exact operated_reply w _ rfl
  | listen name tag onSuccess onError => exact operated_bind fun c _ => .entered rfl rfl rfl
  | bind name key as => exact operated_bind fun c _ => .entered rfl rfl rfl
  | fail name e => exact operated_bind fun c _ => operated_bind fun e _ => .entered rfl rfl rfl

/-- What an operation does, whichever it is. -/
theorem operate_spec (h : w.Sound) (scope : Scope) (op : Op) :
    Operated w scope op (w.operate scope op) := by
  cases op with
  | cell op => exact cellOp_spec h scope op
  | claim op => exact claimOp_spec scope op
  | fault op => exact faultOp_spec scope op
  | pool op => exact poolOp_spec scope op
  | context op => exact contextOp_spec scope op
  | view op => exact viewOp_spec scope op

end World

end RequestGraph
