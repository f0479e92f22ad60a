import RequestGraph.Proofs.Engine.History
import RequestGraph.Proofs.Engine.Within
import RequestGraph.Proofs.Request.Asking

/-!
# Operations mention what there is

What an operation names it has been given, or it has found it where everything is there: among the names,
in its scope, or in what a world keeps. What it makes is there from then on. So a move that performs an
operation *grounds*: everything that it mentions is there after it, and nothing is lost.
-/

namespace RequestGraph

/-- What holds of all that a map holds holds of all that it holds after an insertion. -/
theorem OrderedMap.forall_get?_insert {K V : Type} [DecidableEq K] {P : V → Prop} {m : OrderedMap K V}
    (h : ∀ k v, m.get? k = some v → P v) {k : K} {v : V} (hv : P v) :
    ∀ k' v', (m.insert k v).get? k' = some v' → P v' := by
  intro k' v' hv'
  rw [get?_insert] at hv'
  split at hv'
  · exact Option.some.inj hv' ▸ hv
  · exact h k' v' hv'

/-- What holds of all the entries of a list holds of all that its map gives. -/
theorem OrderedMap.forall_get?_ofList {K V : Type} [DecidableEq K] {P : V → Prop} {es : List (K × V)}
    (h : ∀ e ∈ es, P e.2) : ∀ k v, (ofList es).get? k = some v → P v := by
  have key (es : List (K × V)) (m : OrderedMap K V) (hm : ∀ k v, m.get? k = some v → P v)
      (h : ∀ e ∈ es, P e.2) :
      ∀ k v, (es.foldl (fun m e => m.insert e.1 e.2) m).get? k = some v → P v := by
    induction es generalizing m with
    | nil => exact hm
    | cons e es ih =>
      exact ih _ (forall_get?_insert hm (h e List.mem_cons_self))
        fun e' he' => h e' (List.mem_cons_of_mem e he')
  exact key es {} (fun k v hv => by simp [get?, find] at hv) h

/-- What a move mentions is there after it, and so is everything that was there before. -/
structure Move.Grounds (mv : Move) (w : World) : Prop where
  le : w.extent.Le mv.world.extent
  world : mv.world.Within mv.world.extent
  control : mv.control.Within mv.world.extent
  frames : ∀ frame ∈ mv.frames, frame.Within mv.world.extent

/-- A move that makes nothing new is judged by what was there before. -/
theorem Move.Grounds.of_same {mv : Move} {w : World} (same : mv.world.extent = w.extent)
    (h : mv.world.Within w.extent) (hc : mv.control.Within w.extent)
    (hf : ∀ frame ∈ mv.frames, frame.Within w.extent) : mv.Grounds w :=
  ⟨same ▸ .refl _, same ▸ h, same ▸ hc, same ▸ hf⟩

/-- Frames that only note where they are mention nothing. -/
theorem Frame.within_of_isOuter {b : Extent} {frames : List Frame}
    (h : frames.all Frame.isOuter = true) : ∀ frame ∈ frames, frame.Within b := by
  intro frame hf
  have houter := List.all_eq_true.mp h frame hf
  cases frame <;> trivial

theorem Frame.within_nil {b : Extent} : ∀ frame ∈ ([] : List Frame), frame.Within b :=
  List.forall_mem_nil _

theorem Frame.within_singleton {b : Extent} {frame : Frame} (h : frame.Within b) :
    ∀ frame' ∈ [frame], frame'.Within b := List.forall_mem_singleton.mpr h

namespace World

variable {b : Extent} {w w' : World} {scope : Scope}

/-! ### Changes of worlds

One lemma for each part of a world that an operation replaces or adds to. Of the world after the change only
what was put in has to be checked, as long as nothing is lost.
-/

/-- A cell is replaced where it is, so there are as many as before. -/
@[simp] theorem extent_setCell (w : World) (c : CellId) (cell : Cell Subscription) :
    (w.setCell c cell).extent = w.extent := by simp [extent, World.setCell]

@[simp] theorem extent_setContext (w : World) (k : ContextId) (context : Context) :
    (w.setContext k context).extent = w.extent := by simp [extent, World.setContext]

/-- Replacing a cell: only the new one is to be checked. -/
theorem Within.setCell (h : w.Within b) {c : CellId} {cell : Cell Subscription} (hc : cell.Within b) :
    (w.setCell c cell).Within b where
  names := h.names
  cells d := by
    rw [show (w.setCell c cell).cells.get d = _ from cell_setCell w c d cell]
    split
    · exact hc
    · exact h.cells d
  fanIns := h.fanIns
  contexts := h.contexts
  executors := h.executors
  injected := h.injected
  stack := h.stack

theorem Within.addCell (h : w.Within b) {cell : Cell Subscription} (hc : cell.Within b) :
    (w.addCell cell).Within b where
  names := h.names
  cells d := by
    rw [show (w.addCell cell).cells.get d = _ from cell_addCell w cell d]
    split
    · exact hc
    · exact h.cells d
  fanIns := h.fanIns
  contexts := h.contexts
  executors := h.executors
  injected := h.injected
  stack := h.stack

/-- Replacing a fan-in: only what it continues with is to be checked. -/
theorem Within.setFanIn (h : w.Within b) {f : FanInId} {fanIn : FanIn Continuation}
    (hf : ∀ k, fanIn.continuation = some k → k.Within b) : (w.setFanIn f fanIn).Within b := by
  refine ⟨h.names, h.cells, fun g k hk => ?_, h.contexts, h.executors, h.injected, h.stack⟩
  rw [show (w.setFanIn f fanIn).fanIns.get g = _ from Arena.get_set w.fanIns f g fanIn] at hk
  split at hk
  · exact hf k hk
  · exact h.fanIns g k hk

theorem Within.pushFanIn (h : w.Within b) {k : Continuation} (hk : k.Within b) :
    { w with fanIns := w.fanIns.push (.start k) }.Within b := by
  refine ⟨h.names, h.cells, fun g k' hk' => ?_, h.contexts, h.executors, h.injected, h.stack⟩
  have hk' : ((w.fanIns.push (.start k)).get g).continuation = some k' := hk'
  rw [Arena.get_push] at hk'
  split at hk'
  · exact Option.some.inj hk' ▸ hk
  · exact h.fanIns g k' hk'

/-- Replacing a context: only the new one is to be checked. -/
theorem Within.setContext (h : w.Within b) {k : ContextId} {context : Context}
    (hc : context.Within b) : (w.setContext k context).Within b := by
  refine ⟨h.names, h.cells, h.fanIns, fun j => ?_, h.executors, h.injected, h.stack⟩
  rw [show (w.setContext k context).contexts.get j = _ from Arena.get_set w.contexts k j context]
  split
  · exact hc
  · exact h.contexts j

/-- Replacing a queue: only its jobs are to be checked. -/
theorem Within.setExecutor (h : w.Within b) {e : ExecutorId} {jobs : List (Submission Job)}
    (hjobs : JobsWithin b jobs) : { w with executors := w.executors.set e jobs }.Within b := by
  refine ⟨h.names, h.cells, h.fanIns, h.contexts, fun e' => ?_, h.injected, h.stack⟩
  have hget : (w.executors.set e jobs).get e' = _ := Arena.get_set w.executors e e' jobs
  show JobsWithin b ((w.executors.set e jobs).get e')
  rw [hget]
  split
  · exact hjobs
  · exact h.executors e'

/-- Names are given to what is there. -/
theorem Within.named (h : w.Within b) {f : Names → Names} (hf : (f w.names).Within b) :
    (w.named f).Within b :=
  ⟨hf, h.cells, h.fanIns, h.contexts, h.executors, h.injected, h.stack⟩

/-- A clock mentions nothing. -/
theorem Within.readClock (h : w.Within b) : w.readClock.Within b := { h with }

/-- A cell may be named once it is there. -/
theorem Within.nameCell (h : w.Within b) (name : String) {c : CellId} (hc : c < b.cells) :
    (w.nameCell name c).Within b :=
  h.named { h.names with cells := OrderedMap.forall_get?_insert h.names.cells hc }

/-- Closing a context takes nothing into it. -/
theorem Within.withContext_frozen (h : w.Within b) (tables : w.TablesSound) (k : ContextId) :
    (w.setContext k (w.context k).frozen).Within b := by
  have hk := h.contexts k
  refine h.setContext ⟨?_, ?_, ?_, ?_⟩
  · rw [Context.inputs_frozen]
    exact hk.inputs
  · rw [Context.slots_frozen]
    exact hk.slots
  · rw [(tables.contexts k).toList_frozen]
    exact hk.ledger
  · rw [Context.pool_frozen]
    exact hk.pool

theorem Within.pushContext (h : w.Within b) {context : Context} (hc : context.Within b) :
    { w with contexts := w.contexts.push context }.Within b := by
  refine ⟨h.names, h.cells, h.fanIns, fun j => ?_, h.executors, h.injected, h.stack⟩
  rw [show (w.contexts.push context).get j = _ from Arena.get_push w.contexts context j]
  split
  · exact hc
  · exact h.contexts j

/-- A cell that is there is claimed with a token that is there from then on. -/
theorem Within.claimed (h : w.Within w.extent) {c : CellId} (hc : c < w.extent.cells) :
    let w' := { w with freshToken := w.freshToken + 1 }.setCell c
      { w.cell c with phase := .listening, owner := some w.freshToken }
    w.extent.Le w'.extent ∧ w'.Within w'.extent ∧ Claim.Within w'.extent ⟨c, w.freshToken⟩ := by
  have le : w.extent.Le { w.extent with tokens := w.freshToken + 1 } :=
    ⟨Nat.le_refl _, Nat.le_refl _, Nat.le_succ _, Nat.le_refl _⟩
  have hcell := (h.cells c).mono le
  intro w'
  rw [show w'.extent = _ from extent_setCell ..]
  exact ⟨le, Within.setCell (h.mono le) ⟨hcell.1, hcell.2⟩, hc, Nat.lt_succ_self _⟩

/-- A new cell is there. -/
theorem le_addCell (w : World) (cell : Cell Subscription) : w.extent.Le (w.addCell cell).extent :=
  ⟨(Nat.le_succ _).trans_eq (Arena.size_push w.cells cell).symm, Nat.le_refl _, Nat.le_refl _,
    Nat.le_refl _⟩

/-- A new cell is there. -/
theorem lt_addCell (w : World) (cell : Cell Subscription) :
    w.cells.size < (w.addCell cell).extent.cells :=
  (Nat.lt_succ_self _).trans_eq (Arena.size_push w.cells cell).symm

/-! ### Looking names up

A look-up that fails has nothing to say. One that finds something has found it among the names, or in the
scope, and both are within the extent.
-/

/-- A name that is found is one of the names. -/
theorem get?_of_ofMap {α : Type} {m : OrderedMap String α} {name : String} {a : α}
    (h : Lookup.ofMap m name = .ok a) : m.get? name = some a := by
  unfold Lookup.ofMap at h
  split at h
  · next found => exact Except.ok.inj h ▸ found
  · cases h

/-- What holds of each thing that is looked up holds of all of them. -/
theorem forall_mapM {α β : Type} {P : β → Prop} {f : α → Lookup β}
    (hf : ∀ a b, f a = .ok b → P b) {as : List α} {bs : List β} (hbs : as.mapM f = .ok bs) :
    ∀ b ∈ bs, P b := by
  induction as generalizing bs with
  | nil =>
    cases hbs
    exact nofun
  | cons a as ih =>
    rw [List.mapM_cons] at hbs
    cases ha : f a with
    | error name => simp [ha, bind, Except.bind] at hbs
    | ok b =>
      cases has : as.mapM f with
      | error name => simp [ha, has, bind, Except.bind] at hbs
      | ok rest =>
        obtain rfl : b :: rest = bs := by
          simpa [ha, has, bind, Except.bind, pure, Except.pure] using hbs
        exact List.forall_mem_cons.mpr ⟨hf a b ha, ih has⟩

section Names

variable (h : w.Within b)
include h

/-- What a name denotes is there, as the names are within the extent. -/
theorem cell?_lt {name : String} {c : CellId} (hc : w.cell? name = .ok c) : c < b.cells :=
  h.names.cells name c (get?_of_ofMap hc)

theorem view?_lt {name : String} {c : CellId} (hc : w.view? name = .ok c) : c < b.cells :=
  h.names.views name c (get?_of_ofMap hc)

theorem awaited?_lt {target : Awaited} {c : CellId} (hc : w.awaited? target = .ok c) :
    c < b.cells := by
  cases target with
  | cell name => exact cell?_lt h hc
  | view name => exact view?_lt h hc

/-- The claim of an operation is one of the names, or that of its scope. -/
theorem claim?_within (hs : scope.Within b) {name : Option String} {claim : Claim}
    (hc : w.claim? scope name = .ok claim) : claim.Within b := by
  cases name with
  | some name => exact h.names.claims name claim (get?_of_ofMap hc)
  | none =>
    simp only [claim?] at hc
    split at hc
    · next found => exact Except.ok.inj hc ▸ hs.claim _ found
    · cases hc

/-- The context of an operation is one of the names, or that of its scope. -/
theorem context?_lt (hs : scope.Within b) {name : Option String} {k : ContextId}
    (hk : w.context? scope name = .ok k) : k < b.contexts := by
  cases name with
  | some name => exact h.names.contexts name k (get?_of_ofMap hk)
  | none =>
    simp only [context?] at hk
    split at hk
    · next found => exact Except.ok.inj hk ▸ hs.context _ found
    · cases hk

theorem source?_within {e : SourceExpr} {source : Source} (hsource : w.source? scope e = .ok source) :
    source.Within b := by
  cases e with
  | value e =>
    obtain ⟨n, -, rfl⟩ := bind_ok hsource
    trivial
  | cell name =>
    obtain ⟨c, hc, rfl⟩ := bind_ok hsource
    exact cell?_lt h hc

/-- The inputs of a request are looked up one by one. -/
theorem inputs?_within {inputs : List (String × SourceExpr)} {sources : List (String × Source)}
    (hsources : w.inputs? scope inputs = .ok sources) : ∀ e ∈ sources, e.2.Within b := by
  refine forall_mapM ?_ hsources
  rintro ⟨key, e⟩ entry hentry
  obtain ⟨source, hsource, rfl⟩ := bind_ok hentry
  exact source?_within h hsource

theorem chainToken?_lt {name : Option String} {token : Option Token}
    (htoken : w.chainToken? name = .ok token) : ∀ t, token = some t → t < b.tokens := by
  cases name with
  | none =>
    cases htoken
    exact nofun
  | some name =>
    obtain ⟨t, ht, rfl⟩ := bind_ok htoken
    rintro _ ⟨⟩
    exact h.names.tokens name t (get?_of_ofMap ht)

theorem pool?_within {name : String} {pool : Pool} (hpool : w.pool? name = .ok pool) :
    pool.Within b := h.names.pools name pool (get?_of_ofMap hpool)

theorem poolOrInline?_within {name : Option String} {pool : Pool}
    (hpool : w.poolOrInline? name = .ok pool) : pool.Within b := by
  cases name with
  | some name => exact pool?_within h hpool
  | none =>
    cases hpool
    exact nofun

end Names

/-! ### Operations

An operation either answers, with a change of the world, or goes on with a call. The first lemmas say when
such a move grounds, and the operations follow group by group.
-/

section Operations

variable {op : Op} (h : w.Within w.extent) (hs : scope.Within w.extent)

/-- Answering an operation grounds if the change that comes with it does. -/
theorem grounds_reply {r : Reply} (h' : w'.Within w.extent)
    (same : w'.extent = w.extent) : (w'.reply r).Grounds w :=
  ⟨same ▸ .refl _, same ▸ h', trivial, Frame.within_nil⟩

/-- Calling grounds if the call mentions what is there only. -/
theorem grounds_call (same : w'.extent = w.extent) (h' : w'.Within w.extent) {c : Call}
    (hc : c.Within w.extent) {frames : List Frame} (outer : frames.all Frame.isOuter = true) :
    (w'.call c frames).Grounds w :=
  ⟨same ▸ .refl _, same ▸ h', same ▸ hc, Frame.within_of_isOuter outer⟩

/-- A wait with a latch mentions the cell that it waits for, whether or not the latch is new. -/
theorem grounds_waitBefore (h' : w'.Within w.extent) {c : CellId} (hc : c < w.extent.cells)
    (how : Answering) (same : w'.extent = w.extent) :
    (w'.waitBefore c how).Grounds w := by
  unfold waitBefore
  split
  · have hcell := h'.cells c
    have same' : (w'.setCell c { w'.cell c with latch := .shut }).extent = w.extent := by
      rw [extent_setCell, same]
    exact grounds_call (c := .subscribe c (.latch c)) same' (h'.setCell ⟨hcell.1, hcell.2⟩) ⟨hc, hc⟩ rfl
  · exact ⟨same ▸ .refl _, same ▸ h', trivial, Frame.within_of_isOuter rfl⟩

/-- Ending a wait mentions nothing. -/
theorem grounds_pass (h' : w'.Within w.extent) (c : CellId) (same : w'.extent = w.extent) :
    (w'.pass c).Grounds w := by
  unfold pass
  split
  · exact ⟨same ▸ .refl _, same ▸ h', trivial, Frame.within_nil⟩
  · exact grounds_reply h' same

include h

/-- Waiting for a cell that is there. -/
theorem grounds_block {c : CellId} (hc : c < w.extent.cells) (limit : Option Duration) :
    (w.block c limit).Grounds w := by
  unfold block
  split
  · exact grounds_reply h rfl
  · exact grounds_waitBefore h hc _ rfl
  · split
    · exact grounds_waitBefore h.readClock hc _ rfl
    · exact ⟨.refl _, h.readClock, trivial, Frame.within_nil⟩

/-- A name that is unknown changes nothing. -/
theorem grounds_bind {α : Type} {x : Lookup α} {f : α → Lookup Move}
    (known : ∀ a, x = .ok a → ((f a).orUnknown w).Grounds w) : ((x >>= f).orUnknown w).Grounds w := by
  cases x with
  | error name => exact grounds_reply h rfl
  | ok a => exact known a rfl

/-- A claim mentions its cell and the token that is made with it. -/
theorem grounds_nameClaim (sound : w.Sound) {c : CellId} (hc : c < w.extent.cells) (again : Move)
    {name : Claim → Names → Names}
    (hname : ∀ {b : Extent} {claim n}, claim.Within b → n.Within b → (name claim n).Within b) :
    (nameClaim (w.tryClaim c) again name).Grounds w := by
  rw [tryClaim_eq sound]
  split
  · exact grounds_reply h rfl
  · obtain ⟨le, hclaimed, hclaim⟩ := h.claimed hc
    exact ⟨le, hclaimed.named (hname hclaim hclaimed.names), trivial, Frame.within_nil⟩

/-- Interning a key touches the keys only, which mention nothing. -/
theorem grounds_withIndex (key : String) {next : World → KeyIndex → Move}
    (hnext : ∀ keys index, (next { w with keys } index).Grounds w) :
    (Lookup.orUnknown w (.ok (w.withIndex key next))).Grounds w := by
  show (w.withIndex key next).Grounds w
  unfold withIndex
  split
  · exact ⟨.refl _, h, trivial, Frame.within_nil⟩
  · exact hnext _ _

theorem grounds_withIndexOf (index : IndexExpr) {next : World → KeyIndex → Move}
    (hnext : ∀ keys index, (next { w with keys } index).Grounds w) :
    (Lookup.orUnknown w (pure (w.withIndexOf index next))).Grounds w := by
  cases index with
  | ofKey key => exact grounds_withIndex h key hnext
  | number n => exact hnext w.keys n

include hs

/-- Operations on cells, one after the other; those that allocate a cell may mention the new one. -/
theorem grounds_cellOp (sound : w.Sound) (op : CellOp Script) :
    ((w.cellOp scope op).orUnknown w).Grounds w := by
  have hquiet : (default : Cell Subscription).Within (w.addCell default).extent :=
    Cell.within_quiet rfl rfl
  cases op with
  | create as =>
    exact ⟨le_addCell w _, ((h.mono (le_addCell w _)).addCell hquiet).nameCell _ (lt_addCell w _),
      trivial, Frame.within_nil⟩
  | createOwned as token =>
    have le : w.extent.Le
        ({ w with freshToken := w.freshToken + 1 }.addCell (.owned w.freshToken)).extent :=
      ⟨(le_addCell w _).cells, Nat.le_refl _, Nat.le_succ _, Nat.le_refl _⟩
    have hmade := Within.addCell (w := { w with freshToken := w.freshToken + 1 }) (h.mono le)
      (Cell.within_quiet (c := .owned w.freshToken) rfl rfl)
    have hnamed := hmade.nameCell as (lt_addCell w _)
    refine ⟨le, hnamed.named ?_, trivial, Frame.within_nil⟩
    exact { hnamed.names with
      tokens := OrderedMap.forall_get?_insert hnamed.names.tokens (Nat.lt_succ_self _) }
  | createRealized as outcome =>
    refine grounds_bind h fun o _ => ?_
    exact ⟨le_addCell w _, ((h.mono (le_addCell w _)).addCell (Cell.within_quiet rfl rfl)).nameCell _
      (lt_addCell w _), trivial, Frame.within_nil⟩
  | claim cell token =>
    refine grounds_bind h fun c hc => grounds_nameClaim h sound (cell?_lt h hc) _ ?_
    exact fun hclaim hn => { hn with
      tokens := OrderedMap.forall_get?_insert hn.tokens hclaim.2 }
  | acquire cell claim =>
    refine grounds_bind h fun c hc => grounds_nameClaim h sound (cell?_lt h hc) _ ?_
    exact fun hclaim hn => { hn with
      claims := OrderedMap.forall_get?_insert hn.claims hclaim }
  | complete cell outcome =>
    exact grounds_bind h fun c hc => grounds_bind h fun o _ =>
      grounds_call (c := .complete c o .unowned) rfl h (cell?_lt h hc) rfl
  | completeWith cell outcome token =>
    exact grounds_bind h fun c hc => grounds_bind h fun o _ => grounds_bind h fun a _ =>
      grounds_call (c := .complete c o a) rfl h (cell?_lt h hc) rfl
  | chain cell source token =>
    exact grounds_bind h fun c hc => grounds_bind h fun s hsource => grounds_bind h fun t ht =>
      grounds_call (c := .forward c s t) rfl h
        ⟨cell?_lt h hc, source?_within h hsource, chainToken?_lt h ht⟩ rfl
  | listen cell tag onSuccess onError =>
    exact grounds_bind h fun c hc => grounds_call (c := .subscribe c (.user tag onSuccess onError scope))
      rfl h ⟨cell?_lt h hc, hs⟩ rfl
  | map cell f as =>
    exact grounds_bind h fun c hc => grounds_call (c := .transform c (.ofFunction f) none) rfl h
      ⟨cell?_lt h hc, Stage.within_ofFunction f, nofun⟩ rfl
  | bind cell step recover as =>
    refine grounds_bind h fun c hc => grounds_call
      (c := .transform c (stageOf scope step) (recover.map (stageOf scope))) rfl h
      ⟨cell?_lt h hc, hs, fun s hs' => ?_⟩ rfl
    obtain ⟨step', -, rfl⟩ := Option.map_eq_some_iff.mp hs'
    exact hs
  | revoke cell cause =>
    exact grounds_bind h fun c hc => grounds_bind h fun e _ =>
      grounds_call (c := .revoke c e) rfl h (cell?_lt h hc) rfl
  | revokeTo cell dependent =>
    exact grounds_bind h fun c hc => grounds_bind h fun d hd =>
      grounds_call (c := .link c d) rfl h ⟨cell?_lt h hc, cell?_lt h hd⟩ rfl
  | setLabel cell text =>
    refine grounds_bind h fun c hc => ?_
    cases (w.cell c).label with
    | some there => exact grounds_reply h rfl
    | none =>
      have labelled : ({ w.cell c with label := some text } : Cell Subscription).Within w.extent :=
        ⟨(h.cells c).listeners, (h.cells c).revokee⟩
      exact grounds_reply (h.setCell labelled) (extent_setCell ..)
  | wait cell guarded =>
    refine grounds_bind h fun c hc => ?_
    show Move.Grounds (if _ then _ else _) w
    split
    · exact grounds_reply h rfl
    · exact grounds_block h (cell?_lt h hc) none
  | waitFor cell limit => exact grounds_bind h fun c hc => grounds_block h (cell?_lt h hc) (some limit)
  | startWaiter cell as =>
    refine grounds_bind h fun c hc => ?_
    show (Lookup.orUnknown w (if _ then _ else _)).Grounds w
    split
    · exact grounds_waitBefore (h.named h.names) (cell?_lt h hc) _ rfl
    · exact grounds_reply (h.named h.names) rfl
  | joinWaiter waiter =>
    simp only [cellOp]
    split
    · exact grounds_reply h rfl
    · split
      · exact grounds_reply h rfl
      · exact grounds_pass (h.named h.names) _ rfl
  | await targets tag onSuccess onError =>
    exact grounds_bind h fun cells hcells => grounds_call
      (c := .await cells (.user tag onSuccess onError scope)) rfl h
      ⟨forall_mapM (fun _ _ => awaited?_lt h) hcells, hs⟩ rfl
  | state | render | label | realized => exact grounds_bind h fun _ _ => grounds_reply h rfl
  | sameToken | same =>
    exact grounds_bind h fun _ _ => grounds_bind h fun _ _ => grounds_reply h rfl

/-- Operations with a claim find their cell in it. -/
theorem grounds_claimOp (op : ClaimOp) : ((w.claimOp scope op).orUnknown w).Grounds w := by
  cases op with
  | park as =>
    refine grounds_bind h fun claim hc => grounds_reply (h.named ?_) rfl
    exact { h.names with
      claims := OrderedMap.forall_get?_insert h.names.claims (claim?_within h hs hc) }
  | token name as =>
    refine grounds_bind h fun claim hc => grounds_reply (h.named ?_) rfl
    exact { h.names with
      tokens := OrderedMap.forall_get?_insert h.names.tokens (claim?_within h hs hc).2 }
  | cell name as =>
    exact grounds_bind h fun claim hc =>
      grounds_reply (h.nameCell _ (claim?_within h hs hc).1) rfl
  | complete name outcome =>
    exact grounds_bind h fun claim hc => grounds_bind h fun o _ => grounds_call
      (c := .complete claim.cell o (.presenting (some claim.token))) rfl h
      (claim?_within h hs hc).1 rfl
  | chain name source =>
    refine grounds_bind h fun claim hc => grounds_bind h fun s hsource => grounds_call
      (c := .forward claim.cell s (some claim.token)) rfl h
      ⟨(claim?_within h hs hc).1, source?_within h hsource, ?_⟩ rfl
    rintro _ ⟨⟩
    exact (claim?_within h hs hc).2

/-- Operations with pools; a queue that is made is there from then on. -/
theorem grounds_poolOp (op : PoolOp Script) : ((w.poolOp scope op).orUnknown w).Grounds w := by
  cases op with
  | createAmbient as base bindings spanOf =>
    exact grounds_bind h fun _ _ => grounds_bind h fun _ _ =>
      ⟨.refl _, { h with names := h.names }, trivial, Frame.within_nil⟩
  | scope name body =>
    exact grounds_bind h fun ambient _ => ⟨.refl _, h, hs, Frame.within_of_isOuter rfl⟩
  | create as kind ambient =>
    refine grounds_bind h fun ambient _ => ?_
    cases kind with
    | inline | worker =>
      exact ⟨.refl _, h.named { h.names with
        pools := OrderedMap.forall_get?_insert h.names.pools nofun }, trivial, Frame.within_nil⟩
    | queue =>
      -- The new executor is there from now on, and the pool that is named has it.
      let made : World := { w with executors := w.executors.push [] }
      have le : w.extent.Le made.extent := ⟨Nat.le_refl _, Nat.le_refl _, Nat.le_refl _,
        (Nat.le_succ _).trans_eq (Arena.size_push w.executors []).symm⟩
      have hmade := h.mono le
      have hworld : made.Within made.extent := by
        refine { hmade with executors := fun e => ?_ }
        show JobsWithin _ ((w.executors.push []).get e)
        rw [Arena.get_push]
        split
        · exact nofun
        · exact hmade.executors e
      have hpool : Pool.Within made.extent ⟨.executor w.executors.size, ambient⟩ := by
        rintro _ ⟨⟩
        exact (Nat.lt_succ_self _).trans_eq (Arena.size_push w.executors []).symm
      have hnamed : (made.namePool as ⟨.executor w.executors.size, ambient⟩).Within made.extent :=
        hworld.named { hworld.names with
          pools := OrderedMap.forall_get?_insert hworld.names.pools hpool }
      exact ⟨le, hnamed.named hnamed.names, trivial, Frame.within_nil⟩
  | dispatch name tag body =>
    exact grounds_bind h fun pool hpool =>
      grounds_call (c := .dispatch pool (.user tag body scope)) rfl h ⟨pool?_within h hpool, hs⟩ rfl
  | run name limit order =>
    exact grounds_bind h fun e _ => grounds_call (c := .drain e limit order 0) rfl h trivial rfl
  | lookupCurrent => exact grounds_reply h rfl
  | lookup | lookupPool | renderAmbient | renderPool | queued =>
    exact grounds_bind h fun _ _ => grounds_reply h rfl

/-- Operations with contexts and providers; a request that is opened has nothing in it but its inputs. -/
theorem grounds_contextOp (tables : w.TablesSound) (op : ContextOp Script) :
    ((w.contextOp scope op).orUnknown w).Grounds w := by
  cases op with
  | intern key =>
    refine grounds_withIndex h key fun keys index => ?_
    exact grounds_reply h rfl
  | interned => exact grounds_reply h rfl
  | createProvider as nodes => exact ⟨.refl _, { h with names := h.names }, trivial, Frame.within_nil⟩
  | register name key body =>
    refine grounds_bind h fun p _ => ?_
    show (Lookup.orUnknown w (if _ then _ else _)).Grounds w
    split <;> exact grounds_reply h rfl
  | hasNode name key index =>
    refine grounds_bind h fun p _ => ?_
    refine grounds_withIndexOf h index fun keys index => ?_
    exact grounds_reply h rfl
  | create as inputs provider pool =>
    refine grounds_bind h fun sources hsources => grounds_bind h fun p _ =>
      grounds_bind h fun pool hpool => ?_
    have le : w.extent.Le { w.extent with contexts := w.contexts.size + 1 } :=
      ⟨Nat.le_refl _, Nat.le_succ _, Nat.le_refl _, Nat.le_refl _⟩
    have hcontext : Context.Within w.extent
        { inputs := OrderedMap.ofList sources, provider := p, pool } := by
      refine ⟨OrderedMap.forall_get?_ofList (inputs?_within h hsources), fun i c hc => ?_, nofun,
        poolOrInline?_within h hpool⟩
      rw [SlotTable.lookup_blank] at hc
      cases hc
    have hmade := (h.pushContext hcontext).mono le
    have same : ({ w with
        contexts := w.contexts.push { inputs := OrderedMap.ofList sources, provider := p, pool } :
          World }).extent = { w.extent with contexts := w.contexts.size + 1 } := by
      simp [extent]
    refine ⟨same ▸ le, same ▸ { hmade with names := ?_ }, trivial, Frame.within_nil⟩
    exact { hmade.names with
      contexts := OrderedMap.forall_get?_insert hmade.names.contexts (Nat.lt_succ_self _) }
  | fetch context key as =>
    exact grounds_bind h fun k hk =>
      grounds_call (c := .fetchKey k key) rfl h (context?_lt h hs hk) rfl
  | fetchAt context key index as =>
    refine grounds_bind h fun k hk => ?_
    refine grounds_withIndexOf h index fun keys index => ?_
    exact ⟨.refl _, h, context?_lt h hs hk, Frame.within_of_isOuter rfl⟩
  | freeze context =>
    refine grounds_bind h fun k _ => ?_
    have hfrozen := h.withContext_frozen tables k
    have same := extent_setContext w k (w.context k).frozen
    cases hfreeze : (w.context k).freeze with
    | error e => exact grounds_reply h rfl
    | ok frozen =>
      obtain rfl := Context.frozen_of_freeze hfreeze
      dsimp only
      split
      · exact ⟨same ▸ .refl _, same ▸ hfrozen, trivial, Frame.within_nil⟩
      · exact grounds_reply hfrozen same
  | cancel context cause =>
    exact grounds_bind h fun k hk => grounds_bind h fun e _ =>
      grounds_call (c := .cancel k e) rfl h (context?_lt h hs hk) rfl
  | renderProvider | isFrozen | render | inputs =>
    exact grounds_bind h fun _ _ => grounds_reply h rfl

/-- Operations with views only read. -/
theorem grounds_viewOp (op : ViewOp Script) : ((w.viewOp scope op).orUnknown w).Grounds w := by
  cases op with
  | yank context keys as =>
    exact grounds_bind h fun k hk =>
      grounds_call (c := .gather k keys keys []) rfl h ⟨context?_lt h hs hk, nofun⟩ rfl
  | view name | get name key =>
    refine grounds_bind h fun c _ => ?_
    split <;> exact grounds_reply h rfl
  | isOf name context =>
    refine grounds_bind h fun c _ => grounds_bind h fun k _ => ?_
    split <;> exact grounds_reply h rfl
  | listen name tag onSuccess onError =>
    exact grounds_bind h fun c hc => grounds_call (c := .subscribe c (.user tag onSuccess onError scope))
      rfl h ⟨view?_lt h hc, hs⟩ rfl
  | bind name key as =>
    exact grounds_bind h fun c hc => grounds_call (c := .transform c (.entry key) none) rfl h
      ⟨view?_lt h hc, Stage.within_entry key, nofun⟩ rfl
  | fail name e =>
    exact grounds_bind h fun c hc => grounds_bind h fun e _ =>
      grounds_call (c := .complete c (.error e) .unowned) rfl h (view?_lt h hc) rfl

/-- An operation mentions what there is. -/
theorem grounds_operate (sound : w.Sound) (tables : w.TablesSound) (op : Op) :
    (w.operate scope op).Grounds w := by
  cases op with
  | cell op => exact grounds_cellOp h hs sound op
  | claim op => exact grounds_claimOp h hs op
  | fault op => cases op with
    | sink mode => exact grounds_reply h rfl
    | report e =>
      exact grounds_bind h fun e _ => grounds_call (c := .report e) rfl h trivial rfl
    | panic p => exact ⟨.refl _, h, trivial, Frame.within_nil⟩
  | pool op => exact grounds_poolOp h hs op
  | context op => exact grounds_contextOp h hs tables op
  | view op => exact grounds_viewOp h hs op

end Operations

end World

end RequestGraph
