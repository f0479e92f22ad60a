import RequestGraph.Proofs.Engine.Grounding
import RequestGraph.Proofs.Engine.Queues

/-!
# Everything that is mentioned is there

No call and no frame mentions a cell, a context or a token that is not there: what it hands on it has, and
what it makes is there from then on. So no machine of a run holds a number that stands for nothing.

    History capacity m past   →   m.Grounded
-/

namespace RequestGraph

/-- An outcome that is handed to a script mentions no cells. -/
theorem Scope.Within.receive {b : Extent} {s : Scope} (h : s.Within b) (o : Outcome) :
    (s.receive o).Within b := by
  cases o <;> exact ⟨h.context, h.claim⟩

/-- Settling a cell mentions the cell and the token, if there is one. -/
theorem Call.within_settle {b : Extent} {c : CellId} {o : Outcome} {token : Option Token} (hc : c < b.cells)
    (ht : ∀ t, token = some t → t < b.tokens) : (Call.settle c o token).Within b := by
  cases token with
  | none => exact hc
  | some t => exact ⟨hc, ht t rfl⟩

namespace World

variable {b : Extent} {w : World} {scope : Scope}

section Calls

variable (h : w.Within w.extent)
include h

/-! ### Completions

What a cell keeps was within the extent when it was stored, and extents only grow. So whatever a completion
brings up from a cell is there.
-/

/-- A completion hands on listeners of its cell, which were there. -/
theorem grounds_complete (sound : w.Sound) {c : CellId} {o : Outcome} {a : Authority} :
    (w.complete c o a).Grounds w := by
  rw [complete_eq sound]
  split
  · exact ⟨.refl _, h, trivial, Frame.within_nil⟩
  · split
    · exact ⟨.refl _, h, trivial, Frame.within_nil⟩
    · exact ⟨.refl _, h, trivial, Frame.within_nil⟩
    · refine .of_same (extent_setCell ..) (h.setCell (Cell.within_quiet rfl rfl)) ?_ Frame.within_nil
      exact ⟨(h.cells c).listeners, (h.cells c).revokee⟩

/-- Delivering, one listener after the other. -/
theorem grounds_deliver {listeners : List Subscription} {revokee : Option CellId} {o : Outcome}
    (hl : TellsWithin w.extent listeners) (hr : ∀ d, revokee = some d → d < w.extent.cells) :
    (w.deliver listeners revokee o).Grounds w := by
  cases listeners with
  | cons s rest =>
    have hl := List.forall_mem_cons.mp hl
    exact ⟨.refl _, h, hl.1, Frame.within_singleton ⟨hl.2, hr⟩⟩
  | nil =>
    cases revokee with
    | none => exact ⟨.refl _, h, trivial, Frame.within_nil⟩
    | some d => exact ⟨.refl _, h, hr d rfl, Frame.within_singleton trivial⟩

/-- A listener leads to a call that mentions what the listener mentions. -/
theorem grounds_tell {l : Listener} {o : Outcome} (hl : l.Within w.extent) :
    (w.tell l o).Grounds w := by
  cases l with
  | user tag onSuccess onError scope =>
    have hscope := Scope.Within.receive (s := scope) hl o
    cases o <;> exact ⟨.refl _, h, hscope, Frame.within_nil⟩
  | forward target token =>
    cases token with
    | none => exact ⟨.refl _, h, hl.1, Frame.within_nil⟩
    | some t => exact ⟨.refl _, h, ⟨hl.1, hl.2 t rfl⟩, Frame.within_nil⟩
  | transform result onSuccess onError =>
    obtain ⟨hresult, hsuccess, herror⟩ := hl
    cases o with
    | ok v => exact ⟨.refl _, h, hsuccess, Frame.within_singleton hresult⟩
    | error e =>
      cases onError with
      | none => exact ⟨.refl _, h, hresult, Frame.within_nil⟩
      | some recover => exact ⟨.refl _, h, herror recover rfl, Frame.within_singleton hresult⟩
  | relay f => exact ⟨.refl _, h, trivial, Frame.within_nil⟩
  | latch c =>
    exact .of_same (extent_setCell ..) (h.setCell ⟨(h.cells c).listeners, (h.cells c).revokee⟩) trivial
      Frame.within_nil

/-- A listener that comes too late is told at once, and any other is kept by the cell. -/
theorem grounds_subscribe (sound : w.Sound) {c : CellId} {l : Listener} (hl : l.Within w.extent) :
    (w.subscribe c l).Grounds w := by
  rw [subscribe_eq sound]
  have hcell := h.cells c
  split
  · exact ⟨.refl _, h, hl, Frame.within_nil⟩
  · refine .of_same (extent_setCell ..) (Within.setCell (w := { w with freshTicket := _ }) h ?_)
      trivial Frame.within_nil
    refine ⟨?_, hcell.revokee⟩
    rw [(sound c).toList_listened]
    exact List.forall_mem_append.mpr ⟨hcell.listeners, List.forall_mem_singleton.mpr hl⟩

/-- A dependent that is linked too late is revoked at once, and any other is kept by the cell. -/
theorem grounds_link (sound : w.Sound) {c d : CellId} (hd : d < w.extent.cells) :
    (w.link c d).Grounds w := by
  rw [link_eq sound]
  split
  · exact ⟨.refl _, h, hd, Frame.within_nil⟩
  · refine .of_same (extent_setCell ..) (h.setCell ⟨(h.cells c).listeners, ?_⟩) trivial Frame.within_nil
    rintro _ ⟨⟩
    exact hd

/-! ### Forwarding, transformations, fan-ins

These calls make a cell or a fan-in, and register a listener that mentions it. The listener is within the
extent after the new thing was made, not before.
-/

/-- Forwarding a value settles the target at once, forwarding a cell listens to it. -/
theorem grounds_forward {target : CellId} {source : Source} {token : Option Token}
    (hc : (Call.forward target source token).Within w.extent) :
    (w.forward target source token).Grounds w := by
  obtain ⟨htarget, hsource, htoken⟩ := hc
  cases source with
  | value n => exact ⟨.refl _, h, Call.within_settle htarget htoken, Frame.within_nil⟩
  | cell c =>
    simp only [forward]
    split
    · exact ⟨.refl _, h, Call.within_settle htarget htoken, Frame.within_nil⟩
    · exact ⟨.refl _, h, ⟨hsource, htarget, htoken⟩, Frame.within_nil⟩

/-- A transformation makes its result and listens to its source. -/
theorem grounds_transform {source : CellId} {onSuccess : Stage} {onError : Option Stage}
    (hc : (Call.transform source onSuccess onError).Within w.extent) :
    (w.transform source onSuccess onError).Grounds w := by
  obtain ⟨hsource, hsuccess, herror⟩ := hc
  have le := le_addCell w default
  have made := lt_addCell w default
  refine ⟨le, (h.mono le).addCell (Cell.within_quiet rfl rfl), ?_, Frame.within_singleton made⟩
  exact ⟨le.cell hsource, made, hsuccess.mono le, fun s hs => (herror s hs).mono le⟩

theorem grounds_stage {s : Stage} {o : Outcome} (hs : s.Within w.extent) :
    (w.stage s o).Grounds w := by
  cases s with
  | pure f =>
    simp only [stage]
    split
    · next step hf => exact ⟨.refl _, h, hs o step hf, Frame.within_nil⟩
    · exact ⟨.refl _, h, trivial, Frame.within_nil⟩
  | scripted body returned scope =>
    have hscope := Scope.Within.receive (s := scope) hs o
    exact ⟨.refl _, h, hscope, Frame.within_singleton hscope⟩

theorem grounds_adopt {result : CellId} {step : Step}
    (hc : (Call.adopt result step).Within w.extent) : (w.adopt result step).Grounds w := by
  cases step with
  | value v => exact ⟨.refl _, h, hc.1, Frame.within_nil⟩
  | fail e => exact ⟨.refl _, h, hc.1, Frame.within_nil⟩
  | follow inner => exact ⟨.refl _, h, hc, Frame.within_singleton hc⟩

/-- A fan-in keeps its continuation until it is settled. -/
theorem grounds_await {cells : List CellId} {k : Continuation}
    (hc : (Call.await cells k).Within w.extent) : (w.await cells k).Grounds w := by
  obtain ⟨hcells, hk⟩ := hc
  unfold await
  split
  · exact ⟨.refl _, h, hk, Frame.within_nil⟩
  · split
    · exact ⟨.refl _, h, hk, Frame.within_nil⟩
    · exact ⟨.refl _, h.pushFanIn hk, fun c hc => hcells c (List.mem_reverse.mp hc), Frame.within_nil⟩

theorem grounds_watch {f : FanInId} {cells : List CellId} (hcells : CellsWithin w.extent cells) :
    (w.watch f cells).Grounds w := by
  cases cells with
  | nil => exact ⟨.refl _, h, trivial, Frame.within_nil⟩
  | cons c rest =>
    obtain ⟨hc, hrest⟩ := List.forall_mem_cons.mp hcells
    have awaiting : (w.setFanIn f (w.fanIn f).await).Within w.extent := h.setFanIn (h.fanIns f)
    simp only [watch]
    split
    · exact ⟨.refl _, h, hrest, Frame.within_nil⟩
    · split
      · exact ⟨.refl _, awaiting, trivial, Frame.within_nil⟩
      · exact ⟨.refl _, awaiting, ⟨hc, trivial⟩, Frame.within_singleton hrest⟩

/-- The continuation of a fan-in was within the extent when it was set up. -/
theorem grounds_signal {f : FanInId} {failure : Option Error} : (w.signal f failure).Grounds w := by
  have hf := h.fanIns f
  cases failure with
  | none =>
    by_cases last : (w.fanIn f).remaining = 1 ∧ (w.fanIn f).failed = false
    · simp only [signal, FanIn.succeed, if_pos last]
      cases hk : (w.fanIn f).continuation with
      | none => exact ⟨.refl _, h.setFanIn (by rintro _ ⟨⟩), trivial, Frame.within_nil⟩
      | some k => exact ⟨.refl _, h.setFanIn (by rintro _ ⟨⟩), hf k hk, Frame.within_nil⟩
    · simp only [signal, FanIn.succeed, if_neg last]
      exact ⟨.refl _, h.setFanIn hf, trivial, Frame.within_nil⟩
  | some e =>
    by_cases failed : (w.fanIn f).failed = true
    · simp only [signal, FanIn.fail, if_pos failed]
      exact ⟨.refl _, h.setFanIn hf, trivial, Frame.within_nil⟩
    · simp only [signal, FanIn.fail, if_neg failed]
      cases hk : (w.fanIn f).continuation with
      | none => exact ⟨.refl _, h.setFanIn (by rintro _ ⟨⟩), trivial, Frame.within_nil⟩
      | some k => exact ⟨.refl _, h.setFanIn (by rintro _ ⟨⟩), hf k hk, Frame.within_nil⟩

/-- A continuation runs in its scope, or it ends a request. -/
theorem grounds_conclude (tables : w.TablesSound) {k : Continuation} {failure : Option Error}
    (hk : k.Within w.extent) : (w.conclude k failure).Grounds w := by
  cases k with
  | user tag onSuccess onError scope =>
    cases failure with
    | none => exact ⟨.refl _, h, hk, Frame.within_nil⟩
    | some e => exact ⟨.refl _, h, ⟨hk.context, hk.claim⟩, Frame.within_nil⟩
  | yank k keys result =>
    cases failure with
    | some e => exact ⟨.refl _, h, hk.1, Frame.within_singleton hk⟩
    | none =>
      have same := extent_setContext w k (w.context k).frozen
      have hfrozen := h.withContext_frozen tables k
      simp only [conclude, succeedYank]
      split
      · exact .of_same same hfrozen trivial Frame.within_nil
      · exact .of_same same hfrozen hk.2 Frame.within_nil

/-! ### Jobs

A job may mention the context and the cell of a node. It is checked when it is handed in; when it is taken
up it is within the extent that the world has by then.
-/

/-- A job is kept by its queue, or it runs at once. -/
theorem grounds_dispatch {pool : Pool} {j : Job} (hj : j.Within w.extent) :
    (w.dispatch pool j).Grounds w := by
  have append {jobs : List (Submission Job)} (hjobs : JobsWithin w.extent jobs) :
      JobsWithin w.extent (jobs ++ [{ ambient := pool.ambient, job := j }]) :=
    List.forall_mem_append.mpr ⟨hjobs, List.forall_mem_singleton.mpr hj⟩
  simp only [dispatch]
  split
  · exact ⟨.refl _, h, hj, Frame.within_nil⟩
  · next e _ =>
    split
    · exact ⟨.refl _, h, hj, Frame.within_nil⟩
    · have hexecutors (e') : JobsWithin w.extent ((w.executors.modify e
          (· ++ [{ ambient := pool.ambient, job := j }])).get e') := by
        by_cases he : e = e'
        · subst he
          by_cases there : e < w.executors.size
          · rw [Arena.get_modify_self _ _ there]
            exact append (h.executors e)
          · rw [Arena.get_of_size_le _ (by simpa using there)]
            exact List.forall_mem_nil _
        · rw [Arena.get_modify_of_ne _ _ he]
          exact h.executors e'
      refine .of_same ?_ { h with executors := hexecutors } trivial Frame.within_nil
      simp [extent, ret]
  · refine ⟨.refl _, ?_, trivial, Frame.within_nil⟩
    unfold Worker.add
    split
    · exact { h with stack := List.forall_mem_cons.mpr ⟨hj, h.stack⟩ }
    · exact { h with injected := append h.injected }

/-- A node runs with a claim on its cell and a new token. -/
theorem grounds_job (sound : w.Sound) {j : Job} (hj : j.Within w.extent) :
    (w.job j).Grounds w := by
  cases j with
  | user tag body scope => exact ⟨.refl _, h, hj, Frame.within_nil⟩
  | node k target node =>
    have hmove := tryClaim_eq sound target
    simp only [job]
    split at hmove
    · rw [hmove]
      exact ⟨.refl _, h, trivial, Frame.within_nil⟩
    · rw [hmove]
      obtain ⟨le, hclaimed, hclaim⟩ := h.claimed hj.2
      refine ⟨le, hclaimed, ⟨?_, ?_⟩, Frame.within_singleton hclaim⟩
      · rintro _ ⟨⟩
        exact le.context hj.1
      · rintro _ ⟨⟩
        exact hclaim

/-- The next job of a queue was there when it was put in. -/
theorem grounds_drain {e : ExecutorId} {limit : Option Nat} {order : QueueOrder} {ran : Nat} :
    (w.drain e limit order ran).Grounds w := by
  unfold drain
  split
  · exact ⟨.refl _, h, trivial, Frame.within_nil⟩
  · exact ⟨.refl _, h, trivial, Frame.within_nil⟩
  · next s rest _ htake =>
    obtain ⟨hs, hrest⟩ := List.forall_mem_cons.mp fun s' hs' =>
      h.executors e s' ((perm_of_take? htake).mem_iff.mpr hs')
    refine .of_same ?_ (h.setExecutor hrest) hs (Frame.within_singleton trivial)
    simp [extent, call]

/-- A worker takes from all queues. -/
theorem grounds_work : w.work.Grounds w := by
  unfold work
  split
  · exact ⟨.refl _, h, trivial, Frame.within_nil⟩
  · next s worker hnext =>
    have waiting : JobsWithin w.extent (w.worker.stack ++ w.worker.injected) :=
      List.forall_mem_append.mpr ⟨h.stack, h.injected⟩
    obtain ⟨hs, hrest⟩ := List.forall_mem_cons.mp fun s' hs' =>
      waiting s' ((Worker.perm_of_next? hnext).mem_iff.mpr hs')
    obtain ⟨hstack, hinjected⟩ := List.forall_mem_append.mp hrest
    have hworker : ({ w with worker } : World).Within w.extent :=
      { h with
        injected := hinjected
        stack := hstack }
    exact ⟨.refl _, hworker, hs, Frame.within_singleton trivial⟩

/-! ### Contexts

A first fetch makes the cell that it registers, so the slot, the ledger and the job of the node mention a
cell that is there.
-/

/-- A key that gets a cell gets one that is there. -/
theorem Within.registering (tables : w.TablesSound) (k : ContextId) {index : KeyIndex}
    (empty : (w.context k).slots.lookup index.toUInt64 = none) :
    w.extent.Le (w.registering k index).extent ∧
      w.cells.size < (w.registering k index).extent.cells ∧
      (w.registering k index).Within (w.registering k index).extent := by
  have le := le_addCell w default
  have made := lt_addCell w default
  have hcontext := (h.contexts k).mono le
  rw [World.registering, extent_setContext]
  refine ⟨le, made, ((h.mono le).addCell (Cell.within_quiet rfl rfl)).setContext
    ⟨hcontext.inputs, ?_, ?_, hcontext.pool⟩⟩
  · intro j c hc
    rw [(tables.contexts k).lookup_registered empty] at hc
    split at hc
    · cases hc
      exact made
    · exact hcontext.slots j c hc
  · rw [(tables.contexts k).toList_registered]
    split
    · exact hcontext.ledger
    · rw [List.map_append]
      exact List.forall_mem_append.mpr ⟨hcontext.ledger, List.forall_mem_singleton.mpr made⟩

omit h in
/-- Starting a node dispatches a job that mentions the context and the cell. -/
theorem grounds_startCell {v : World} (hv : v.Within v.extent) {k : ContextId}
    (hk : k < v.extent.contexts) {c : CellId} (hc : c < v.extent.cells) {index : KeyIndex}
    {key : String} : (v.startCell k index key c).Grounds v := by
  unfold startCell
  split
  · next source hsource =>
    exact ⟨.refl _, hv, ⟨hc, (hv.contexts k).inputs _ _ hsource, nofun⟩, Frame.within_singleton hc⟩
  · dsimp only
    split
    · exact ⟨.refl _, hv, hc, Frame.within_singleton hc⟩
    · exact ⟨.refl _, hv, ⟨(hv.contexts k).pool, hk, hc⟩, Frame.within_singleton hc⟩

/-- A cell that is fetched is in its slot, or it is new. -/
theorem grounds_fetch (tables : w.TablesSound) {k : ContextId} {index : KeyIndex} {key : String}
    (hk : k < w.extent.contexts) : (w.fetch k index key).Grounds w := by
  cases hslot : (w.context k).slots.lookup index.toUInt64 with
  | some c =>
    rw [show w.fetch k index key = _ from fetch_of_filled hslot]
    exact ⟨.refl _, h, (h.contexts k).slots _ _ hslot, Frame.within_nil⟩
  | none =>
    obtain ⟨le, made, hregistered⟩ := h.registering tables k hslot
    cases hfrozen : (w.context k).isFrozen with
    | true =>
      rw [show w.fetch k index key = _ from fetch_of_frozen tables hslot hfrozen]
      exact ⟨le, hregistered, made, Frame.within_singleton made⟩
    | false =>
      rw [show w.fetch k index key = _ from fetch_of_unfrozen tables hslot hfrozen]
      have hstart : ((w.registering k index).startCell k index key w.cells.size).Grounds _ :=
        grounds_startCell hregistered (le.context hk) made
      exact ⟨le.trans hstart.le, hstart.world, hstart.control, hstart.frames⟩

/-- Cancelling revokes the cells of the ledger, one after the other. -/
theorem grounds_cancel (tables : w.TablesSound) {k : ContextId} {cause : Option Error} :
    (w.cancel k cause).Grounds w := by
  have same := extent_setContext w k (w.context k).frozen
  have hfrozen := h.withContext_frozen tables k
  simp only [cancel, (tables.contexts k).read?_frozen]
  exact .of_same same hfrozen (h.contexts k).ledger Frame.within_nil

theorem grounds_sweep {ledger : List (KeyIndex × CellId)} {cause : Option Error}
    (hl : CellsWithin w.extent (ledger.map Prod.snd)) : (w.sweep ledger cause).Grounds w := by
  cases ledger with
  | nil => exact ⟨.refl _, h, trivial, Frame.within_nil⟩
  | cons entry rest =>
    obtain ⟨hc, hrest⟩ := List.forall_mem_cons.mp hl
    simp only [sweep]
    split
    · exact ⟨.refl _, h, hrest, Frame.within_nil⟩
    · exact ⟨.refl _, h, hc, Frame.within_singleton hrest⟩

/-- A call mentions what there is. -/
theorem grounds_invoke (sound : w.Sound) (tables : w.TablesSound) {c : Call} (hc : c.Within w.extent) :
    (w.invoke c).Grounds w := by
  cases c with
  | script ops scope =>
    cases ops with
    | nil => exact ⟨.refl _, h, trivial, Frame.within_nil⟩
    | cons op rest => exact ⟨.refl _, h, hc, Frame.within_singleton hc⟩
  | op op scope => exact grounds_operate h hc sound tables op
  | complete c o a => exact grounds_complete h sound
  | deliver listeners revokee o => exact grounds_deliver h hc.1 hc.2
  | notify s o => exact ⟨.refl _, h, hc, Frame.within_singleton trivial⟩
  | tell l o => exact grounds_tell h hc
  | subscribe c l => exact grounds_subscribe h sound hc.2
  | report e =>
    show (w.report e).Grounds w
    unfold report
    split <;> exact ⟨.refl _, h, trivial, Frame.within_nil⟩
  | revoke c cause =>
    show (w.revoke c cause).Grounds w
    unfold revoke
    split
    · exact ⟨.refl _, h, trivial, Frame.within_nil⟩
    · exact ⟨.refl _, h, hc, Frame.within_nil⟩
  | link source dependent => exact grounds_link h sound hc.2
  | settle c o token =>
    cases token with
    | none => exact ⟨.refl _, h, hc, Frame.within_nil⟩
    | some t => exact ⟨.refl _, h, hc.1, Frame.within_singleton trivial⟩
  | forward target source token => exact grounds_forward h hc
  | transform source onSuccess onError => exact grounds_transform h hc
  | stage s o => exact grounds_stage h hc
  | adopt result step => exact grounds_adopt h hc
  | await cells k => exact grounds_await h hc
  | watch f cells => exact grounds_watch h hc
  | signal f failure => exact grounds_signal h
  | conclude k failure => exact grounds_conclude h tables hc
  | dispatch pool j => exact grounds_dispatch h hc.2
  | perform ambient j =>
    exact ⟨.refl _, h, hc, List.forall_mem_cons.mpr ⟨trivial, Frame.within_singleton trivial⟩⟩
  | performQueued e s => exact ⟨.refl _, h, hc, Frame.within_singleton trivial⟩
  | job j => exact grounds_job h sound hc
  | drain e limit order ran => exact grounds_drain h
  | work => exact grounds_work h
  | fetch k index key => exact grounds_fetch h tables hc
  | fetchKey k key =>
    show (w.fetchKey k key).Grounds w
    unfold fetchKey
    split
    · exact ⟨.refl _, h, trivial, Frame.within_nil⟩
    · exact ⟨.refl _, h, hc, Frame.within_nil⟩
  | gather k pending keys found =>
    cases pending with
    | cons key rest => exact ⟨.refl _, h, hc.1, Frame.within_singleton hc⟩
    | nil =>
      have le := le_addCell w default
      have made := lt_addCell w default
      refine ⟨le, (h.mono le).addCell (Cell.within_quiet rfl rfl), ?_, Frame.within_singleton made⟩
      exact ⟨hc.2.mono le, le.context hc.1, made⟩
  | cancel k cause => exact grounds_cancel h tables
  | sweep ledger cause => exact grounds_sweep h hc

/-! ### Frames

A frame is resumed in a later world than that in which it was left. What it mentions is still there, because
it was within the extent then.
-/

/-- A script goes on in its scope when its operation is answered. -/
theorem grounds_answer {how : Answering} {r : Result} (hr : (Control.ret r).Within w.extent) :
    (w.answer how r).Grounds w := by
  unfold answer
  split
  case h_6 as c => exact ⟨.refl _, h.nameCell as hr, trivial, Frame.within_nil⟩
  case h_7 as c => exact ⟨.refl _, h.nameCell as hr, trivial, Frame.within_nil⟩
  case h_8 as c =>
    refine ⟨.refl _, h.named ?_, trivial, Frame.within_nil⟩
    exact { h.names with views := OrderedMap.forall_get?_insert h.names.views hr }
  case h_9 c limit =>
    split
    · exact grounds_pass h c rfl
    · cases limit with
      | some after => exact grounds_reply h rfl
      | none => exact ⟨.refl _, h, hr, Frame.within_of_isOuter rfl⟩
  all_goals exact ⟨.refl _, h, trivial, Frame.within_nil⟩

/-- What a script returns is looked up among the names. -/
theorem return?_within {returned : Returned} {step : Step}
    (hstep : w.return? scope returned = .ok (.ok step)) : step.Within w.extent := by
  cases returned with
  | apply f =>
    cases hf : f (scope.value.getD 0) with
    | error p => simp [return?, hf, Except.map] at hstep
    | ok n =>
      simp only [return?, hf, Except.map, Except.ok.injEq] at hstep
      subst hstep
      trivial
  | fail e =>
    cases he : w.error? scope e with
    | error name => simp [return?, he, bind, Except.bind] at hstep
    | ok e =>
      obtain rfl : Step.fail e = step := by
        simpa [return?, he, bind, Except.bind, pure, Except.pure] using hstep
      trivial
  | source s =>
    cases hs : w.source? scope s with
    | error name => simp [return?, hs, bind, Except.bind] at hstep
    | ok source =>
      have hsource := source?_within h hs
      cases source with
      | value n =>
        obtain rfl : Step.value (.number n) = step := by
          simpa [return?, hs, bind, Except.bind, pure, Except.pure] using hstep
        trivial
      | cell c =>
        obtain rfl : Step.follow c = step := by
          simpa [return?, hs, bind, Except.bind, pure, Except.pure] using hstep
        exact hsource

/-- A request that fails completes its result. -/
theorem grounds_failYank {k : ContextId} {keys : List String} {result : CellId} {cause : Error}
    (hc : result < w.extent.cells) : (w.failYank k keys result cause).Grounds w := by
  unfold failYank
  split
  · exact ⟨.refl _, h, trivial, Frame.within_nil⟩
  · exact ⟨.refl _, h, hc, Frame.within_nil⟩

theorem grounds_ret {r : Result} (hr : (Control.ret r).Within w.extent) : (w.ret r).Grounds w :=
  ⟨.refl _, h, hr, Frame.within_nil⟩

theorem grounds_next {c : Call} (hc : c.Within w.extent) : (w.call c).Grounds w :=
  ⟨.refl _, h, hc, Frame.within_nil⟩

/-- A frame that takes a result mentions what there is. -/
theorem grounds_resume {frame : Frame} (hframe : frame.Within w.extent) {r : Result}
    (hr : (Control.ret r).Within w.extent) : (w.resume frame r).Grounds w := by
  cases frame with
  | script op rest scope =>
    show ((w.noteReply op r).call (.script rest scope)).Grounds w
    cases r <;> exact ⟨.refl _, h, hframe, Frame.within_nil⟩
  | answer how => exact grounds_answer h hr
  | completed | notifying | reporting | guarding => exact grounds_ret h trivial
  | settling => cases r with
    | verdict v => cases v with
      | error e => exact grounds_next h trivial
      | ok b => exact grounds_ret h trivial
    | _ => exact grounds_ret h trivial
  | accounting => cases r with
    | verdict v =>
      rcases v with _ | b
      · exact grounds_next h trivial
      · cases b with
        | true => exact grounds_ret h trivial
        | false => exact grounds_next h trivial
    | _ => exact grounds_next h trivial
  | returning returned scope =>
    simp only [resume]
    split
    · next step hstep => exact grounds_ret h (return?_within h hstep)
    · exact ⟨.refl _, h, trivial, Frame.within_nil⟩
    · exact ⟨.refl _, h, trivial, Frame.within_nil⟩
  | adopting => cases r with
    | step s => exact grounds_next h ⟨hframe, hr⟩
    | _ => exact grounds_ret h trivial
  | gathering k pending keys found => cases r with
    | cell c =>
      have hfound : CellsWithin w.extent (found ++ [c]) :=
        List.forall_mem_append.mpr ⟨hframe.2, List.forall_mem_singleton.mpr hr⟩
      exact grounds_next h ⟨hframe.1, hfound⟩
    | _ => exact grounds_ret h trivial
  | following result inner => exact grounds_next h ⟨hframe.1, hframe.2, by rintro _ ⟨⟩⟩
  | delivering | watching | sweeping => exact grounds_next h hframe
  | draining | working => exact grounds_next h trivial
  | restoring | leaving =>
    simp only [resume]
    exact ⟨.refl _, h, hr, Frame.within_nil⟩
  | made c => exact grounds_ret h hframe
  | enriching k keys result cause => exact grounds_failYank h hframe.2

/-- A frame that takes a panic mentions what there is. -/
theorem grounds_unwind {frame : Frame} (hframe : frame.Within w.extent) (p : Panic) :
    (w.unwind frame p).Grounds w := by
  cases frame with
  | notifying | reporting => exact ⟨.refl _, h, trivial, Frame.within_nil⟩
  | adopting result => exact ⟨.refl _, h, ⟨hframe, trivial⟩, Frame.within_nil⟩
  | guarding claim => exact ⟨.refl _, h, hframe.1, Frame.within_singleton trivial⟩
  | _ => exact ⟨.refl _, h, trivial, Frame.within_nil⟩

end Calls

/-- Where nothing has happened, nothing is mentioned. -/
theorem within_start (capacity : Nat) : (start capacity).Within b where
  names := by constructor <;> intro name a ha <;> cases ha
  cells c := by
    rw [Arena.get_of_size_le _ (Nat.zero_le c)]
    exact Cell.within_quiet rfl rfl
  fanIns f k hk := by
    rw [Arena.get_of_size_le _ (Nat.zero_le f)] at hk
    cases hk
  contexts k := by
    rw [Arena.get_of_size_le _ (Nat.zero_le k)]
    refine ⟨fun key source hs => ?_, fun index c hc => ?_, nofun, nofun⟩
    · cases hs
    · cases (SlotTable.lookup_blank index).symm.trans hc
  executors e := by
    rw [Arena.get_of_size_le _ (Nat.zero_le e)]
    exact nofun
  injected := nofun
  stack := nofun

end World

namespace Machine

variable {m : Machine}

/-- A machine is grounded after a move that grounds, if what waits below was grounded. -/
theorem Grounded.ofMove {w : World} {mv : Move} (h : mv.Grounds w) {stack : List Frame}
    (hstack : ∀ frame ∈ stack, frame.Within w.extent) : (ofMove mv stack).Grounded where
  world := h.world
  control := h.control
  stack := List.forall_mem_append.mpr ⟨h.frames, fun frame hf => (hstack frame hf).mono h.le⟩

/-- No step mentions what is not there, or loses anything that is. -/
theorem Grounded.advance (h : m.Grounded) (sound : m.world.Sound) (tables : m.world.TablesSound) :
    m.step.Grounded ∧ m.world.extent.Le m.step.world.extent := by
  obtain ⟨w, control, stack⟩ := m
  have of_move {mv : Move} (hmv : mv.Grounds w) {stack : List Frame}
      (hstack : ∀ frame ∈ stack, frame.Within w.extent) :
      (Machine.ofMove mv stack).Grounded ∧ w.extent.Le mv.world.extent := ⟨.ofMove hmv hstack, hmv.le⟩
  cases control with
  | call c => exact of_move (World.grounds_invoke h.world sound tables h.control) h.stack
  | ret r =>
    cases stack with
    | nil => exact ⟨h, .refl _⟩
    | cons frame stack =>
      obtain ⟨hframe, hstack⟩ := List.forall_mem_cons.mp h.stack
      exact of_move (World.grounds_resume h.world hframe h.control) hstack
  | raise p =>
    cases stack with
    | nil => exact ⟨h, .refl _⟩
    | cons frame stack =>
      obtain ⟨hframe, hstack⟩ := List.forall_mem_cons.mp h.stack
      exact of_move (World.grounds_unwind h.world hframe p) hstack

end Machine

namespace History

variable {capacity : Nat} {m x : Machine} {past : List Machine}

/-- **Nothing stands for nothing.** All that a machine of a history mentions is there. -/
theorem grounded (h : History capacity m past) : m.Grounded := by
  induction h with
  | start => exact ⟨World.within_start capacity, trivial, Frame.within_nil⟩
  | step before busy ih => exact (ih.advance before.sound before.tablesSound).1
  | enter before rest thread log outside ih =>
    refine ⟨ih.world, ?_, Frame.within_nil⟩
    cases outside with
    | operate op => exact ⟨nofun, nofun⟩
    | work => trivial

/-- What is there once stays there. -/
theorem extent_le (h : History capacity m past) (hx : x ∈ m :: past) :
    x.world.extent.Le m.world.extent :=
  h.persists (P := fun w => x.world.extent.Le w.extent) hx (.refl _)
    (fun before _ le => le.trans (before.grounded.advance before.sound before.tablesSound).2)
    fun _ _ le => le

end History

end RequestGraph
