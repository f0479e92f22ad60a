import RequestGraph.Proofs.Engine.Grounded
import RequestGraph.Proofs.Request.Cancelling
import RequestGraph.Proofs.Request.Memoizing

/-!
# Slots and ledger

The first fetch of an index puts a new cell into the slot, and offers it to the ledger. The two are separate:
a context that is closed turns the cell away, which stays in its slot for good and fails. As slots are filled
by first fetches only, and the ledger takes what they offer in their order, both are known from the first
fetches of a run:

    slots  :  all first fetches          ledger  =  the first fetches while the context was open
-/

namespace RequestGraph

/-- What the next step puts into a slot of a context: a new cell, if an index is fetched for the first time. -/
def Machine.installs (x : Machine) (k : ContextId) : List (KeyIndex × CellId) :=
  match x.control with
  | .call (.fetch j index _) =>
    if j = k ∧ (x.world.context k).slots.lookup index.toUInt64 = none then
      [(index, x.world.cells.size)]
    else []
  | _ => []

/-- What the next step enters into the ledger of a context: the same, as long as the context is open. -/
def Machine.enters (x : Machine) (k : ContextId) : List (KeyIndex × CellId) :=
  if (x.world.context k).isFrozen then [] else x.installs k

/-- How the slots and the ledger of a context agree, at the end of a run. -/
structure SlotsAgree (k : ContextId) (past : List Machine) (m : Machine) : Prop where
  /-- No index stands in the ledger twice. -/
  distinct : ((m.world.context k).ledger.toList.map Prod.fst).Nodup
  /-- An entry names the very cell that is installed in the slot of its index. -/
  installed : ∀ index c, (index, c) ∈ (m.world.context k).ledger.toList →
    (m.world.context k).slots.lookup index.toUInt64 = some c
  /-- A cell in a slot was made by the first fetch of its index, and stands in the ledger unless the context
  was closed by then. -/
  listed : ∀ index c, (m.world.context k).slots.lookup index.toUInt64 = some c →
    ∃ x ∈ past, ∃ key, x.FetchesFirst k index key ∧ x.world.cells.size = c ∧
      ((x.world.context k).isFrozen = false → (index, c) ∈ (m.world.context k).ledger.toList)
  /-- The cell of an index that was first fetched when the context was closed is installed for good and is
  not in the ledger. It has failed, unless the machine is about to fail it, right after the fetch. -/
  late : ∀ x ∈ past, ∀ index key, x.FetchesFirst k index key → (x.world.context k).isFrozen = true →
    (m.world.context k).slots.lookup index.toUInt64 = some x.world.cells.size ∧
      index ∉ (m.world.context k).ledger.toList.map Prod.fst ∧
      ((m.world.cell x.world.cells.size).peek = some (.error .contextFinished) ∨
        m = x.step ∧
          m.control = .call (.complete x.world.cells.size (.error .contextFinished) .unowned))
  /-- The order of the ledger is that of the first fetches. -/
  order : (m.world.context k).ledger.toList = past.reverse.flatMap (·.enters k)
  /-- Once the context is closed it stays closed, and the ledger does not change any more. -/
  stays : ∀ x ∈ past, (x.world.context k).isFrozen = true → (m.world.context k).isFrozen = true ∧
    (m.world.context k).ledger.toList = (x.world.context k).ledger.toList
  /-- A closed ledger can be read, and not closed again. -/
  closed : (m.world.context k).isFrozen = true →
    (m.world.context k).ledger.read? = some (m.world.context k).ledger.toList ∧
      (m.world.context k).freeze = .error .alreadyFrozen
  /-- To freeze the context answers with the ledger the first time, and with an error from then on. -/
  freezes : ∀ name scope, m.control = .call (.op (.context (.freeze name)) scope) →
    m.world.context? scope name = .ok k → m.step =
      if (m.world.context k).isFrozen then
        ⟨m.world, .ret (.reply (.frozenBefore .alreadyFrozen)), m.stack⟩
      else ⟨m.world.setContext k (m.world.context k).frozen,
        .ret (.reply (.ledger (m.world.reportLedger (m.world.context k).ledger.toList))), m.stack⟩
  /-- To cancel it goes through the ledger every time. -/
  cancels : ∀ cause, m.control = .call (.cancel k cause) → m.step =
    ⟨m.world.setContext k (m.world.context k).frozen,
      .call (.sweep (m.world.context k).ledger.toList cause), m.stack⟩
  /-- A request that succeeds closes the context, and its view is made from the ledger. -/
  succeeds : ∀ keys result, m.control = .call (.conclude (.yank k keys result) none) → m.step =
    ⟨m.world.setContext k (m.world.context k).frozen,
      .call (.complete result (.ok (.view ⟨k, .ofList (m.world.inputEntries (m.world.context k) ++
        m.world.ledgerEntries (m.world.context k).ledger.toList)⟩)) .unowned), m.stack⟩
  /-- So is that of a request that fails, which finds the context closed. -/
  views : (m.world.context k).isFrozen = true → m.world.snapshot? k =
    some ⟨k, .ofList (m.world.inputEntries (m.world.context k) ++
      m.world.ledgerEntries (m.world.context k).ledger.toList)⟩

namespace World

variable {w : World} {k : ContextId} {scope : Scope} {name : Option String}

theorem invoke_freeze (tables : w.TablesSound) (named : w.context? scope name = .ok k) :
    w.invoke (.op (.context (.freeze name)) scope) =
      if (w.context k).isFrozen then w.reply (.frozenBefore .alreadyFrozen)
      else (w.setContext k (w.context k).frozen).reply
        (.ledger (w.reportLedger (w.context k).ledger.toList)) := by
  have hk := tables.contexts k
  show (w.contextOp scope (.freeze name)).orUnknown w = _
  simp only [contextOp, named, bind, Except.bind]
  cases frozen : (w.context k).isFrozen with
  | true =>
    rw [Context.freeze_of_isFrozen frozen]
    rfl
  | false =>
    rw [hk.freeze_of_open frozen]
    simp only [hk.read?_frozen]
    rfl

theorem invoke_conclude_yank (tables : w.TablesSound) (there : k < w.contexts.size)
    (keys : List String) (result : CellId) :
    w.invoke (.conclude (.yank k keys result) none) =
      (w.setContext k (w.context k).frozen).call (.complete result (.ok (.view
        ⟨k, .ofList (w.inputEntries (w.context k) ++
          w.ledgerEntries (w.context k).ledger.toList)⟩)) .unowned) := by
  have hcontext := context_setContext_frozen there
  have frozen : ((w.setContext k (w.context k).frozen).context k).isFrozen = true := by
    rw [hcontext]
    exact (tables.contexts k).isFrozen_frozen
  have seen := snapshot?_of_isFrozen (tables.setContext_frozen k) frozen
  rw [hcontext, (tables.contexts k).toList_frozen] at seen
  have inputs : (w.setContext k (w.context k).frozen).inputEntries (w.context k).frozen =
      w.inputEntries (w.context k) := by
    simp only [inputEntries, Context.inputs_frozen]
    rfl
  show (w.setContext k (w.context k).frozen).succeedYank k result = _
  rw [succeedYank, seen, inputs]
  rfl

end World

namespace Machine

variable {m x : Machine} {k : ContextId} {index : KeyIndex} {key : String} {c : CellId}

/-! ## What one step installs

A step either leaves slots and ledger as they are, or it is a first fetch and adds a cell to both, or to the
slots only.
-/

theorem FetchesFirst.installs_eq (h : x.FetchesFirst k index key) :
    x.installs k = [(index, x.world.cells.size)] := by
  rw [installs, h.call]
  exact if_pos ⟨rfl, h.empty⟩

/-- What is installed is installed by a first fetch. -/
theorem mem_installs : (index, c) ∈ x.installs k ↔
    ∃ key, x.FetchesFirst k index key ∧ x.world.cells.size = c := by
  constructor
  · intro h
    unfold installs at h
    split at h
    · next j i key call =>
      split at h
      · next first =>
        obtain ⟨rfl, empty⟩ := first
        cases List.mem_singleton.mp h
        exact ⟨key, ⟨call, empty⟩, rfl⟩
      · cases h
    · cases h
  · rintro ⟨key, first, rfl⟩
    rw [first.installs_eq]
    exact List.mem_singleton_self _

theorem installs_of_not_first (h : ∀ index key, ¬x.FetchesFirst k index key) :
    x.installs k = [] := by
  apply List.eq_nil_iff_forall_not_mem.mpr
  rintro ⟨index, c⟩ hmem
  obtain ⟨key, first, -⟩ := mem_installs.mp hmem
  exact h index key first

theorem installs_of_atRest (rest : x.atRest = true) : x.installs k = [] := by
  apply installs_of_not_first
  intro index key first
  rw [atRest, first.call] at rest
  cases rest

theorem flatMap_enters_sublist (ms : List Machine) (k : ContextId) :
    (ms.flatMap (·.enters k)).Sublist (ms.flatMap (·.installs k)) := by
  induction ms with
  | nil => exact .slnil
  | cons x ms ih =>
    rw [List.flatMap_cons, List.flatMap_cons]
    refine List.Sublist.append ?_ ih
    unfold enters
    split
    · exact List.nil_sublist _
    · exact .refl _

/-- The slots and the ledger of a context stay as they are, or the context takes a new cell. -/
inductive InstallStep (m : Machine) (k : ContextId) : Prop
  | none (installs : m.installs k = [])
      (slots : ∀ i, (m.step.world.context k).slots.lookup i = (m.world.context k).slots.lookup i)
      (ledger : (m.step.world.context k).ledger.toList = (m.world.context k).ledger.toList)
  | one {index : KeyIndex} {key : String} (first : m.FetchesFirst k index key)
      (context : m.step.world.context k =
        (m.world.context k).registered index m.world.cells.size)

theorem installStep (sound : m.world.Sound) (tables : m.world.TablesSound) (grounded : m.Grounded)
    (k : ContextId) : m.InstallStep k := by
  by_cases first : ∃ index key, m.FetchesFirst k index key
  · obtain ⟨index, key, first⟩ := first
    have there : k < m.world.contexts.size := grounded.call first.call
    refine .one first ?_
    rw [step_call first.call]
    exact World.context_fetch tables there first.empty
  · have installs := installs_of_not_first fun index key h => first ⟨index, key, h⟩
    have hbecomes := step_context sound tables k
    suffices (∀ i, (m.step.world.context k).slots.lookup i = (m.world.context k).slots.lookup i) ∧
        (m.step.world.context k).ledger.toList = (m.world.context k).ledger.toList from
      .none installs this.1 this.2
    generalize m.step.world.context k = context at hbecomes ⊢
    cases hbecomes with
    | kept => exact ⟨fun _ => rfl, rfl⟩
    | opened fresh slots ledger =>
      rw [context_of_size_le (Nat.le_of_eq fresh.symm), slots, ledger]
      exact ⟨fun _ => rfl, rfl⟩
    | froze => exact ⟨fun i => by rw [Context.slots_frozen], (tables.contexts k).toList_frozen⟩
    | registered call empty => exact absurd ⟨_, _, call, empty⟩ first

end Machine

namespace History

variable {capacity : Nat} {m x : Machine} {past : List Machine} {k : ContextId} {index : KeyIndex}
  {key : String} {c : CellId}

/-! ## What a run installs

By induction on the history the slots hold what first fetches have installed, and the ledger is a part of
that, in the same order.
-/

/-- The slots hold what all first fetches have installed. -/
theorem lookup_iff (h : History capacity m past) (k : ContextId) (index : KeyIndex) (c : CellId) :
    (m.world.context k).slots.lookup index.toUInt64 = some c ↔
      (index, c) ∈ past.flatMap (·.installs k) := by
  induction h with
  | start clock => simp [World.lookup_start]
  | @step m past before _ ih =>
    rw [List.flatMap_cons, List.mem_append, ← ih]
    cases Machine.installStep before.sound before.tablesSound before.grounded k with
    | none installs slots _ => rw [slots, installs, or_iff_right List.not_mem_nil]
    | @one i key first context =>
      rw [context, (before.tablesSound.contexts k).lookup_registered first.empty,
        first.installs_eq, List.mem_singleton, Prod.mk.injEq]
      split
      · next heq =>
        obtain rfl : i = index := UInt32.toUInt64_inj.mp heq
        rw [first.empty, Option.some_inj]
        simp [eq_comm]
      · next hne =>
        refine (or_iff_right ?_).symm
        rintro ⟨rfl, -⟩
        exact hne rfl
  | @enter m past _ rest thread log _ _ ih =>
    rw [List.flatMap_cons, Machine.installs_of_atRest rest]
    exact ih

/-- The ledger lists what first fetches have entered, in their order. -/
theorem ledger_eq (h : History capacity m past) (k : ContextId) :
    (m.world.context k).ledger.toList = past.reverse.flatMap (·.enters k) := by
  induction h with
  | start => rfl
  | @step m past before _ ih =>
    rw [List.reverse_cons, List.flatMap_append, ← ih, List.flatMap_singleton, Machine.enters]
    cases Machine.installStep before.sound before.tablesSound before.grounded k with
    | none installs _ ledger => rw [ledger, installs, ite_self, List.append_nil]
    | one first context =>
      rw [context, (before.tablesSound.contexts k).toList_registered, first.installs_eq]
      split
      · rw [List.append_nil]
      · rfl
  | @enter m past _ rest thread log _ _ ih =>
    rw [List.reverse_cons, List.flatMap_append, List.flatMap_singleton, Machine.enters,
      Machine.installs_of_atRest rest, ite_self, List.append_nil]
    exact ih

/-- No index is fetched for the first time twice. -/
theorem nodup_installs (h : History capacity m past) (k : ContextId) :
    ((past.reverse.flatMap (·.installs k)).map Prod.fst).Nodup := by
  induction h with
  | start => exact List.nodup_nil
  | @step m past before _ ih =>
    rw [List.reverse_cons, List.flatMap_append, List.map_append, List.flatMap_singleton]
    cases Machine.installStep before.sound before.tablesSound before.grounded k with
    | none installs => rwa [installs, List.map_nil, List.append_nil]
    | @one index key first _ =>
      rw [first.installs_eq]
      refine ih.append (List.nodup_singleton _) ?_
      -- The slot of the index is empty, so nothing has been installed under it.
      rw [List.map_singleton, List.disjoint_singleton]
      intro hmem
      obtain ⟨⟨i, c⟩, hc, rfl⟩ := List.mem_map.mp hmem
      have hmem' : (i, c) ∈ past.flatMap (·.installs k) := by
        simpa only [List.mem_flatMap, List.mem_reverse] using hc
      have hslot := (before.lookup_iff k i c).mpr hmem'
      exact nomatch first.empty.symm.trans hslot
  | @enter m past _ rest thread log _ _ ih =>
    rwa [List.reverse_cons, List.flatMap_append, List.flatMap_singleton,
      Machine.installs_of_atRest rest, List.append_nil]

theorem nodup_ledger (h : History capacity m past) (k : ContextId) :
    ((m.world.context k).ledger.toList.map Prod.fst).Nodup := by
  rw [h.ledger_eq]
  exact ((Machine.flatMap_enters_sublist past.reverse k).map Prod.fst).nodup (h.nodup_installs k)

/-- A closed context stays closed, and its ledger as it is. -/
theorem ledger_stays (h : History capacity m past) (hx : x ∈ past)
    (frozen : (x.world.context k).isFrozen = true) : (m.world.context k).isFrozen = true ∧
      (m.world.context k).ledger.toList = (x.world.context k).ledger.toList := by
  refine h.kept (P := fun w => (w.context k).isFrozen = true ∧
    (w.context k).ledger.toList = (x.world.context k).ledger.toList) hx ⟨frozen, rfl⟩ ?_
    fun _ _ => id
  intro y sound tables hy
  obtain ⟨frozen, same⟩ := (Machine.step_context sound tables k).isFrozen (tables.contexts k) hy.1
  exact ⟨frozen, same.trans hy.2⟩

/-- A cell that was made when the context was closed fails in the step after the fetch. -/
theorem fails_of_late (h : History capacity m past) (hx : x ∈ past)
    (first : x.FetchesFirst k index key) (frozen : (x.world.context k).isFrozen = true) :
    (m.world.cell x.world.cells.size).peek = some (.error .contextFinished) ∨
      m = x.step ∧
        m.control = .call (.complete x.world.cells.size (.error .contextFinished) .unowned) := by
  obtain ⟨earlier, hearlier, -⟩ := h.of_mem hx
  have sound := hearlier.sound
  have tables := hearlier.tablesSound
  obtain ⟨hcells, hcontrol⟩ := Machine.fetch_spec sound tables key first.empty
  have call : x.step.control =
      .call (.complete x.world.cells.size (.error .contextFinished) .unowned) := by
    rw [Machine.step_call first.call]
    exact hcontrol frozen
  -- The new cell is failed by the very next call, and an outcome stays.
  rcases h.step_of_mem hx (Machine.busy_of_call first.call) with rfl | hy
  · exact .inr ⟨rfl, call⟩
  · left
    have cells : x.step.world.cells = x.world.cells.push default := by
      rw [Machine.step_call first.call]
      exact hcells
    have new : x.step.world.cell x.world.cells.size = default := by
      rw [World.cell, cells, Arena.get_push_size]
    have failed := Machine.peek_of_complete (Machine.step_sound sound) call
      (by rw [cells, Arena.size_push]; exact Nat.lt_succ_self _) (by rw [new]; rfl) (by rw [new]; rfl)
    rcases h.step_of_mem hy (Machine.busy_of_call call) with rfl | hz
    · exact failed
    · exact (h.later hz _).peek _ failed

/-! ## Reading the ledger

Whoever reads the ledger after it was closed reads the same. The cells that came too late are not in it, and
fail.
-/

/-- **Slots and ledger agree.** In every context and at all times the indices of the ledger are distinct, an
entry names the cell in its slot, and every cell in a slot stands in the ledger, in the order in which the
indices were first fetched, unless the context was closed by then: such a cell fails, and keeps its slot. From
the time when the context is closed its ledger does not change, and whoever reads it finds the same entries. -/
theorem slots_agree (h : History capacity m past) (k : ContextId) : SlotsAgree k past m := by
  have tables := h.tablesSound
  have hk := tables.contexts k
  exact {
    distinct := h.nodup_ledger k
    installed := fun index c hc => hk.agree (index, c) hc
    listed := fun index c hc => by
      obtain ⟨x, hx, hmem⟩ := List.mem_flatMap.mp ((h.lookup_iff k index c).mp hc)
      obtain ⟨key, first, hsize⟩ := Machine.mem_installs.mp hmem
      refine ⟨x, hx, key, first, hsize, fun unfrozen => ?_⟩
      rw [h.ledger_eq]
      refine List.mem_flatMap.mpr ⟨x, List.mem_reverse.mpr hx, ?_⟩
      rwa [Machine.enters, unfrozen]
    late := fun x hx index key first frozen => by
      refine ⟨?slot, ?apart, h.fails_of_late hx first frozen⟩
      case slot =>
        exact (h.lookup_iff k index _).mpr
          (List.mem_flatMap.mpr ⟨x, hx, Machine.mem_installs.mpr ⟨key, first, rfl⟩⟩)
      case apart =>
        -- The ledger is that of the time of the fetch, when the slot was empty.
        rw [(h.ledger_stays hx frozen).2]
        intro hmem
        obtain ⟨⟨i, c⟩, hc, rfl⟩ := List.mem_map.mp hmem
        obtain ⟨earlier, hearlier, -⟩ := h.of_mem hx
        have hslot := (hearlier.tablesSound.contexts k).agree (i, c) hc
        exact nomatch first.empty.symm.trans hslot
    order := h.ledger_eq k
    stays := fun x hx frozen => h.ledger_stays hx frozen
    closed := fun frozen => ⟨hk.read?_of_isFrozen frozen, Context.freeze_of_isFrozen frozen⟩
    freezes := fun name scope call named => by
      rw [Machine.step_call call, World.invoke_freeze tables named]
      split <;> rfl
    cancels := fun cause call => by
      rw [Machine.step_call call]
      show Machine.ofMove (m.world.invoke (.cancel k cause)) m.stack = _
      rw [World.invoke_cancel tables]
      rfl
    succeeds := fun keys result call => by
      have there : k < m.world.contexts.size := by
        have := h.grounded.control
        rw [call] at this
        exact this.1
      rw [Machine.step_call call, World.invoke_conclude_yank tables there]
      rfl
    views := fun frozen => World.snapshot?_of_isFrozen tables frozen }

end History

/-- A run in which a node closes its context while it runs, and another key is asked for after that. -/
theorem slots_agree_of_closing_node : ∃ m past, History 8 m past ∧
    (m.world.context 0).ledger.toList = [(0, 0)] ∧ (m.world.context 0).slots.lookup 1 = some 1 ∧
      SlotsAgree 0 past m := by
  let nodes : List (String × Script) := [("a", [.context (.freeze none)]), ("b", [])]
  have empty : History 8 _ _ := .start
  have provided := (empty.enter rfl {} [] (.operate (.context (.createProvider "p" nodes)))).step rfl
  have opened := (provided.enter rfl {} [] (.operate (.context (.create "k" [] "p" none)))).step rfl
  have asked := (opened.enter rfl {} []
    (.operate (.context (.fetch (some "k") "a" "early")))).steps 15 (by decide +kernel)
  have late := (asked.enter (by decide +kernel) {} []
    (.operate (.context (.fetch (some "k") "b" "late")))).steps 7 (by decide +kernel)
  exact ⟨_, _, late, by decide +kernel, by decide +kernel, late.slots_agree 0⟩

end RequestGraph
