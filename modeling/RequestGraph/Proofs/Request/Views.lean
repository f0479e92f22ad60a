import RequestGraph.Proofs.Engine.Stock
import RequestGraph.Proofs.OrderedMap
import RequestGraph.Proofs.Request.Registering

/-!
# What a view shows

A view is the ordered merge of the inputs of a request and of what its context has produced. First come the
inputs that are there, in their order; an input whose key has a cell that has succeeded shows the number of
the cell. Then come the other cells that have succeeded, in the order in which their keys were registered:

    entries  =  inputs that are there, overridden by the ledger  ++  the rest of what the ledger has
    get? key =  what the ledger has for the key, or else what the input gives
-/

namespace RequestGraph

namespace World

/-- The number that the input of a key gives, if there is one and it is there by now. -/
def given? (w : World) (k : ContextId) (key : String) : Option Int64 :=
  ((w.context k).inputs.get? key).bind w.sourceValue

/-- What a cell that a ledger lists under an index has come to: its key and its number, once it has succeeded. -/
def succeeded? (w : World) (index : KeyIndex) (c : CellId) : Option (String × Int64) :=
  match w.keys.registry[index.toNat]?, (w.cell c).peek with
  | some key, some (.ok v) => some (key, v.toNumber)
  | _, _ => none

/-- The number that the ledger has for a key: that of the cell of the key, once it has succeeded. -/
def produced? (w : World) (k : ContextId) (key : String) : Option Int64 :=
  (w.context k).ledger.toList.findSome? fun (index, c) =>
    (w.succeeded? index c).bind fun e => if e.1 = key then some e.2 else none

/-- The inputs that a view shows, in their order. -/
def shownInputs (w : World) (k : ContextId) : List (String × Int64) :=
  (w.context k).inputs.entries.filterMap fun (key, source) =>
    (w.sourceValue source).map fun n => (key, (w.produced? k key).getD n)

/-- The cells that a view shows besides, in the order in which the ledger lists them. -/
def shownCells (w : World) (k : ContextId) : List (String × Int64) :=
  (w.context k).ledger.toList.filterMap fun (index, c) =>
    (w.succeeded? index c).filter fun (key, _) => (w.given? k key).isNone

/-- How a view merges what its context was given and what it has produced. -/
structure Merges (w : World) (k : ContextId) (view : View) : Prop where
  context : view.context = k
  /-- The inputs that are there come first, and the cells that have succeeded without such an input follow. -/
  entries : view.entries.entries = w.shownInputs k ++ w.shownCells k
  /-- An input gives a number if it is one, or if it is a cell that has succeeded. -/
  given : ∀ key n, w.given? k key = some n ↔
    ∃ source, (key, source) ∈ (w.context k).inputs.entries ∧ (source = .value n ∨
      ∃ c v, source = .cell c ∧ (w.cell c).peek = some (.ok v) ∧ v.toNumber = n)
  /-- The ledger has a number for a key if it lists a cell under the index of the key that has succeeded. -/
  produced : ∀ key n, w.produced? k key = some n ↔
    ∃ index c v, (index, c) ∈ (w.context k).ledger.toList ∧
      w.keys.registry[index.toNat]? = some key ∧ (w.cell c).peek = some (.ok v) ∧ v.toNumber = n
  /-- No key occurs twice. -/
  distinct : view.entries.keys.Nodup
  /-- What the ledger has for a key counts, and otherwise what the input gives. -/
  get? : ∀ key, view.get? key = (w.produced? k key).or (w.given? k key)
  /-- Looking up a key agrees with the entries. -/
  lists : ∀ key n, view.get? key = some n ↔ (key, n) ∈ view.entries.entries
  contains : ∀ key, view.contains key = true ↔ key ∈ view.entries.keys
  size : view.size = (w.shownInputs k).length + (w.shownCells k).length
  isEmpty : view.isEmpty = true ↔ w.shownInputs k = [] ∧ w.shownCells k = []
  /-- A cell of the ledger that is pending or has failed contributes nothing, and hides no input. -/
  cellLeft : ∀ index c key, (index, c) ∈ (w.context k).ledger.toList →
    w.keys.registry[index.toNat]? = some key → (∀ v, (w.cell c).peek ≠ some (.ok v)) →
      view.get? key = w.given? k key
  /-- An input that is pending or has failed contributes nothing. -/
  inputLeft : ∀ c key, (key, .cell c) ∈ (w.context k).inputs.entries →
    (∀ v, (w.cell c).peek ≠ some (.ok v)) → view.get? key = w.produced? k key

end World

/-- The views of a context that are taken at a time. -/
structure Machine.Shows (k : ContextId) (m : Machine) : Prop where
  /-- A closed context has a view. -/
  closed : (m.world.context k).isFrozen = true →
    ∃ view, m.world.snapshot? k = some view ∧ m.world.Merges k view
  /-- A request that succeeds closes its context and answers with the view of that moment. -/
  succeeds : ∀ keys result, m.control = .call (.conclude (.yank k keys result) none) →
    ∃ view, m.step.world.Merges k view ∧
      m.step.control = .call (.complete result (.ok (.view view)) .unowned)
  /-- A request that fails answers with an error that carries the view of the moment at which its context
  has been cancelled. -/
  fails : ∀ keys result cause r stack, m.control = .ret r →
    m.stack = .enriching k keys result cause :: stack → (m.world.context k).isFrozen = true →
      ∃ view, m.step.world.Merges k view ∧
        m.step.control = .call (.complete result (.error (.yank cause keys view)) .unowned)

namespace World

variable {w : World} {k : ContextId} {key : String} {n : Int64}

/-! ## The two sides of a merge

What the inputs give and what the ledger has are two lists of pairs, and neither has a key twice. So a
look-up in one of them finds the only pair there is.
-/

/-- A value can be read if it is the outcome. -/
theorem value?_eq_some_iff {c : CellId} {v : Value} :
    (w.cell c).value? = some v ↔ (w.cell c).peek = some (.ok v) := by
  refine ⟨Cell.peek_of_value?, fun h => ?_⟩
  rw [Cell.value?, h]

theorem value?_of_not_ok {c : CellId} (h : ∀ v, (w.cell c).peek ≠ some (.ok v)) :
    (w.cell c).value? = none := by
  cases hvalue : (w.cell c).value? with
  | none => rfl
  | some v => exact absurd (value?_eq_some_iff.mp hvalue) (h v)

/-- An input gives its number, or that of its cell once it has succeeded. -/
theorem sourceValue_eq_some_iff {source : Source} : w.sourceValue source = some n ↔
    source = .value n ∨ ∃ c v, source = .cell c ∧ (w.cell c).peek = some (.ok v) ∧ v.toNumber = n := by
  cases source with
  | value m => simp [sourceValue]
  | cell c => simp [sourceValue, value?_eq_some_iff]

/-- Every key of the inputs comes up once. -/
theorem nodup_inputEntries (distinct : (w.context k).inputs.keys.Nodup) :
    ((w.inputEntries (w.context k)).map Prod.fst).Nodup :=
  distinct.sublist (OrderedMap.keys_filterMap_sublist w.sourceValue _)

/-- The pairs that a view takes from the inputs have what the inputs give. -/
theorem find_inputEntries (distinct : (w.context k).inputs.keys.Nodup) :
    OrderedMap.find key (w.inputEntries (w.context k)) = w.given? k key :=
  OrderedMap.find_filterMap w.sourceValue distinct

/-- What the inputs give for a key comes from its one input. -/
theorem given?_eq_some_iff (distinct : (w.context k).inputs.keys.Nodup) :
    w.given? k key = some n ↔
      ∃ source, (key, source) ∈ (w.context k).inputs.entries ∧ w.sourceValue source = some n := by
  rw [given?, Option.bind_eq_some_iff]
  simp only [OrderedMap.get?, OrderedMap.find_eq_some_iff distinct]

/-- The pairs that a view takes from a ledger are those of its cells that have succeeded, in its order. -/
theorem ledgerEntries_eq (sound : w.keys.Sound) (ledger : List (KeyIndex × CellId)) :
    w.ledgerEntries ledger = ledger.filterMap fun e => w.succeeded? e.1 e.2 := by
  refine List.filterMap_congr fun e _ => ?_
  dsimp only
  rw [succeeded?, sound.key?_eq, Cell.value?]
  cases w.keys.registry[e.1.toNat]? with
  | none => cases (w.cell e.2).peek with
    | none => rfl
    | some o => cases o <;> rfl
  | some key => cases (w.cell e.2).peek with
    | none => rfl
    | some o => cases o <;> rfl

/-- The pairs of a ledger belong to cells that it lists and that have succeeded. -/
theorem mem_ledgerEntries (sound : w.keys.Sound) {ledger : List (KeyIndex × CellId)} :
    (key, n) ∈ w.ledgerEntries ledger ↔ ∃ index c v, (index, c) ∈ ledger ∧
      w.keys.registry[index.toNat]? = some key ∧ (w.cell c).value? = some v ∧ v.toNumber = n := by
  rw [ledgerEntries, List.mem_filterMap]
  constructor
  · rintro ⟨⟨index, c⟩, hmem, heq⟩
    dsimp only at heq
    split at heq
    · next v key' hvalue hkey =>
      cases heq
      exact ⟨index, c, v, hmem, by rw [← sound.key?_eq, hkey], hvalue, rfl⟩
    · cases heq
  · rintro ⟨index, c, v, hmem, hkey, hvalue, rfl⟩
    refine ⟨(index, c), hmem, ?_⟩
    simp only [hvalue, sound.key?_eq, hkey]

/-- No two entries of a ledger have the same key, because the interner gave every index to one key. -/
theorem nodup_ledgerEntries (sound : w.keys.Sound) {ledger : List (KeyIndex × CellId)}
    (distinct : (ledger.map Prod.fst).Nodup) : ((w.ledgerEntries ledger).map Prod.fst).Nodup := by
  have entryKey {e : KeyIndex × CellId} {key : String} {n : Int64}
      (h : (key, n) ∈ w.ledgerEntries [e]) : w.keys.registry[e.1.toNat]? = some key := by
    obtain ⟨index, c, v, hmem, hkey, -⟩ := (mem_ledgerEntries sound).mp h
    rwa [← List.mem_singleton.mp hmem]
  induction ledger with
  | nil => exact List.nodup_nil
  | cons e rest ih =>
    rw [List.map_cons, List.nodup_cons] at distinct
    have hsplit : w.ledgerEntries (e :: rest) = w.ledgerEntries [e] ++ w.ledgerEntries rest := by
      rw [← List.singleton_append]
      exact List.filterMap_append
    rw [hsplit, List.map_append]
    refine List.Nodup.append ?_ (ih distinct.2) ?_
    · rw [ledgerEntries, List.filterMap_cons]
      split
      · exact List.nodup_nil
      · exact List.nodup_singleton _
    · rintro key hkey hkey'
      obtain ⟨⟨_, n⟩, hn, rfl⟩ := List.mem_map.mp hkey
      obtain ⟨⟨_, n'⟩, hn', rfl⟩ := List.mem_map.mp hkey'
      obtain ⟨index, c, v, hmem, hindex, -⟩ := (mem_ledgerEntries sound).mp hn'
      obtain rfl : index = e.1 := sound.index_inj hindex (entryKey hn)
      exact distinct.1 (List.mem_map.mpr ⟨_, hmem, rfl⟩)

/-! ## The merge

The pairs of the ledger are put into the map of the inputs. Those with a key that is there replace the
number in its place, and the others come after.
-/

/-- What is shown of the inputs: what the ledger has for the same key counts. -/
theorem map_inputEntries (w : World) (k : ContextId) :
    (w.inputEntries (w.context k)).map (fun e => (e.1, (w.produced? k e.1).getD e.2)) =
      w.shownInputs k := by
  rw [inputEntries, List.map_filterMap, shownInputs]
  refine List.filterMap_congr fun e _ => ?_
  rw [Option.map_map]
  rfl

/-- What is shown of the ledger besides: the cells of keys without an input that is there. -/
theorem filter_ledgerEntries (sound : w.keys.Sound) (inputs : (w.context k).inputs.keys.Nodup) :
    (w.ledgerEntries (w.context k).ledger.toList).filter
      (fun e => e.1 ∉ (w.inputEntries (w.context k)).map Prod.fst) = w.shownCells k := by
  rw [ledgerEntries_eq sound, List.filter_filterMap, shownCells]
  refine List.filterMap_congr fun e _ => ?_
  show Option.filter _ (w.succeeded? e.1 e.2) = Option.filter _ (w.succeeded? e.1 e.2)
  congr 1
  funext e
  show _ = (w.given? k e.1).isNone
  rw [← find_inputEntries inputs, Bool.eq_iff_iff, decide_eq_true_iff,
    ← OrderedMap.find_eq_none_iff, Option.isNone_iff_eq_none]

/-- What the ledger has for a key is found among the pairs that a view takes from it. -/
theorem produced?_eq_find (sound : w.keys.Sound) (k : ContextId) (key : String) :
    w.produced? k key = OrderedMap.find key (w.ledgerEntries (w.context k).ledger.toList) := by
  rw [ledgerEntries_eq sound, OrderedMap.find_filterMap_eq_findSome?]
  rfl

/-- As the ledger lists a key once, what it has for the key comes from that cell. -/
theorem produced?_eq_some_iff (sound : w.keys.Sound)
    (ledger : ((w.context k).ledger.toList.map Prod.fst).Nodup) :
    w.produced? k key = some n ↔ ∃ index c v, (index, c) ∈ (w.context k).ledger.toList ∧
      w.keys.registry[index.toNat]? = some key ∧ (w.cell c).value? = some v ∧ v.toNumber = n := by
  rw [produced?_eq_find sound, OrderedMap.find_eq_some_iff (nodup_ledgerEntries sound ledger), mem_ledgerEntries sound]

/-- A cell of the ledger that has not succeeded is the only one that the ledger has for its key. -/
theorem produced?_eq_none (sound : w.keys.Sound)
    (ledger : ((w.context k).ledger.toList.map Prod.fst).Nodup) {index : KeyIndex} {c : CellId}
    (listed : (index, c) ∈ (w.context k).ledger.toList)
    (hkey : w.keys.registry[index.toNat]? = some key) (left : ∀ v, (w.cell c).peek ≠ some (.ok v)) :
    w.produced? k key = none := by
  apply Option.eq_none_iff_forall_ne_some.mpr
  intro n hn
  obtain ⟨index', c', v, listed', hkey', hvalue, -⟩ := (produced?_eq_some_iff sound ledger).mp hn
  obtain rfl : index' = index := sound.index_inj hkey' hkey
  have hsame := List.inj_on_of_nodup_map ledger listed listed' rfl
  cases hsame
  exact left v (value?_eq_some_iff.mp hvalue)

/-- An input that is not there gives nothing. -/
theorem given?_eq_none (distinct : (w.context k).inputs.keys.Nodup) {c : CellId}
    (listed : (key, .cell c) ∈ (w.context k).inputs.entries) (left : ∀ v, (w.cell c).peek ≠ some (.ok v)) :
    w.given? k key = none := by
  apply Option.eq_none_iff_forall_ne_some.mpr
  intro n hn
  obtain ⟨source, listed', hsource⟩ := (given?_eq_some_iff distinct).mp hn
  have hsame := List.inj_on_of_nodup_map distinct listed listed' rfl
  cases hsame
  rw [sourceValue, value?_of_not_ok left] at hsource
  cases hsource

/-- The snapshot of a closed context merges its inputs and its ledger. -/
theorem merges_of_isFrozen (tables : w.TablesSound) (frozen : (w.context k).isFrozen = true)
    (inputs : (w.context k).inputs.keys.Nodup)
    (ledger : ((w.context k).ledger.toList.map Prod.fst).Nodup) :
    ∃ view, w.snapshot? k = some view ∧ w.Merges k view := by
  have hinputs := nodup_inputEntries inputs
  have hledger := nodup_ledgerEntries tables.keys ledger
  have distinct := OrderedMap.nodup_keys_ofList (w.inputEntries (w.context k) ++
    w.ledgerEntries (w.context k).ledger.toList)
  -- Inserting the pairs of the ledger after those of the inputs replaces in place and appends the rest.
  have entries : (OrderedMap.ofList (w.inputEntries (w.context k) ++
      w.ledgerEntries (w.context k).ledger.toList)).entries = w.shownInputs k ++ w.shownCells k := by
    rw [OrderedMap.entries_ofList_append hinputs hledger, filter_ledgerEntries tables.keys inputs,
      ← map_inputEntries]
    simp only [produced?_eq_find tables.keys]
  have get? (key : String) : (OrderedMap.ofList (w.inputEntries (w.context k) ++
      w.ledgerEntries (w.context k).ledger.toList)).get? key =
        (w.produced? k key).or (w.given? k key) := by
    rw [OrderedMap.get?_ofList_append_of_nodup hinputs hledger, find_inputEntries inputs,
      produced?_eq_find tables.keys]
  have length := congrArg List.length entries
  refine ⟨_, snapshot?_of_isFrozen tables frozen, {
    context := rfl
    entries := entries
    given := fun key n => by simp only [given?_eq_some_iff inputs, sourceValue_eq_some_iff]
    produced := fun key n => by simp only [produced?_eq_some_iff tables.keys ledger, value?_eq_some_iff]
    distinct := distinct
    get? := get?
    lists := fun key n => OrderedMap.find_eq_some_iff distinct
    contains := fun key => by
      rw [View.contains, Option.isSome_iff_ne_none, Ne, View.get?, OrderedMap.get?,
        OrderedMap.find_eq_none_iff, not_not]
      rfl
    size := length.trans List.length_append
    isEmpty := by
      rw [View.isEmpty, OrderedMap.isEmpty, entries, List.isEmpty_iff, List.append_eq_nil_iff]
    cellLeft := fun index c key hmem hkey left => by
      rw [View.get?, get?, produced?_eq_none tables.keys ledger hmem hkey left, Option.none_or]
    inputLeft := fun c key hmem left => by
      rw [View.get?, get?, given?_eq_none inputs hmem left, Option.or_none] }⟩

end World

/-! ## The views of a run

A view is taken when somebody asks for it, when a request succeeds, and when its error is enriched. It
always is the snapshot of the context at that moment.
-/

namespace History

variable {capacity : ℕ} {m : Machine} {past : List Machine}

/-- The inputs of a context have distinct keys. -/
theorem distinct_inputs (h : History capacity m past) (k : ContextId) :
    (m.world.context k).inputs.keys.Nodup := by
  induction h generalizing k with
  | start => exact List.nodup_nil
  | @step m past before busy ih =>
    rcases m.fixtures_step with same | ⟨op, scope, call, furnishes⟩
    · have inputs := congrFun (congrArg Fixtures.inputs same) k
      show (m.step.world.fixtures.inputs k).keys.Nodup
      rw [inputs]
      exact ih k
    · have stocked := World.stocked_operate m.world scope (Op.stocks_of_furnishes furnishes)
      rw [Machine.step_call call]
      show ((m.world.operate scope op).world.context k).inputs.keys.Nodup
      generalize m.world.operate scope op = mv at stocked
      cases stocked with
      | @pooled as kind => cases kind <;> exact ih k
      | @opened as provider inputs pool sources =>
        show ((m.world.contexts.push _).get k).inputs.keys.Nodup
        rw [Arena.get_push]
        split
        · exact OrderedMap.nodup_keys_ofList sources
        · exact ih k
      | _ => exact ih k
  | enter _ _ _ _ _ ih => exact ih k

/-- A closed context has a view, which merges its inputs and its ledger. -/
theorem merges (h : History capacity m past) {k : ContextId}
    (frozen : (m.world.context k).isFrozen = true) :
    ∃ view, m.world.snapshot? k = some view ∧ m.world.Merges k view :=
  World.merges_of_isFrozen h.tablesSound frozen (h.distinct_inputs k) (h.nodup_ledger k)

/-- A request that succeeds answers with the view of its context, closed at that moment. -/
theorem merges_of_conclude (h : History capacity m past) {k : ContextId} {keys : List String}
    {result : CellId} (call : m.control = .call (.conclude (.yank k keys result) none)) :
    ∃ view, m.step.world.Merges k view ∧
      m.step.control = .call (.complete result (.ok (.view view)) .unowned) := by
  have there : k < m.world.contexts.size := (h.grounded.call call).1
  have after := h.step (Machine.busy_of_call call)
  have hstep := Machine.step_call call
  have hworld : m.step.world = m.world.setContext k (m.world.context k).frozen := by
    rw [hstep, World.invoke_conclude_yank h.tablesSound there]
    rfl
  obtain ⟨view, seen, merges⟩ := after.merges (k := k) (by
    rw [hworld, World.context_setContext_frozen there]
    exact (h.tablesSound.contexts k).isFrozen_frozen)
  refine ⟨view, merges, ?_⟩
  rw [hworld] at seen
  rw [hstep]
  show ((m.world.setContext k _).succeedYank k result).control = _
  rw [World.succeedYank, seen]
  rfl

/-- A request that fails answers with an error that carries the view of its context. -/
theorem merges_of_enriching (h : History capacity m past) {k : ContextId} {keys : List String}
    {result : CellId} {cause : Error} {r : Result} {stack : List Frame} (control : m.control = .ret r)
    (below : m.stack = .enriching k keys result cause :: stack)
    (frozen : (m.world.context k).isFrozen = true) :
    ∃ view, m.step.world.Merges k view ∧
      m.step.control = .call (.complete result (.error (.yank cause keys view)) .unowned) := by
  obtain ⟨view, seen, merges⟩ := h.merges frozen
  obtain ⟨w, _, _⟩ := m
  subst control below
  have hmove : w.failYank k keys result cause =
      w.call (.complete result (.error (.yank cause keys view)) .unowned) := by
    rw [World.failYank, seen]
  have hstep : (⟨w, .ret r, .enriching k keys result cause :: stack⟩ : Machine).step =
      .ofMove (w.failYank k keys result cause) stack := rfl
  rw [hstep, hmove]
  exact ⟨view, merges, rfl⟩

/-- **Views merge inputs and ledger.** At any time the view of a closed context has the inputs that are there
by now, in their order, each with the number of the cell of its key if that has succeeded, and then the other
cells of the ledger that have succeeded, in the order in which they were registered. No key occurs twice, and
what is pending or has failed contributes nothing and hides nothing. The views that requests answer with are
taken in this way. -/
theorem shows (h : History capacity m past) (k : ContextId) : m.Shows k where
  closed frozen := h.merges frozen
  succeeds _ _ call := h.merges_of_conclude call
  fails _ _ _ _ _ control below frozen := h.merges_of_enriching control below frozen

end History

/-- A run in which a cell is completed by hand before the input of its key is there, and a node is missing. -/
theorem shows_of_late_input : ∃ m past, History 8 m past ∧ (m.world.context 0).isFrozen = true ∧
    (m.world.snapshot? 0).map (·.entries.entries) = some [("a", 1), ("b", 7), ("d", 5)] ∧
      m.Shows 0 := by
  let body : Script :=
    [.context (.fetch none "b" "x"), .context (.fetch none "e" "e"),
      .cell (.complete "x" (.ok (.constant 7))), .cell (.complete "b" (.ok (.constant 2))),
      .context (.freeze none), .claim (.complete none (.ok (.constant 5)))]
  let inputs : List (String × SourceExpr) := [("a", .value (.constant 1)), ("b", .cell "b")]
  have empty : History 8 _ _ := .start
  have provided := (empty.enter rfl {} []
    (.operate (.context (.createProvider "p" [("d", body)])))).step rfl
  have made := (provided.enter rfl {} [] (.operate (.cell (.create "b")))).step rfl
  have opened := (made.enter rfl {} [] (.operate (.context (.create "k" inputs "p" none)))).step rfl
  have asked := (opened.enter rfl {} []
    (.operate (.context (.fetch (some "k") "d" "d")))).steps 58 (by decide +kernel)
  exact ⟨_, _, asked, by decide +kernel, by decide +kernel, asked.shows 0⟩

end RequestGraph
