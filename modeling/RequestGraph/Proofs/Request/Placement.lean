import RequestGraph.Proofs.Engine.Contexts

/-!
# Where the cells of a context are

A cell in a slot of a context stands in its ledger, or came too late for it and fails. So a cell that has
succeeded stands in the ledger, and a view that is taken after that has its value under its key:

    (cell of k).value? = some v   →   view.get? k = some v
-/

namespace RequestGraph

namespace Machine

/-- A cell came too late for the ledger of its context: it is going to fail next, or has failed. -/
inductive Late (m : Machine) (c : CellId) : Prop
  | failing (call : m.control = .call (.complete c (.error .contextFinished) .unowned))
      (there : c < m.world.cells.size) (pending : (m.world.cell c).isRealized = false)
      (unowned : (m.world.cell c).owner = none) : Late m c
  | failed (failed : (m.world.cell c).peek = some (.error .contextFinished)) : Late m c

/-- The cells in the slots of contexts are there, and stand in the ledger or came too late for it. -/
structure Placed (m : Machine) : Prop where
  there : ∀ k (index : KeyIndex) c,
    (m.world.context k).slots.lookup index.toUInt64 = some c → c < m.world.cells.size
  place : ∀ k (index : KeyIndex) c, (m.world.context k).slots.lookup index.toUInt64 = some c →
    (index, c) ∈ (m.world.context k).ledger.toList ∨ m.Late c

variable {m : Machine}

theorem Late.step {c : CellId} (h : m.Late c) (sound : m.world.Sound) : m.step.Late c := by
  cases h with
  | failed failed => exact .failed ((step_cell sound c).peek failed)
  | failing call there pending unowned =>
      exact .failed (peek_of_complete sound call there pending unowned)

/-- What the first fetch of an index does. -/
theorem fetch_spec {w : World} (h : w.Sound) (ht : w.TablesSound) {k : ContextId}
    {index : KeyIndex} (key : String)
    (empty : (w.context k).slots.lookup index.toUInt64 = none) :
    (w.invoke (.fetch k index key)).world.cells = w.cells.push default ∧
      ((w.context k).isFrozen = true → (w.invoke (.fetch k index key)).control =
        .call (.complete w.cells.size (.error .contextFinished) .unowned)) := by
  have won := ((ht.contexts k).won_iff index w.cells.size).mpr empty
  have hpush := ((ht.contexts k).ledger.push_eq (SlotTable.filled_le _) (index, w.cells.size)).2.2.1
  have hspec := World.invoke_spec h (.fetch k index key)
  generalize w.invoke (.fetch k index key) = mv at hspec
  cases hspec with
  | returned may => cases may
  | fetched install found =>
      subst install
      exact nomatch found.symm.trans won
  | fetchedNew install new accepted starts core =>
      refine ⟨congrArg Core.cells core, fun frozen => ?_⟩
      have frozen' : (w.context k).ledger.frozen = true := frozen
      rw [accepted, if_pos frozen'] at hpush
      cases hpush
  | fetchedLate => exact ⟨rfl, fun _ => rfl⟩

theorem Placed.step (h : m.Placed) (sound : m.world.Sound)
    (tables : m.world.TablesSound) : m.step.Placed := by
  have kept {k : ContextId} {index : KeyIndex} {c : CellId}
      (hc : (m.world.context k).slots.lookup index.toUInt64 = some c) :
      c < m.step.world.cells.size ∧
        ((index, c) ∈ (m.world.context k).ledger.toList ∨ m.step.Late c) :=
    ⟨Nat.lt_of_lt_of_le (h.there k index c hc) (size_step sound),
      (h.place k index c hc).imp_right fun late => late.step sound⟩
  suffices ∀ k (index : KeyIndex) c,
      (m.step.world.context k).slots.lookup index.toUInt64 = some c →
        c < m.step.world.cells.size ∧
          ((index, c) ∈ (m.step.world.context k).ledger.toList ∨ m.step.Late c) from
    ⟨fun k index c hc => (this k index c hc).1, fun k index c hc => (this k index c hc).2⟩
  intro k index c hc
  have hk := tables.contexts k
  have hbecomes := step_context sound tables k
  generalize m.step.world.context k = context at hbecomes hc ⊢
  cases hbecomes with
  | kept => exact kept hc
  | opened _ slots =>
      rw [slots, SlotTable.lookup_blank] at hc
      cases hc
  | froze =>
      rw [Context.slots_frozen] at hc
      rw [hk.toList_frozen]
      exact kept hc
  | @registered index' key call empty =>
      rw [hk.lookup_registered empty] at hc
      rw [hk.toList_registered]
      split at hc
      · next heq =>
          -- This is the new cell: the ledger takes it, or else it fails next.
          cases hc
          obtain rfl : index' = index := UInt32.toUInt64_inj.mp heq
          obtain ⟨w, control, stack⟩ := m
          obtain rfl : control = _ := call
          obtain ⟨hcells, hfrozen⟩ := fetch_spec sound tables key empty
          have hsize : (w.invoke (.fetch k index' key)).world.cells.size = w.cells.size + 1 := by
            rw [hcells, Arena.size_push]
          have hcell : (w.invoke (.fetch k index' key)).world.cell w.cells.size = default := by
            rw [World.cell, hcells, Arena.get_push_size]
          have hlt : w.cells.size < (w.invoke (.fetch k index' key)).world.cells.size := by
            rw [hsize]
            exact Nat.lt_succ_self _
          refine ⟨hlt, ?_⟩
          cases frozen : (w.context k).isFrozen with
          | false => exact .inl (List.mem_append_right _ (List.mem_singleton.mpr rfl))
          | true =>
              refine .inr (.failing (hfrozen frozen) hlt ?_ ?_)
              · show ((w.invoke _).world.cell _).isRealized = _
                rw [hcell]
                rfl
              · show ((w.invoke _).world.cell _).owner = _
                rw [hcell]
                rfl
      · refine ⟨(kept hc).1, (kept hc).2.imp_left fun hmem => ?_⟩
        split
        · exact hmem
        · exact List.mem_append_left _ hmem

end Machine

namespace History

variable {capacity : Nat} {m : Machine} {past : List Machine}

theorem placed (h : History capacity m past) : m.Placed := by
  induction h with
  | start clock =>
      constructor <;>
      · intro k index c hc
        rw [World.lookup_start] at hc
        cases hc
  | step before _ ih => exact ih.step before.sound before.tablesSound
  | @enter m past before rest thread log c outside ih =>
      refine ⟨ih.there, fun k index d hd => (ih.place k index d hd).imp_right ?_⟩
      intro late
      cases late with
      | failing call => cases rest.symm.trans (Machine.busy_of_call call)
      | failed failed => exact .failed failed

end History

/-! ## Views

A view is read from a context that is closed, so that its ledger is complete. Every cell that has succeeded
is in it under its own key.
-/

namespace OrderedMap

variable {K V : Type} [DecidableEq K] {k : K} {v : V}

/-- Putting pairs into a map that agree on a key. -/
theorem get?_foldl_insert {es : List (K × V)} (m : OrderedMap K V)
    (agree : ∀ v', (k, v') ∈ es → v' = v) :
    (es.foldl (fun m e => m.insert e.1 e.2) m).get? k =
      if k ∈ es.map Prod.fst then some v else m.get? k := by
  induction es generalizing m with
  | nil => rfl
  | cons e es ih =>
      rw [List.foldl_cons, ih _ fun v' hv' => agree v' (List.mem_cons_of_mem _ hv'), get?_insert]
      by_cases hk : e.1 = k
      · obtain rfl : e.2 = v := agree e.2 (hk ▸ List.mem_cons_self)
        rw [if_pos hk, ite_self, if_pos]
        rw [← hk]
        exact List.mem_cons_self
      · rw [if_neg hk]
        have : k ∈ (e :: es).map Prod.fst ↔ k ∈ es.map Prod.fst := by
          rw [List.map_cons, List.mem_cons]
          exact or_iff_right fun h => hk h.symm
        simp only [this]

/-- The last pairs decide. -/
theorem get?_ofList_append {xs ys : List (K × V)} (there : (k, v) ∈ ys)
    (agree : ∀ v', (k, v') ∈ ys → v' = v) : (ofList (xs ++ ys)).get? k = some v := by
  rw [ofList, List.foldl_append, get?_foldl_insert _ agree, if_pos]
  exact List.mem_map_of_mem (f := Prod.fst) there

end OrderedMap

namespace World

variable {w : World} {k : ContextId}

/-- A closed context has a view. -/
theorem snapshot?_of_isFrozen (ht : w.TablesSound) (frozen : (w.context k).isFrozen = true) :
    w.snapshot? k = some ⟨k, OrderedMap.ofList (w.inputEntries (w.context k) ++
      w.ledgerEntries (w.context k).ledger.toList)⟩ := by
  rw [snapshot?, (ht.contexts k).read?_of_isFrozen frozen]
  rfl

/-- A view has the values of all cells of the ledger that have succeeded. -/
theorem get?_of_snapshot? (ht : w.TablesSound) (frozen : (w.context k).isFrozen = true)
    {view : View} (seen : w.snapshot? k = some view) {key : String} {index : KeyIndex} {c : CellId}
    {v : Value} (hkey : w.keys.registry[index.toNat]? = some key)
    (hmem : (index, c) ∈ (w.context k).ledger.toList) (value : (w.cell c).value? = some v) :
    view.get? key = some v.toNumber := by
  rw [snapshot?_of_isFrozen ht frozen] at seen
  cases seen
  apply OrderedMap.get?_ofList_append
  · apply List.mem_filterMap.mpr ⟨(index, c), hmem, ?_⟩
    simp only [value, ht.keys.key?_eq, hkey]
  · intro n hn
    obtain ⟨⟨index', c'⟩, hmem', heq⟩ := List.mem_filterMap.mp hn
    simp only at heq
    split at heq
    · next v' key' value' hkey' =>
        -- Another entry under the same key has the same index, hence the same cell.
        cases heq
        rw [ht.keys.key?_eq] at hkey'
        obtain rfl : index' = index := ht.keys.index_inj hkey' hkey
        have hslot := (ht.contexts k).agree _ hmem
        have hslot' := (ht.contexts k).agree _ hmem'
        obtain rfl : c' = c := Option.some.inj (hslot'.symm.trans hslot)
        rw [value] at value'
        cases value'
        rfl
    · cases heq

end World

end RequestGraph
