import RequestGraph.Proofs.Engine.Contexts
import RequestGraph.Proofs.Engine.Returning
import RequestGraph.Proofs.Engine.Stock
import RequestGraph.Proofs.Provider

/-!
# Asking for a key for the first time

The first to ask for a key makes its cell, and registers it. If the context is closed the cell fails; if the
key has an input the cell follows it; if it has a node the node is dispatched; and if it has neither the cell
fails. That the memo of the provider has no part in this is due to everybody's asking with the index that
the interner gave the key.
-/

namespace RequestGraph

/-- The world after a key got a cell in a context. -/
def World.registering (w : World) (k : ContextId) (index : KeyIndex) : World :=
  (w.addCell default).setContext k ((w.context k).registered index w.cells.size)

/-- The world after the node of a key was looked up. -/
def World.looking (w : World) (k : ContextId) (key : String) (index : KeyIndex) : World :=
  { w with
    providers := w.providers.set (w.context k).provider
      ((w.providers.get (w.context k).provider).lookup key index).1 }

/-- The provider of a context. -/
def World.provider (w : World) (k : ContextId) : Provider Node :=
  w.providers.get (w.context k).provider

/-- A call fails the cell that it comes back with, and dispatches nothing before that. -/
structure World.Fails (w : World) (call : Call) (c : CellId) (e : Error) : Prop where
  returns : ∃ w', w.Returns call w' (.cell c) ∧ (w'.cell c).peek = some (.error e)
  quiet : ∀ n pool job,
    ((⟨w, .call call, []⟩ : Machine).iterate n).control ≠ .call (.dispatch pool job)

namespace World

variable {w w₁ : World} {k : ContextId} {index : KeyIndex} {key : String} {c : CellId} {e : Error}
  {node : Node}

theorem context_registering (there : k < w.contexts.size) : (w.registering k index).context k =
    (w.context k).registered index w.cells.size :=
  Arena.get_set_self there

theorem provider_registering (there : k < w.contexts.size) :
    (w.registering k index).provider k = w.provider k := by
  rw [provider, context_registering there]
  rfl

/-! ## The first fetch of an index

The slot takes the new cell in any case, and the ledger takes it if the context is open. What completes the
cell is decided after that.
-/

section First

variable (tables : w.TablesSound) (empty : (w.context k).slots.lookup index.toUInt64 = none)

include tables empty

/-- The ledger decides what becomes of the new cell: a closed one does not take it. -/
theorem fetch_of_empty : w.invoke (.fetch k index key) =
    if (w.context k).isFrozen then (w.registering k index).call
      (.complete w.cells.size (.error .contextFinished) .unowned) [.made w.cells.size]
    else (w.registering k index).startCell k index key w.cells.size := by
  have won := ((tables.contexts k).won_iff index w.cells.size).mpr empty
  have pushed := ((tables.contexts k).ledger.push_eq (w.context k).slots.filled_le
    (index, w.cells.size)).2.2.1
  have same : (w.context k).ledger.frozen = (w.context k).isFrozen := rfl
  rw [same] at pushed
  show w.fetch k index key = _
  simp only [fetch, won, if_true]
  rcases hpush : (w.context k).ledger.push (index, w.cells.size) with ⟨ledger, outcome⟩
  rw [hpush] at pushed
  cases frozen : (w.context k).isFrozen <;> rw [frozen] at pushed <;> cases pushed <;>
    simp [registering, Context.registered, hpush]

theorem fetch_of_frozen (frozen : (w.context k).isFrozen = true) :
    w.invoke (.fetch k index key) = (w.registering k index).call
      (.complete w.cells.size (.error .contextFinished) .unowned) [.made w.cells.size] := by
  rw [fetch_of_empty tables empty, if_pos frozen]

theorem fetch_of_unfrozen (unfrozen : (w.context k).isFrozen = false) :
    w.invoke (.fetch k index key) =
      (w.registering k index).startCell k index key w.cells.size := by
  rw [fetch_of_empty tables empty, if_neg (Bool.eq_false_iff.mp unfrozen)]

end First

/-- Asking again gives the cell that is there. -/
theorem fetch_of_filled (filled : (w.context k).slots.lookup index.toUInt64 = some c) :
    w.invoke (.fetch k index key) = w.ret (.cell c) := by
  show w.fetch k index key = _
  simp only [fetch, SlotTable.getOrInsert, filled]
  exact if_neg Bool.false_ne_true

theorem context_startCell (w : World) (k j : ContextId) (index : KeyIndex) (key : String) (c : CellId) :
    (w.startCell k index key c).world.context j = w.context j := by
  simp only [startCell]
  split
  · rfl
  · split <;> rfl

/-- Whether the context is closed or not, its slot takes the new cell, which is offered to its ledger. -/
theorem context_fetch (tables : w.TablesSound) (there : k < w.contexts.size)
    (empty : (w.context k).slots.lookup index.toUInt64 = none) :
    (w.invoke (.fetch k index key)).world.context k =
      (w.context k).registered index w.cells.size := by
  cases frozen : (w.context k).isFrozen with
  | true =>
    rw [fetch_of_frozen tables empty frozen]
    exact context_registering there
  | false =>
    rw [fetch_of_unfrozen tables empty frozen, context_startCell]
    exact context_registering there

/-! ## What completes the new cell

Three cases in this order: an input, a node, neither. An input hides a node under the same key.
-/

section Starting

variable (input : (w.context k).inputs.get? key = none)
  (faithful : (w.provider k).Faithful w.keys.registry)
  (hkey : w.keys.registry[index.toNat]? = some key)

theorem startCell_of_input {source : Source} (input : (w.context k).inputs.get? key = some source) :
    w.startCell k index key c = w.call (.forward c source none) [.made c] := by
  simp only [startCell, input]

include input faithful hkey

theorem startCell_of_node (found : (w.provider k).nodes.get? key = some node) :
    w.startCell k index key c = (w.looking k key index).call
      (.dispatch (w.context k).pool (.node k c node)) [.made c] := by
  have hnode := faithful.snd_lookup hkey
  rw [found, provider] at hnode
  simp only [startCell, input, hnode, looking]

theorem startCell_of_unknown (unknown : (w.provider k).nodes.get? key = none) :
    w.startCell k index key c = (w.looking k key index).call
      (.complete c (.error (.unknownNode (Text.quoted key))) .unowned) [.made c] := by
  have hnode := faithful.snd_lookup hkey
  rw [unknown, provider] at hnode
  simp only [startCell, input, hnode, looking]

end Starting

/-! ## The first fetch in an open context

The two put together, as one move for each case.
-/

section Open

variable (tables : w.TablesSound) (there : k < w.contexts.size)
  (empty : (w.context k).slots.lookup index.toUInt64 = none)
  (unfrozen : (w.context k).isFrozen = false)

include tables there empty unfrozen

/-- The cell of a key that has an input follows it. -/
theorem fetch_of_input {source : Source} (input : (w.context k).inputs.get? key = some source) :
    w.invoke (.fetch k index key) = (w.registering k index).call
      (.forward w.cells.size source none) [.made w.cells.size] := by
  rw [fetch_of_unfrozen tables empty unfrozen]
  apply startCell_of_input
  rw [context_registering there]
  exact input

variable (input : (w.context k).inputs.get? key = none)
  (faithful : (w.provider k).Faithful w.keys.registry)
  (hkey : w.keys.registry[index.toNat]? = some key)

include input faithful hkey

/-- The node of a key without an input is dispatched. -/
theorem fetch_of_node (found : (w.provider k).nodes.get? key = some node) :
    w.invoke (.fetch k index key) = ((w.registering k index).looking k key index).call
      (.dispatch (w.context k).pool (.node k w.cells.size node)) [.made w.cells.size] := by
  have hcontext : (w.registering k index).context k =
      (w.context k).registered index w.cells.size := context_registering there
  have hprovider : (w.registering k index).provider k = w.provider k := provider_registering there
  have hpool : ((w.registering k index).context k).pool = (w.context k).pool := by
    rw [hcontext]
    rfl
  rw [fetch_of_unfrozen tables empty unfrozen, ← hpool]
  refine startCell_of_node ?_ ?_ ?_ ?_
  · rw [hcontext]
    exact input
  · rw [hprovider]
    exact faithful
  · exact hkey
  · rw [hprovider]
    exact found

/-- The cell of a key with neither fails. -/
theorem fetch_of_unknown (unknown : (w.provider k).nodes.get? key = none) :
    w.invoke (.fetch k index key) = ((w.registering k index).looking k key index).call
      (.complete w.cells.size (.error (.unknownNode (Text.quoted key))) .unowned)
      [.made w.cells.size] := by
  have hcontext : (w.registering k index).context k =
      (w.context k).registered index w.cells.size := context_registering there
  have hprovider : (w.registering k index).provider k = w.provider k := provider_registering there
  rw [fetch_of_unfrozen tables empty unfrozen]
  refine startCell_of_unknown ?_ ?_ ?_ ?_
  · rw [hcontext]
    exact input
  · rw [hprovider]
    exact faithful
  · exact hkey
  · rw [hprovider]
    exact unknown

end Open

/-! ## Failing at once

The failure is stored before the fetch comes back. Nobody can have listened to the cell by then, so that
nobody is told.
-/

/-- A cell that nobody knows of yet fails without anybody's noticing. -/
theorem fails_of_invoke {call : Call} (hinvoke : w.invoke call = w₁.call
      (.complete c (.error e) .unowned) [.made c]) (sound : w₁.Sound) (there : c < w₁.cells.size)
    (blank : w₁.cell c = default) (other : ∀ pool job, call ≠ .dispatch pool job) :
    w.Fails call c e := by
  have accepted : w₁.refusal? c .unowned = none := by
    rw [refusal?, blank]
    rfl
  have hcomplete := complete_of_accepted (o := .error e) sound accepted
  rw [blank] at hcomplete
  let w₂ := w₁.setCell c ((default : Cell Subscription).completed (.error e))
  -- The call, the completion, the delivery to nobody, and the way back.
  have step₁ (frames : List Frame) : (⟨w, .call call, frames⟩ : Machine).step =
      ⟨w₁, .call (.complete c (.error e) .unowned), .made c :: frames⟩ := by
    show Machine.ofMove (w.invoke call) frames = _
    rw [hinvoke]
    rfl
  have step₂ (frames : List Frame) :
      (⟨w₁, .call (.complete c (.error e) .unowned), .made c :: frames⟩ : Machine).step =
        ⟨w₂, .call (.deliver [] none (.error e)), .made c :: frames⟩ := by
    show Machine.ofMove (w₁.invoke _) _ = _
    rw [hcomplete]
    rfl
  constructor
  case returns =>
    refine ⟨w₂, fun frames => ⟨4, ?_⟩, ?_⟩
    · rw [Machine.iterate, step₁, Machine.iterate, step₂]
      rfl
    · rw [cell_setCell_self there, Cell.peek_completed]
  case quiet =>
    intro n pool job hcall
    rcases n with _ | _ | _ | _ | n
    · exact other pool job (Control.call.inj hcall)
    · rw [Machine.iterate, step₁] at hcall
      cases hcall
    · rw [Machine.iterate, step₁, Machine.iterate, step₂] at hcall
      cases hcall
    · rw [Machine.iterate, step₁, Machine.iterate, step₂] at hcall
      cases hcall
    · rw [Machine.iterate, step₁, Machine.iterate, step₂, Machine.iterate, Machine.iterate,
        Machine.iterate_of_atRest rfl] at hcall
      cases hcall

theorem cell_registering : (w.registering k index).cell w.cells.size = default :=
  Arena.get_push_size w.cells default

theorem size_registering : (w.registering k index).cells.size = w.cells.size + 1 :=
  Arena.size_push w.cells default

theorem Sound.registering (h : w.Sound) : (w.registering k index).Sound :=
  (h.addCell Cell.sound_default).of_cells_eq rfl

/-- **Too late.** The first fetch of a key in a closed context fails its cell. -/
theorem fails_of_frozen (sound : w.Sound) (tables : w.TablesSound)
    (empty : (w.context k).slots.lookup index.toUInt64 = none)
    (frozen : (w.context k).isFrozen = true) :
    w.Fails (.fetch k index key) w.cells.size .contextFinished :=
  fails_of_invoke (fetch_of_frozen tables empty frozen) sound.registering
    (size_registering ▸ Nat.lt_succ_self _) cell_registering nofun

/-- **Nothing there.** The first fetch of a key with neither input nor node fails its cell. -/
theorem fails_of_unknown (sound : w.Sound) (tables : w.TablesSound) (there : k < w.contexts.size)
    (empty : (w.context k).slots.lookup index.toUInt64 = none)
    (unfrozen : (w.context k).isFrozen = false) (input : (w.context k).inputs.get? key = none)
    (faithful : (w.provider k).Faithful w.keys.registry)
    (hkey : w.keys.registry[index.toNat]? = some key)
    (unknown : (w.provider k).nodes.get? key = none) :
    w.Fails (.fetch k index key) w.cells.size (.unknownNode (Text.quoted key)) := by
  have hsound : (w.registering k index).Sound := sound.registering
  have hsize : w.cells.size < (w.registering k index).cells.size :=
    size_registering ▸ Nat.lt_succ_self _
  have hblank : (w.registering k index).cell w.cells.size = default := cell_registering
  exact fails_of_invoke
    (fetch_of_unknown tables there empty unfrozen input faithful hkey unknown)
    (hsound.of_cells_eq rfl) hsize hblank nofun

end World

end RequestGraph
