import Mathlib.Data.List.Forall2
import RequestGraph.Proofs.Engine.Contexts

/-!
# Asking for the cells of a request

A request first asks for the cells of its keys, one after another. Each time, whatever runs meanwhile, it
gets the cell in the slot of the key. When it has all of them it makes the cell of its result.
-/

namespace RequestGraph

namespace World

variable {w w₁ w' : World} {k : ContextId} {key : String} {c : CellId}

/-- Asking for the cells of some keys, one after another, gives some cells. -/
inductive Gathers (k : ContextId) : World → List String → World → List CellId → Prop
  | nil {w : World} : Gathers k w [] w []
  | cons {w w₁ w' : World} {key : String} {rest : List String} {c : CellId} {cells : List CellId}
      (fetch : w.Performs (.fetchKey k key) w₁ (.ret (.cell c)))
      (gathers : Gathers k w₁ rest w' cells) : Gathers k w (key :: rest) w' (c :: cells)

/-! ## One key

A fetch may run any amount of code before it comes back. Its own cell was put into the slot in its first
step, and the slot keeps it.
-/

/-- What a fetch does first. -/
theorem fetch_cases (sound : w.Sound) (tables : w.TablesSound) (there : k < w.contexts.size)
    (index : KeyIndex) (key : String) :
    (∃ c : CellId, w.invoke (.fetch k index key) = w.ret (.cell c) ∧
        (w.context k).slots.lookup index.toUInt64 = some c) ∨
      ∃ (w₁ : World) (call : Call) (c : CellId), w.invoke (.fetch k index key) = w₁.call call [.made c] ∧
        (w₁.context k).slots.lookup index.toUInt64 = some c ∧ w₁.Sound ∧ w₁.TablesSound ∧
        w₁.keys = w.keys := by
  obtain ⟨hvalue, hwon, -, hlookup⟩ := SlotTable.getOrInsert_eq (tables.contexts k).slots
    (Context.addressable index) w.cells.size
  have hsound := Machine.step_sound (m := ⟨w, .call (.fetch k index key), []⟩) sound
  have htables := Machine.step_tablesSound (m := ⟨w, .call (.fetch k index key), []⟩) sound tables
  have hstep : (⟨w, .call (.fetch k index key), []⟩ : Machine).step.world =
      (w.invoke (.fetch k index key)).world := rfl
  rw [hstep] at hsound htables
  have hspec := invoke_spec sound (.fetch k index key)
  generalize w.invoke (.fetch k index key) = mv at hspec hsound htables
  cases hspec with
  | returned may => cases may
  | fetched install found =>
      subst install
      refine .inl ⟨_, rfl, ?_⟩
      rw [hwon] at found
      rw [hvalue]
      cases hslot : (w.context k).slots.lookup index.toUInt64 with
      | none =>
          rw [hslot] at found
          cases found
      | some c => rfl
  | @fetchedNew _ _ _ _ ledger call w₁ install new accepted starts core =>
      subst install
      refine .inr ⟨w₁, call, w.cells.size, rfl, ?_, hsound, htables, congrArg Core.keys core⟩
      have hcontexts : w₁.contexts = w.contexts.set k _ := congrArg Core.contexts core
      rw [context, hcontexts, Arena.get_set_self there, hlookup, if_pos rfl]
      rw [hwon] at new
      rw [Option.isNone_iff_eq_none.mp new]
      rfl
  | @fetchedLate _ _ _ _ ledger _ install new rejected =>
      subst install
      refine .inr ⟨_, _, _, rfl, ?_, hsound, htables, rfl⟩
      show ((w.contexts.set k _).get k).slots.lookup _ = _
      rw [Arena.get_set_self there, hlookup, if_pos rfl]
      rw [hwon] at new
      rw [Option.isNone_iff_eq_none.mp new]
      rfl

/-- A fetch that comes back gives the cell of the key. -/
theorem fetch_holds (sound : w.Sound) (tables : w.TablesSound) (there : k < w.contexts.size)
    {index : KeyIndex} (hkey : w.keys.registry[index.toNat]? = some key) {r : Result}
    (h : w.Performs (.fetch k index key) w' (.ret r)) : ∃ c, r = .cell c ∧ w'.Holds k key c := by
  rcases fetch_cases sound tables there index key with
    ⟨c, hinvoke, hslot⟩ | ⟨w₁, call, c, hinvoke, hslot, hsound, htables, hkeys⟩
  · obtain ⟨rfl, hr⟩ := (performs_end hinvoke rfl).mp h
    cases hr
    exact ⟨c, rfl, index, hkey, hslot⟩
  · obtain ⟨w₂, e, hcall, hends⟩ := (performs_call hinvoke).mp h
    have hholds : w₂.Holds k key c := by
      refine hcall.holds hsound htables ⟨index, ?_, hslot⟩
      rw [hkeys]
      exact hkey
    rw [Machine.ends_iff_step] at hends
    cases e with
    | call _ => exact nomatch hcall.1
    | ret r' =>
        have := (Machine.ends_of_atRest rfl).mp hends
        cases this
        exact ⟨c, rfl, hholds⟩
    | raise p =>
        have := (Machine.ends_of_atRest rfl).mp hends
        cases this

/-- Asking for a key that comes back gives the cell of the key. -/
theorem fetchKey_holds (sound : w.Sound) (tables : w.TablesSound) (there : k < w.contexts.size)
    {r : Result} (h : w.Performs (.fetchKey k key) w' (.ret r)) :
    ∃ c, r = .cell c ∧ w'.Holds k key c := by
  have hkeys := (tables.keys.intern_spec key).1
  have hindex := tables.keys.getElem?_of_intern key
  rcases hintern : w.keys.intern key with ⟨keys, index⟩
  rw [hintern] at hkeys hindex
  cases index with
  | none =>
      have hinvoke : w.invoke (.fetchKey k key) = w.broken .indexLeft := by
        show w.fetchKey k key = _
        rw [fetchKey, hintern]
      obtain ⟨-, hr⟩ := (performs_end hinvoke rfl).mp h
      cases hr
  | some index =>
      have hinvoke : w.invoke (.fetchKey k key) = { w with keys }.call (.fetch k index key) := by
        show w.fetchKey k key = _
        rw [fetchKey, hintern]
      rw [performs_tail hinvoke] at h
      exact fetch_holds (w := { w with keys }) sound ⟨hkeys, tables.contexts⟩ there
        (hindex index rfl) h

/-! ## All keys

The induction is on the keys. As slots keep their cells, those that were gathered first are still the right
ones at the end.
-/

theorem Performs.size_contexts {call : Call} {e : Control} (h : w.Performs call w' e)
    (sound : w.Sound) (tables : w.TablesSound) (there : k < w.contexts.size) :
    k < w'.contexts.size :=
  h.kept (P := fun w => k < w.contexts.size) sound tables there fun hs ht hk =>
    Nat.lt_of_lt_of_le hk (Machine.size_contexts_step hs ht)

/-- The cells that were gathered are those of the keys. -/
theorem Gathers.spec {keys : List String} {cells : List CellId} (h : Gathers k w keys w' cells)
    (sound : w.Sound) (tables : w.TablesSound) (there : k < w.contexts.size) :
    w'.Sound ∧ w'.TablesSound ∧ k < w'.contexts.size ∧ List.Forall₂ (w'.Holds k) keys cells ∧
      ∀ {key c}, w.Holds k key c → w'.Holds k key c := by
  induction h with
  | nil => exact ⟨sound, tables, there, .nil, id⟩
  | @cons w w₁ w' key rest c cells fetch gathers ih =>
      obtain ⟨sound₁, tables₁⟩ := fetch.sound sound tables
      obtain ⟨sound', tables', there', hcells, hkept⟩ :=
        ih sound₁ tables₁ (fetch.size_contexts sound tables there)
      obtain ⟨c', hc', hholds⟩ := fetchKey_holds sound tables there fetch
      cases hc'
      refine ⟨sound', tables', there', .cons (hkept hholds) hcells, fun h => hkept ?_⟩
      exact fetch.holds sound tables h

/-- Gathering leads to the point where all cells are there. -/
theorem Gathers.iterate {pending : List String} {cells : List CellId}
    (h : Gathers k w pending w' cells) (keys : List String) (found : List CellId) :
    ∃ n, (⟨w, .call (.gather k pending keys found), []⟩ : Machine).iterate n =
      ⟨w', .call (.gather k [] keys (found ++ cells)), []⟩ := by
  induction h generalizing found with
  | nil => exact ⟨0, by rw [List.append_nil]; rfl⟩
  | @cons w w₁ w' key rest c cells fetch gathers ih =>
      obtain ⟨n, hn⟩ := ih (found ++ [c])
      obtain ⟨i, hi⟩ := fetch.reaches [.gathering k rest keys found]
      refine ⟨1 + (i + (1 + n)), ?_⟩
      rw [Machine.iterate_add, Machine.iterate_add, Machine.iterate_add]
      show ((((⟨w, .call (.fetchKey k key), [.gathering k rest keys found]⟩ : Machine).iterate
        i).iterate 1).iterate n) = _
      rw [hi]
      show (⟨w₁, .call (.gather k rest keys (found ++ [c])), []⟩ : Machine).iterate n = _
      rw [hn, List.append_assoc]
      rfl

/-- A request that comes back has gathered the cells of its keys, and gives the cell that is allocated
then. -/
theorem gathers_of_performs {pending keys : List String} {found : List CellId} {r : Result}
    (h : w.Performs (.gather k pending keys found) w' (.ret r)) (sound : w.Sound)
    (tables : w.TablesSound) (there : k < w.contexts.size) :
    ∃ w₁ cells, Gathers k w pending w₁ cells ∧ r = .cell w₁.cells.size := by
  induction pending generalizing w found with
  | nil =>
      have hinvoke : w.invoke (.gather k [] keys found) = (w.addCell default).call
          (.await found (.yank k keys w.cells.size)) [.made w.cells.size] := rfl
      obtain ⟨w₂, e, hcall, hends⟩ := (performs_call hinvoke).mp h
      refine ⟨w, [], .nil, ?_⟩
      rw [Machine.ends_iff_step] at hends
      cases e with
      | call _ => exact nomatch hcall.1
      | ret r' =>
          cases (Machine.ends_of_atRest rfl).mp hends
          rfl
      -- If a fetch breaks off, so does the request.
      | raise p => cases (Machine.ends_of_atRest rfl).mp hends
  | cons key rest ih =>
      have hinvoke : w.invoke (.gather k (key :: rest) keys found) =
          w.call (.fetchKey k key) [.gathering k rest keys found] := rfl
      obtain ⟨w₂, e, hcall, hends⟩ := (performs_call hinvoke).mp h
      rw [Machine.ends_iff_step] at hends
      cases e with
      | call _ => exact nomatch hcall.1
      | ret r' =>
          obtain ⟨c, rfl, -⟩ := fetchKey_holds sound tables there hcall
          obtain ⟨sound₂, tables₂⟩ := hcall.sound sound tables
          obtain ⟨w₁, cells, hgathers, hr⟩ :=
            ih hends sound₂ tables₂ (hcall.size_contexts sound tables there)
          exact ⟨w₁, c :: cells, .cons hcall hgathers, hr⟩
      | raise p => cases (Machine.ends_of_atRest rfl).mp hends

end World

end RequestGraph
