import RequestGraph.Proofs.Graph.Awaiting
import RequestGraph.Proofs.Request.Asking
import RequestGraph.Proofs.Request.Jobs

/-!
# Asking for a key

A key that is asked for gets an index, and the first time also a cell in the slot of that index. Its node is
then looked up, and starts by claiming the cell.
-/

namespace RequestGraph

variable {S : Setting} {b : Board} {due : List Due} {w w' : World} {x y : String} {index : KeyIndex}
  {t : Token}

/-- The world after a key was interned. -/
def World.interning (w : World) (key : String) : World := { w with keys := (w.keys.intern key).1 }

namespace Setting

/-! ## Interning

The graph is finite, so the interner does not run out of indices. A key that has one keeps it.
-/

/-- While keys of a graph are interned there are indices left. -/
theorem Serves.intern (h : S.Serves w) (hx : x ∈ S.keys) :
    ∃ index, w.keys.intern x = ((w.keys.intern x).1, some index) ∧ S.Serves (w.interning x) ∧
      (w.keys.intern x).1.registry[index.toNat]? = some x := by
  have hkeys := (h.tables.keys.intern_spec x).1
  have room : x ∈ w.keys.registry ∨ w.keys.registry.length < Interner.maxKeys := by
    by_cases hmem : x ∈ w.keys.registry
    · exact .inl hmem
    · right
      rw [← List.toFinset_card_of_nodup h.tables.keys.nodup]
      refine Nat.lt_of_lt_of_le (Finset.card_lt_card ?_) h.room
      refine Finset.ssubset_iff_of_subset Finset.subset_union_left |>.mpr ⟨x, ?_, ?_⟩
      · exact Finset.mem_union_right _ hx
      · rwa [List.mem_toFinset]
  obtain ⟨index, hindex, hregistry⟩ := h.tables.keys.intern_of_room room
  refine ⟨index, by rw [← hindex], ?_, h.tables.keys.getElem?_of_intern x index hindex⟩
  refine ⟨h.sound, ⟨hkeys, h.tables.contexts⟩, h.opened, h.unfrozen, h.pool, h.inputs, h.nodes,
    h.faithful.mono (h.tables.keys.getElem?_intern x), ?_⟩
  · have hsame : (w.keys.intern x).1.registry.toFinset ∪ S.keys =
        w.keys.registry.toFinset ∪ S.keys := by
      ext z
      simp only [Finset.mem_union, List.mem_toFinset, hregistry]
      constructor
      · rintro ((hz | rfl) | hz)
        · exact .inl hz
        · exact .inr hx
        · exact .inr hz
      · rintro (hz | hz)
        · exact .inl (.inl hz)
        · exact .inr hz
    show ((w.keys.intern x).1.registry.toFinset ∪ S.keys).card ≤ _
    rw [hsame]
    exact h.room

/-- Interning a key moves no other key. -/
theorem Places.intern (h : S.Places b w) (sound : w.keys.Sound) (key : String) :
    S.Places b (w.interning key) := by
  refine ⟨fun z hz => ?_, fun i c hc => ?_, h.apart⟩
  · obtain ⟨hmem, ⟨i, hkey, hslot⟩, hlt⟩ := h.held z hz
    exact ⟨hmem, ⟨i, sound.getElem?_intern key hkey, hslot⟩, hlt⟩
  · obtain ⟨z, hkey, hz⟩ := h.slotted i c hc
    exact ⟨z, sound.getElem?_intern key hkey, hz⟩

/-- A key that is asked for has an index. -/
theorem Tracks.intern (h : S.Tracks b due w) (hx : x ∈ S.keys) :
    ∃ index, w.keys.intern x = ((w.keys.intern x).1, some index) ∧
      S.Tracks b due (w.interning x) ∧
      (w.keys.intern x).1.registry[index.toNat]? = some x := by
  obtain ⟨index, hintern, hserves, hkey⟩ := h.serves.intern hx
  exact ⟨index, hintern, ⟨hserves, h.places.intern h.serves.tables.keys x, h.shows.congr rfl,
    h.agrees, h.relays.congr (fun _ => rfl) (fun _ => rfl) rfl rfl, h.counts⟩, hkey⟩

/-! ## The slot of a key

Whether a key has been asked for can be read off the slot of its index. So asking again is decided by the
board.
-/

/-- The slot of a key that nobody has asked for is empty. -/
theorem Tracks.lookup_of_fresh (h : S.Tracks b due w) (fresh : b.standing x = .fresh)
    (hkey : w.keys.registry[index.toNat]? = some x) :
    (w.context S.context).slots.lookup index.toUInt64 = none := by
  cases hslot : (w.context S.context).slots.lookup index.toUInt64 with
  | none => rfl
  | some c =>
      obtain ⟨z, hz, there⟩ := h.places.slotted index c hslot
      obtain rfl := Option.some.inj (hz.symm.trans hkey)
      exact absurd fresh there

/-- The slot of a key that has been asked for holds its cell. -/
theorem Tracks.lookup_of_not_fresh (h : S.Tracks b due w) (there : b.standing x ≠ .fresh)
    (hkey : w.keys.registry[index.toNat]? = some x) :
    (w.context S.context).slots.lookup index.toUInt64 = some (b.cell x) := by
  obtain ⟨-, ⟨i, hi, hslot⟩, -⟩ := h.places.held x there
  rwa [h.serves.tables.keys.index_inj hi hkey] at hslot

/-- Asking again for a key gives its cell. -/
theorem Tracks.fetch_of_not_fresh (h : S.Tracks b due w) (there : b.standing x ≠ .fresh)
    (hkey : w.keys.registry[index.toNat]? = some x) :
    w.Returns (.fetch S.context index x) w (.cell (b.cell x)) := by
  apply World.Returns.of_move
  rw [World.fetch_of_filled (h.lookup_of_not_fresh there hkey)]
  exact .ret

/-! ## A new cell

The cell is new in the world and the key is new on the board, so each law has to be checked for this key
only.
-/

section Entering

/-- Registering touches the context that it registers with. -/
theorem Serves.context_registering (h : S.Serves w) (index : KeyIndex) :
    (w.registering S.context index).context S.context =
      (w.context S.context).registered index w.cells.size := World.context_registering h.opened

/-- The cells of other keys are as before. -/
theorem Tracks.cell_registering (h : S.Tracks b due w) (there : b.standing y ≠ .fresh) :
    (w.registering S.context index).cell (b.cell y) = w.cell (b.cell y) := by
  show (w.addCell default).cell (b.cell y) = _
  rw [World.cell_addCell, if_neg]
  exact Nat.ne_of_lt (h.places.held y there).2.2

variable (h : S.Tracks b due w)
include h

/-- The new cell shows nothing, as is noted for its key. -/
theorem Tracks.shows_enter : (b.enter x w.cells.size).Shows (w.registering S.context index) := by
  have hnew : (w.registering S.context index).cell w.cells.size = default :=
    (World.cell_addCell w default _).trans (if_pos rfl)
  refine ⟨fun z hz => ?_, fun z o hz => ?_, fun z hz => ?_⟩
  · by_cases hzx : z = x
    · rw [hzx, Board.cell_enter_self, Board.standing_enter_self, hnew]
      rfl
    · rw [Board.standing_enter_of_ne hzx] at hz ⊢
      rw [Board.cell_enter_of_ne hzx, h.cell_registering hz]
      exact h.shows.peek z hz
  · by_cases hzx : z = x
    · rw [hzx, Board.standing_enter_self] at hz
      cases hz
      rw [hzx, Board.cell_enter_self, hnew]
      rfl
    · rw [Board.standing_enter_of_ne hzx] at hz
      have there : b.standing z ≠ .fresh := fun heq => by
        rw [heq] at hz
        cases hz
      rw [Board.cell_enter_of_ne hzx, h.cell_registering there]
      exact h.shows.owner z o hz
  · by_cases hzx : z = x
    · rw [hzx, Board.cell_enter_self, hnew]
      rfl
    · rw [Board.standing_enter_of_ne hzx] at hz
      rw [Board.cell_enter_of_ne hzx, h.cell_registering hz]
      exact h.shows.revokee z hz

/-- A key that has just been queued has asked for nothing. -/
theorem Tracks.agrees_enter : S.Agrees (b.enter x w.cells.size) := by
  refine ⟨fun z o hz => ?_, fun z hz d hd => ?_⟩
  · by_cases hzx : z = x
    · rw [hzx, Board.standing_enter_self] at hz
      cases hz
    · rw [Board.standing_enter_of_ne hzx] at hz
      exact h.agrees.yields z o hz
  · by_cases hdx : d = x
    · rw [hdx, Board.standing_enter_self]
      exact nofun
    · rw [Board.standing_enter_of_ne hdx]
      by_cases hzx : z = x
      · rw [hzx, Board.standing_enter_self] at hz
        cases hz
      · rw [Board.standing_enter_of_ne hzx] at hz
        exact h.agrees.asked z hz d hd

variable (fresh : b.standing x = .fresh)
include fresh

/-- Nobody waits for the new cell yet, and the other cells keep their listeners. -/
theorem Tracks.relays_enter :
    S.Relays (b.enter x w.cells.size) due (w.registering S.context index) := by
  have hblank : (default : Cell Subscription).listeners.toList = [] := AppendList.toList_blank
  have hlisteners : (w.registering S.context index).listeners = w.listeners :=
    World.listeners_addCell (w := w) hblank
  have hmem {c : CellId} {s : Subscription}
      (hs : s ∈ ((w.registering S.context index).cell c).listeners.toList) :
      s ∈ (w.cell c).listeners.toList := by
    have hs : s ∈ ((w.addCell default).cell c).listeners.toList := hs
    rw [World.cell_addCell] at hs
    split at hs
    · cases hs
    · exact hs
  have hsignals (f : FanInId) : (w.registering S.context index).signals due f = w.signals due f := by
    rw [World.signals, World.signals, hlisteners]
  -- Keys that somebody waits for have been asked for, so the new key is none of them.
  have apart {z : String} {s : Standing} (hz : b.standing z = s) (hs : s ≠ .fresh) : z ≠ x := by
    rintro rfl
    exact hs (hz.symm.trans fresh)
  have same {z : String} {s : Standing} (hz : b.standing z = s) (hs : s ≠ .fresh) :
      (b.enter x w.cells.size).standing z = s :=
    (Board.standing_enter_of_ne (apart hz hs)).trans hz
  constructor
  case heard =>
      intro z hz s hs
      have hs := hmem hs
      by_cases hzx : z = x
      · rw [hzx, Board.cell_enter_self, World.cell_of_size_le (Nat.le_refl _)] at hs
        cases hs
      · rw [Board.cell_enter_of_ne hzx] at hs
        rw [Board.standing_enter_of_ne hzx] at hz
        obtain ⟨f, hrelay, hhears⟩ := h.relays.heard z hz s hs
        refine ⟨f, hrelay, hhears.imp_right ?_⟩
        rintro ⟨y, t, hy, hneeds⟩
        exact ⟨y, t, same hy Standing.noConfusion, hneeds⟩
  case told =>
      intro s o hs
      obtain ⟨f, hrelay, hold⟩ := h.relays.told s o hs
      refine ⟨f, hrelay, hold.imp_right ?_⟩
      rintro ⟨y, t, z, hy, hneeds, hz⟩
      exact ⟨y, t, z, same hy Standing.noConfusion, hneeds, same hz Standing.noConfusion⟩
  case joins =>
      intro y t f hy
      have hyx : y ≠ x := by
        rintro rfl
        rw [Board.standing_enter_self] at hy
        cases hy
      rw [Board.standing_enter_of_ne hyx] at hy
      obtain ⟨hf, hrule, positive, named, heeds, covered⟩ := h.relays.joins y t f hy
      have hcell {d : String} (hd : S.graph.Needs y d) :
          (b.enter x w.cells.size).cell d = b.cell d :=
        Board.cell_enter_of_ne (apart rfl (h.agrees.asked y (by rw [hy]; rfl) d hd))
      refine ⟨hf, ?_, ?_, fun d hd => ?_, fun c s hs hrelay => ?_, fun d hd => ?_⟩
      · rw [hsignals, Board.cell_enter_of_ne hyx]
        exact hrule
      · rw [hsignals]
        exact positive
      · rw [hcell hd]
        exact named d hd
      · obtain ⟨d, hd, rfl⟩ := heeds c s (hmem hs) hrelay
        exact ⟨d, hd, (hcell hd).symm⟩
      · rw [hcell hd, h.cell_registering (h.agrees.asked y (by rw [hy]; rfl) d hd)]
        refine (covered d hd).imp_left ?_
        rintro ⟨v, hv⟩
        exact ⟨v, same hv Standing.noConfusion⟩
  case unheard =>
      intro f hf
      rw [hlisteners]
      exact h.relays.unheard f hf

variable (hkey : w.keys.registry[index.toNat]? = some x)
include hkey

/-- The context still serves the graph after a registration. -/
theorem Tracks.serves_enter : S.Serves (w.registering S.context index) := by
  have hcontext := h.serves.context_registering index
  have hsound := h.serves.tables.contexts S.context
  have empty := h.lookup_of_fresh fresh hkey
  constructor
  case sound => exact h.serves.sound.addCell Cell.sound_default
  case tables =>
      refine ⟨h.serves.tables.keys, fun k => ?_⟩
      show ((w.contexts.set _ _).get k).Sound
      rw [Arena.get_set]
      split
      · exact hsound.registered empty
      · exact h.serves.tables.contexts k
  case opened =>
      show S.context < (w.contexts.set _ _).size
      rw [Arena.size_set]
      exact h.serves.opened
  case room => exact h.serves.room
  all_goals rw [hcontext]
  case unfrozen =>
      rw [hsound.isFrozen_registered]
      exact h.serves.unfrozen
  case pool => exact h.serves.pool
  case inputs => exact h.serves.inputs
  case nodes => exact h.serves.nodes
  case faithful => exact h.serves.faithful

/-- The new cell is in the slot of its key, and no other key has it. -/
theorem Tracks.places_enter (hx : x ∈ S.keys) :
    S.Places (b.enter x w.cells.size) (w.registering S.context index) := by
  have hcontext := h.serves.context_registering index
  have hlookup := (h.serves.tables.contexts S.context).lookup_registered
    (h.lookup_of_fresh fresh hkey) w.cells.size
  have hsize : (w.registering S.context index).cells.size = w.cells.size + 1 := Arena.size_push ..
  have old {z : String} (hz : (b.enter x w.cells.size).standing z ≠ .fresh) (hzx : z ≠ x) :
      b.standing z ≠ .fresh := by rwa [Board.standing_enter_of_ne hzx] at hz
  -- The new cell has a number that no cell has had before.
  have below {z : String} (hz : b.standing z ≠ .fresh) : b.cell z ≠ w.cells.size :=
    Nat.ne_of_lt (h.places.held z hz).2.2
  constructor
  case held =>
      intro z hz
      by_cases hzx : z = x
      · subst hzx
        rw [Board.cell_enter_self]
        refine ⟨hx, ⟨index, hkey, ?_⟩, ?_⟩
        · rw [hcontext, hlookup, if_pos rfl]
        · rw [hsize]
          exact Nat.lt_succ_self _
      · obtain ⟨hmem, ⟨i, hi, hslot⟩, hlt⟩ := h.places.held z (old hz hzx)
        rw [Board.cell_enter_of_ne hzx]
        refine ⟨hmem, ⟨i, hi, ?_⟩, ?_⟩
        · rw [hcontext, hlookup, if_neg, hslot]
          intro heq
          have hempty := h.lookup_of_fresh fresh hkey
          rw [heq, hslot] at hempty
          cases hempty
        · rw [hsize]
          exact Nat.lt_succ_of_lt hlt
  case slotted =>
      intro i c hc
      rw [hcontext, hlookup] at hc
      split at hc
      · next heq =>
          have heq : index = i := UInt32.toUInt64_inj.mp heq
          exact ⟨x, heq ▸ hkey, by rw [Board.standing_enter_self]; exact nofun⟩
      · obtain ⟨z, hz, there⟩ := h.places.slotted i c hc
        have hzx : z ≠ x := by
          rintro rfl
          exact there fresh
        exact ⟨z, hz, by rwa [Board.standing_enter_of_ne hzx]⟩
  case apart =>
      intro z z' hz hz' heq
      by_cases hzx : z = x
      · by_cases hzx' : z' = x
        · rw [hzx, hzx']
        · rw [hzx, Board.cell_enter_self, Board.cell_enter_of_ne hzx'] at heq
          exact absurd heq.symm (below (old hz' hzx'))
      · by_cases hzx' : z' = x
        · rw [hzx', Board.cell_enter_self, Board.cell_enter_of_ne hzx] at heq
          exact absurd heq (below (old hz hzx))
        · rw [Board.cell_enter_of_ne hzx, Board.cell_enter_of_ne hzx'] at heq
          exact h.places.apart z z' (old hz hzx) (old hz' hzx') heq

/-- A key that is asked for the first time gets a cell. -/
theorem Tracks.enter (hx : x ∈ S.keys) :
    S.Tracks (b.enter x w.cells.size) due (w.registering S.context index) where
  serves := h.serves_enter fresh hkey
  places := h.places_enter fresh hkey hx
  shows := h.shows_enter
  agrees := h.agrees_enter
  relays := h.relays_enter fresh
  counts z := by
    refine (h.counts z).trans ?_
    by_cases hzx : z = x
    · rw [hzx, Board.standing_enter_self, fresh]
      rfl
    · rw [Board.standing_enter_of_ne hzx]

end Entering

/-! ## Nodes

Looking a node up may fill the memo of the provider, which no law speaks of. The start of a node, on the
other hand, is counted.
-/

/-- Looking a node up leaves the graph served, although the cache has changed. -/
theorem Serves.look (h : S.Serves w) (hkey : w.keys.registry[index.toNat]? = some x) :
    S.Serves (w.looking S.context x index) := by
  by_cases there : (w.context S.context).provider < w.providers.size
  case neg =>
      -- A provider that is not there remembers nothing.
      have hsame : w.looking S.context x index = w := by
        rw [World.looking, Arena.set_of_size_le _ (Nat.le_of_not_lt there)]
      rwa [hsame]
  have hprovider : (w.looking S.context x index).providers.get (w.context S.context).provider =
      ((w.providers.get (w.context S.context).provider).lookup x index).1 := by
    show (w.providers.set _ _).get _ = _
    rw [Arena.get_set_self there]
  have hcontext : (w.looking S.context x index).context S.context = w.context S.context := rfl
  refine ⟨h.sound, ⟨h.tables.keys, h.tables.contexts⟩, h.opened, h.unfrozen, h.pool, h.inputs,
    fun z hz => ?_, ?_, h.room⟩
  · rw [hcontext, hprovider]
    exact h.nodes z hz
  · rw [hcontext, hprovider]
    exact h.faithful.fst_lookup hkey

/-- Looking a node up is noted nowhere. -/
theorem Tracks.look (h : S.Tracks b due w) (hkey : w.keys.registry[index.toNat]? = some x) :
    S.Tracks b due (w.looking S.context x index) :=
  ⟨h.serves.look hkey, h.places.congr rfl rfl rfl, h.shows.congr rfl, h.agrees,
    h.relays.congr (fun _ => rfl) (fun _ => rfl) rfl rfl, h.counts⟩

/-- The node of a key that is queued starts by claiming the cell of the key. -/
theorem Tracks.begin (h : S.Tracks b due w) (hx : b.standing x = .queued)
    (body : (S.graph.rule x).body?.isSome = true) :
    S.Tracks (b.set x (.running w.freshToken)) due (w.starting (b.cell x) x) := by
  have there : b.standing x ≠ .fresh := by
    rw [hx]
    exact nofun
  have hsize := (h.places.held x there).2.2
  have pending := h.shows.pending h.serves.sound there (by rw [hx]; rfl)
  have hplaces : S.Places (b.set x (.running w.freshToken)) w := h.places.set there nofun
  have hcell (c : CellId) : (w.starting (b.cell x) x).cell c =
      if b.cell x = c ∧ b.cell x < w.cells.size then
        { w.cell (b.cell x) with phase := .listening, owner := some w.freshToken }
      else w.cell c := Arena.get_set w.cells (b.cell x) c _
  -- The cell of the key is claimed, with a token that is new.
  have hself : (w.starting (b.cell x) x).cell (b.cell x) =
      { w.cell (b.cell x) with phase := .listening, owner := some w.freshToken } := by
    rw [hcell, if_pos ⟨rfl, hsize⟩]
  have hother {z : String} (hz : b.standing z ≠ .fresh) (hzx : z ≠ x) :
      (w.starting (b.cell x) x).cell (b.cell z) = w.cell (b.cell z) := by
    rw [hcell, if_neg fun heq => h.places.cell_ne hz there hzx heq.1.symm]
  constructor
  case serves =>
      have hsound : (w.setCell (b.cell x)
          { w.cell (b.cell x) with phase := .listening, owner := some w.freshToken }).Sound :=
        h.serves.sound.setCell _ ((h.serves.sound _).claimed pending _)
      exact h.serves.congr (hsound.of_cells_eq rfl) rfl rfl rfl
  case places => exact hplaces.congr rfl rfl (Arena.size_set ..)
  case shows =>
      refine ⟨fun z hz => ?_, fun z o hz => ?_, fun z hz => ?_⟩
      · by_cases hzx : z = x
        · rw [hzx, Board.cell_set, hself, Board.standing_set_self]
          exact Cell.peek_of_pending rfl
        · rw [Board.standing_set_of_ne hzx] at hz ⊢
          rw [Board.cell_set, hother hz hzx]
          exact h.shows.peek z hz
      · by_cases hzx : z = x
        · rw [hzx, Board.standing_set_self] at hz
          rw [hzx, Board.cell_set, hself]
          exact Option.some.inj hz
        · rw [Board.standing_set_of_ne hzx] at hz
          have hfresh : b.standing z ≠ .fresh := fun heq => by
            rw [heq] at hz
            cases hz
          rw [Board.cell_set, hother hfresh hzx]
          exact h.shows.owner z o hz
      · have hz := Board.not_fresh_of_set there hz
        by_cases hzx : z = x
        · rw [hzx, Board.cell_set, hself]
          exact h.shows.revokee x there
        · rw [Board.cell_set, hother hz hzx]
          exact h.shows.revokee z hz
  case agrees => exact h.agrees.set nofun rfl
  case relays =>
      refine (h.relays.set there (by rw [hx]; rfl) rfl).congr (fun c => ?_) (fun f => ?_) rfl rfl
      · rw [hcell]
        split
        · next heq => rw [heq.1]
        · rfl
      · have hperm : (w.starting (b.cell x) x).listeners.Perm w.listeners :=
          World.perm_listeners_set (w := w) (c := b.cell x) rfl
        exact hperm.countP_eq _
  case counts =>
      intro z
      have hz := h.counts z
      show (Event.node x :: w.log).countP _ = _
      rw [List.countP_cons, hz, Nat.add_assoc, Nat.add_left_cancel_iff]
      by_cases hzx : z = x
      · subst hzx
        rw [hx, Board.standing_set_self, body]
        simp [Event.starts, Standing.hasStarted]
      · rw [Board.standing_set_of_ne hzx]
        simp [Event.starts, Ne.symm hzx]

/-! ## Names

Nodes refer to the cells of their dependencies by name, and the name is the key.
-/

/-- The cell of a key is named by the key. -/
theorem Tracks.name (h : S.Tracks b due w) (x : String) :
    S.Tracks b due (w.nameCell x (b.cell x)) := by
  refine ⟨h.serves.congr h.serves.sound rfl rfl rfl, h.places.congr rfl rfl rfl,
    h.shows.congr rfl, h.agrees, ?_, h.counts⟩
  refine ⟨h.relays.heard, h.relays.told, fun y t f hy => ?_, h.relays.unheard⟩
  obtain ⟨there, rule, positive, named, heeds, covered⟩ := h.relays.joins y t f hy
  refine ⟨there, rule, positive, fun d hd => ?_, heeds, covered⟩
  show (w.names.cells.insert x (b.cell x)).get? d = _
  rw [OrderedMap.get?_insert]
  split
  · next heq => rw [heq]
  · exact named d hd

end Setting

end RequestGraph
