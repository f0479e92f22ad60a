import RequestGraph.Proofs.Graph.Tracking

/-!
# What one change does to the board

One law for each change that the evaluation of a graph makes: a cell is completed, a fan-in is signalled or
set up, a key gets a cell, a node starts. Each says what the board becomes, and what is due then.
-/

namespace RequestGraph

variable {S : Setting} {b : Board} {due : List Due} {w w' : World} {x y : String} {f : FanInId}
  {o : Outcome} {t : Token} {c : CellId}

/-! ## What keys of the board have in common

Most of what the board says is about one key, and survives a change that notes something for another. These
lemmas say so once, for each of the laws that a board obeys.
-/

/-- Noting something for a key that has a cell gives no other key a cell. -/
theorem Board.not_fresh_of_set {s : Standing} (hy : b.standing y ≠ .fresh)
    (hx : (b.set y s).standing x ≠ .fresh) : b.standing x ≠ .fresh := by
  by_cases hxy : x = y
  · exact hxy ▸ hy
  · rwa [Board.standing_set_of_ne hxy] at hx

/-- A key that has a cell keeps it, whatever is noted. -/
theorem Board.not_fresh_set {s : Standing} (hs : s ≠ .fresh) (hx : b.standing x ≠ .fresh) :
    (b.set y s).standing x ≠ .fresh := by
  by_cases hxy : x = y
  · rw [hxy, Board.standing_set_self]
    exact hs
  · rwa [Board.standing_set_of_ne hxy]

namespace Setting

/-- Two keys have two cells. -/
theorem Places.cell_ne (h : S.Places b w) (hx : b.standing x ≠ .fresh) (hy : b.standing y ≠ .fresh)
    (hne : x ≠ y) : b.cell x ≠ b.cell y := fun heq => hne (h.apart x y hx hy heq)

/-- Where the keys are does not depend on what is in their cells. -/
theorem Places.congr (h : S.Places b w) (keys : w'.keys = w.keys) (contexts : w'.contexts = w.contexts)
    (size : w'.cells.size = w.cells.size) : S.Places b w' := by
  have hcontext : w'.context S.context = w.context S.context := by
    rw [World.context, contexts]
    rfl
  refine ⟨fun x hx => ?_, fun index c hc => ?_, h.apart⟩
  · obtain ⟨hmem, ⟨index, hkey, hslot⟩, hlt⟩ := h.held x hx
    exact ⟨hmem, ⟨index, keys ▸ hkey, hcontext ▸ hslot⟩, size ▸ hlt⟩
  · rw [hcontext] at hc
    rw [keys]
    exact h.slotted index c hc

/-- Noting progress moves no key. -/
theorem Places.set (h : S.Places b w) (hy : b.standing y ≠ .fresh) {s : Standing} (hs : s ≠ .fresh) :
    S.Places (b.set y s) w := by
  have there {x : String} (hx : (b.set y s).standing x ≠ .fresh) := Board.not_fresh_of_set hy hx
  refine ⟨fun x hx => h.held x (there hx), fun index c hc => ?_,
    fun x x' hx hx' => h.apart x x' (there hx) (there hx')⟩
  obtain ⟨x, hkey, hx⟩ := h.slotted index c hc
  exact ⟨x, hkey, Board.not_fresh_set hs hx⟩

/-- Serving depends on keys, contexts and providers only. -/
theorem Serves.congr (h : S.Serves w) (sound : w'.Sound) (keys : w'.keys = w.keys)
    (contexts : w'.contexts = w.contexts) (providers : w'.providers = w.providers) :
    S.Serves w' := by
  have hcontext (k : ContextId) : w'.context k = w.context k := by
    rw [World.context, contexts]
    rfl
  constructor
  case sound => exact sound
  case tables => exact ⟨keys ▸ h.tables.keys, fun k => hcontext k ▸ h.tables.contexts k⟩
  case opened => exact contexts ▸ h.opened
  all_goals simp only [hcontext, providers, keys]
  case unfrozen => exact h.unfrozen
  case pool => exact h.pool
  case inputs => exact h.inputs
  case nodes => exact h.nodes
  case faithful => exact h.faithful
  case room => exact h.room

end Setting

/-- The cell of a key without an outcome is pending. -/
theorem Board.Shows.pending (h : b.Shows w) (sound : w.Sound) (hx : b.standing x ≠ .fresh)
    (unsettled : (b.standing x).outcome? = none) : (w.cell (b.cell x)).isRealized = false := by
  rw [← (sound _).isSome_peek, h.peek x hx, unsettled]
  rfl

theorem Board.Shows.congr (h : b.Shows w) (cells : w'.cells = w.cells) : b.Shows w' := by
  have hcell (c : CellId) : w'.cell c = w.cell c := by
    rw [World.cell, cells]
    rfl
  exact ⟨fun x hx => hcell _ ▸ h.peek x hx, fun x o ho => hcell _ ▸ h.owner x o ho,
    fun x hx => hcell _ ▸ h.revokee x hx⟩

/-- Noting progress that the cell does not show. -/
theorem Board.Shows.set (h : b.Shows w) (hy : b.standing y ≠ .fresh) {s : Standing}
    (outcome : s.outcome? = (b.standing y).outcome?)
    (owner : ∀ o, s.owner? = some o → (b.standing y).owner? = some o) : (b.set y s).Shows w := by
  refine ⟨fun x hx => ?_, fun x o hx => ?_, fun x hx => h.revokee x (not_fresh_of_set hy hx)⟩
  · rw [cell_set, h.peek x (not_fresh_of_set hy hx)]
    by_cases hxy : x = y
    · rw [hxy, standing_set_self, outcome]
    · rw [standing_set_of_ne hxy]
  · by_cases hxy : x = y
    · rw [hxy, standing_set_self] at hx
      exact hxy ▸ h.owner y o (owner o hx)
    · rw [standing_set_of_ne hxy] at hx
      exact h.owner x o hx

/-- Before a key has asked, nothing is required of its dependencies. -/
theorem Setting.Agrees.set (h : S.Agrees b) {s : Standing} (hs : s ≠ .fresh)
    (asks : s.hasAsked = false) : S.Agrees (b.set y s) := by
  refine ⟨fun x o hx => ?_, fun x hx d hd => Board.not_fresh_set hs ?_⟩
  · by_cases hxy : x = y
    · rw [hxy, Board.standing_set_self] at hx
      rw [hx] at asks
      cases asks
    · rw [Board.standing_set_of_ne hxy] at hx
      exact h.yields x o hx
  · by_cases hxy : x = y
    · rw [hxy, Board.standing_set_self, asks] at hx
      cases hx
    · rw [Board.standing_set_of_ne hxy] at hx
      exact h.asked x hx d hd

/-- A node counts as started from its start on, however far it comes. -/
theorem Setting.Counts.set (h : S.Counts b w) {s : Standing}
    (started : s.hasStarted = (b.standing y).hasStarted) : S.Counts (b.set y s) w := by
  intro x
  rw [h x]
  by_cases hxy : x = y
  · rw [hxy, Board.standing_set_self, started]
  · rw [Board.standing_set_of_ne hxy]

/-- Relays are accounted for by the listeners, the fan-ins and the names of cells. -/
theorem Setting.Relays.congr (h : S.Relays b due w)
    (hcells : ∀ c, (w'.cell c).listeners = (w.cell c).listeners)
    (hcounts : ∀ f, relayCount f w'.listeners = relayCount f w.listeners)
    (hfanIns : w'.fanIns = w.fanIns) (hnames : w'.names.cells = w.names.cells) :
    S.Relays b due w' := by
  have hfanIn (f : FanInId) : w'.fanIn f = w.fanIn f := by
    rw [World.fanIn, hfanIns]
    rfl
  have hsignals (f : FanInId) : w'.signals due f = w.signals due f := by
    rw [World.signals, World.signals, hcounts]
  have hears {f : FanInId} {x : String} (hx : S.Hears b w f x) : S.Hears b w' f x := by
    rw [Hears, hfanIn]
    exact hx
  refine ⟨fun x hx s hs => ?_, fun s o hs => ?_, fun y t f hy => ?_, fun f hf => ?_⟩
  · rw [hcells] at hs
    obtain ⟨f, hrelay, hhears⟩ := h.heard x hx s hs
    exact ⟨f, hrelay, hears hhears⟩
  · obtain ⟨f, hrelay, hold⟩ := h.told s o hs
    rw [← hfanIn] at hold
    exact ⟨f, hrelay, hold⟩
  · obtain ⟨there, rule, positive, named, heeds, covered⟩ := h.joins y t f hy
    constructor
    case there => exact hfanIns ▸ there
    all_goals simp only [hfanIn, hsignals, hcells, hnames]
    case rule => exact rule
    case positive => exact positive
    case named => exact named
    case heeds => exact heeds
    case covered => exact covered
  · rw [hcounts]
    exact h.unheard f (hfanIns ▸ hf)

/-- A key that neither waited nor was done may start. -/
theorem Setting.Relays.set (h : S.Relays b due w) (hy : b.standing y ≠ .fresh) {s : Standing}
    (before : (b.standing y).hasAsked = false) (after : s.hasAsked = false) :
    S.Relays (b.set y s) due w := by
  -- Neither before nor after the change has the key asked for anything, so no relay depends on it.
  have same {z : String} (hz : (b.standing z).hasAsked = true) :
      (b.set y s).standing z = b.standing z := by
    rw [Board.standing_set_of_ne]
    rintro rfl
    rw [before] at hz
    cases hz
  have waits {z : String} {t : Token} {f : FanInId} (hz : b.standing z = .waiting t f) :
      (b.set y s).standing z = .waiting t f := (same (by rw [hz]; rfl)).trans hz
  have done {z : String} {o : Outcome} (hz : b.standing z = .done o) :
      (b.set y s).standing z = .done o := (same (by rw [hz]; rfl)).trans hz
  refine ⟨fun x hx s' hs => ?_, fun s' o hs => ?_, fun z t f hz => ?_, h.unheard⟩
  · obtain ⟨f, hrelay, hhears⟩ := h.heard x (Board.not_fresh_of_set hy hx) s' hs
    refine ⟨f, hrelay, hhears.imp_right ?_⟩
    rintro ⟨z, t, hz, hneeds⟩
    exact ⟨z, t, waits hz, hneeds⟩
  · obtain ⟨f, hrelay, hold⟩ := h.told s' o hs
    refine ⟨f, hrelay, hold.imp_right ?_⟩
    rintro ⟨z, t, x, hz, hneeds, hx⟩
    exact ⟨z, t, x, waits hz, hneeds, done hx⟩
  · obtain ⟨-, hz⟩ := Board.standing_of_set hz fun heq => by
      rw [heq] at after
      cases after
    obtain ⟨there, rule, positive, named, heeds, covered⟩ := h.joins z t f hz
    refine ⟨there, rule, positive, named, heeds, fun d hd => (covered d hd).imp_left ?_⟩
    rintro ⟨v, hv⟩
    exact ⟨v, done hv⟩

/-- What the board does not say anything about does not matter. -/
theorem Setting.Tracks.congr (h : S.Tracks b due w) (cells : w'.cells = w.cells)
    (fanIns : w'.fanIns = w.fanIns) (contexts : w'.contexts = w.contexts)
    (providers : w'.providers = w.providers) (keys : w'.keys = w.keys)
    (names : w'.names.cells = w.names.cells)
    (log : ∀ x, w'.log.countP (Event.starts x) = w.log.countP (Event.starts x)) :
    S.Tracks b due w' where
  serves := h.serves.congr (h.serves.sound.of_cells_eq cells) keys contexts providers
  places := h.places.congr keys contexts (by rw [cells])
  shows := h.shows.congr cells
  agrees := h.agrees
  relays := by
    refine h.relays.congr (fun c => ?_) (fun f => ?_) fanIns names
    · rw [World.cell, cells]
      rfl
    · rw [World.listeners, cells]
      rfl
  counts x := (log x).trans (h.counts x)

/-- An event that starts none of the nodes may be noted. -/
theorem Setting.Tracks.note (h : S.Tracks b due w) (e : Event) (other : ∀ x, e.starts x = false) :
    S.Tracks b due (w.note e) := by
  refine h.congr rfl rfl rfl rfl rfl rfl fun x => ?_
  show (e :: w.log).countP _ = _
  rw [List.countP_cons_of_neg]
  rw [other]
  exact Bool.false_ne_true

/-! ## Completing a cell

The one change that moves signals from what is registered to what is due. The accounts of all fan-ins stay
even, because the two are counted together.
-/

section Finish

/-- What completing a cell does to the signals of a fan-in: they are due instead of registered. -/
theorem World.signals_completed (w : World) (due : List Due) (o : Outcome) (hc : c < w.cells.size)
    (f : FanInId) :
    (w.setCell c ((w.cell c).completed o)).signals
        ((w.cell c).listeners.toList.map (.told · o) ++ due) f = w.signals due f ∧
      relayCount f (w.setCell c ((w.cell c).completed o)).listeners ≤ relayCount f w.listeners := by
  obtain ⟨rest, hbefore, hafter⟩ := World.perm_listeners_setCell hc
  have hbefore := hbefore.countP_eq fun s => s.listener.relays f
  have hafter := (hafter ((w.cell c).completed o)).countP_eq fun s => s.listener.relays f
  have hnone : ((w.cell c).completed o).listeners.toList = [] := AppendList.toList_blank
  rw [hnone, List.nil_append] at hafter
  rw [List.countP_append] at hbefore
  have hmap : ((w.cell c).listeners.toList.map (Due.told · o)).countP (Due.isFor f) =
      (w.cell c).listeners.toList.countP fun s => s.listener.relays f := List.countP_map ..
  simp only [World.signals, relayCount, List.countP_append, hmap]
  omega

variable (h : S.Tracks b due w) (hy : b.standing y ≠ .fresh)
  (unsettled : (b.standing y).outcome? = none)

/-- Completing the cell of a key leaves the cells of the others as they are. -/
theorem Setting.Tracks.cell_completed_of_ne (h : S.Tracks b due w) (hy : b.standing y ≠ .fresh)
    (hx : b.standing x ≠ .fresh) (hne : x ≠ y) :
    (w.setCell (b.cell y) ((w.cell (b.cell y)).completed o)).cell (b.cell x) =
      w.cell (b.cell x) :=
  World.cell_setCell_of_ne (h.places.cell_ne hy hx (Ne.symm hne))

theorem Setting.Tracks.cell_completed (h : S.Tracks b due w) (hy : b.standing y ≠ .fresh) :
    (w.setCell (b.cell y) ((w.cell (b.cell y)).completed o)).cell (b.cell y) =
      (w.cell (b.cell y)).completed o :=
  World.cell_setCell_self (h.places.held y hy).2.2

include h hy unsettled

/-- When a cell is completed its listeners move to what is due, and the accounts of all fan-ins stay even.
-/
theorem Setting.Tracks.relays_finish (awaits : (b.standing y).isWaiting = false) :
    S.Relays (b.set y (.done o))
      ((w.cell (b.cell y)).listeners.toList.map (.told · o) ++ due)
      (w.setCell (b.cell y) ((w.cell (b.cell y)).completed o)) := by
  have there := (h.places.held y hy).2.2
  have hsignals (f : FanInId) := w.signals_completed due o there f
  have still {x : String} (hx : (b.set y (.done o)).standing x ≠ .fresh) :
      b.standing x ≠ .fresh := Board.not_fresh_of_set hy hx
  have waits {z : String} {t : Token} {f : FanInId} (hz : b.standing z = .waiting t f) :
      (b.set y (.done o)).standing z = .waiting t f :=
    Board.standing_set_of_standing hz fun heq => by
      rw [heq] at awaits
      cases awaits
  have hears {f : FanInId} {x : String} (hx : S.Hears b w f x) : S.Hears (b.set y (.done o))
      (w.setCell (b.cell y) ((w.cell (b.cell y)).completed o)) f x := by
    refine hx.imp_right ?_
    rintro ⟨z, t, hz, hneeds⟩
    exact ⟨z, t, waits hz, hneeds⟩
  constructor
  case heard =>
      intro x hx s hs
      by_cases hxy : x = y
      · -- Nobody is left to be told by the completed cell.
        rw [hxy, Board.cell_set, h.cell_completed hy] at hs
        have hnone : ((w.cell (b.cell y)).completed o).listeners.toList = [] :=
          AppendList.toList_blank
        rw [hnone] at hs
        cases hs
      · rw [Board.cell_set, h.cell_completed_of_ne hy (still hx) hxy] at hs
        obtain ⟨f, hrelay, hhears⟩ := h.relays.heard x (still hx) s hs
        exact ⟨f, hrelay, hears hhears⟩
  case told =>
      intro s o' hs
      rcases List.mem_append.mp hs with hs | hs
      · obtain ⟨s', hs', heq⟩ := List.mem_map.mp hs
        cases heq
        obtain ⟨f, hrelay, hhears⟩ := h.relays.heard y hy s hs'
        refine ⟨f, hrelay, (hears hhears).imp_right ?_⟩
        rintro ⟨z, t, hz, hneeds⟩
        exact ⟨z, t, y, hz, hneeds, Board.standing_set_self⟩
      · obtain ⟨f, hrelay, hold⟩ := h.relays.told s o' hs
        refine ⟨f, hrelay, hold.imp_right ?_⟩
        rintro ⟨z, t, x, hz, hneeds, hx⟩
        refine ⟨z, t, x, waits hz, hneeds, Board.standing_set_of_standing hx fun heq => ?_⟩
        rw [heq] at unsettled
        cases unsettled
  case joins =>
      intro z t f hz
      obtain ⟨-, hz⟩ := Board.standing_of_set hz nofun
      obtain ⟨hf, rule, positive, named, heeds, covered⟩ := h.relays.joins z t f hz
      refine ⟨hf, ?_, ?_, named, fun c s hs => ?_, fun d hd => ?_⟩
      · rw [(hsignals f).1]
        exact rule
      · rw [(hsignals f).1]
        exact positive
      · rw [World.cell_setCell] at hs
        split at hs
        · cases hs
        · exact heeds c s hs
      · have hdf : b.standing d ≠ .fresh := h.agrees.asked z (by rw [hz]; rfl) d hd
        have elsewhere (hd : ∃ s ∈ (w.cell (b.cell d)).listeners.toList, s.listener = .relay f)
            (hdy : d ≠ y) : ∃ s ∈ ((w.setCell (b.cell y) ((w.cell (b.cell y)).completed o)).cell
              (b.cell d)).listeners.toList, s.listener = .relay f := by
          rwa [h.cell_completed_of_ne hy hdf hdy]
        by_cases hdy : d = y
        · subst hdy
          rcases covered d hd with ⟨v, hv⟩ | ⟨s, hs, hrelay⟩ | ⟨s, e, hs, hrelay⟩ | ⟨cells, hs, hmem⟩
          · rw [hv] at unsettled
            cases unsettled
          · cases o with
            | ok v => exact .inl ⟨v, Board.standing_set_self⟩
            | error e =>
                refine .inr (.inr (.inl ⟨s, e, List.mem_append_left _ ?_, hrelay⟩))
                exact List.mem_map.mpr ⟨s, hs, rfl⟩
          · exact .inr (.inr (.inl ⟨s, e, List.mem_append_right _ hs, hrelay⟩))
          · exact .inr (.inr (.inr ⟨cells, List.mem_append_right _ hs, hmem⟩))
        · rcases covered d hd with ⟨v, hv⟩ | hs | ⟨s, e, hs, hrelay⟩ | ⟨cells, hs, hmem⟩
          · refine .inl ⟨v, ?_⟩
            rw [Board.standing_set_of_ne hdy, hv]
          · exact .inr (.inl (elsewhere hs hdy))
          · exact .inr (.inr (.inl ⟨s, e, List.mem_append_right _ hs, hrelay⟩))
          · exact .inr (.inr (.inr ⟨cells, List.mem_append_right _ hs, hmem⟩))
  case unheard =>
      intro f hf
      have := h.relays.unheard f hf
      have := (hsignals f).2
      omega

/-- A key is done when its cell is completed; its listeners are due then. -/
theorem Setting.Tracks.finish (awaits : (b.standing y).isWaiting = false)
    (yields : S.graph.Yields y o) (asked : ∀ d, S.graph.Needs y d → b.standing d ≠ .fresh)
    (started : (b.standing y).hasStarted = true ∨ (S.graph.rule y).body? = none) :
    S.Tracks (b.set y (.done o)) ((w.cell (b.cell y)).listeners.toList.map (.told · o) ++ due)
      (w.setCell (b.cell y) ((w.cell (b.cell y)).completed o)) := by
  have still {x : String} (hx : (b.set y (.done o)).standing x ≠ .fresh) :
      b.standing x ≠ .fresh := Board.not_fresh_of_set hy hx
  have present {x : String} (hx : b.standing x ≠ .fresh) :
      (b.set y (.done o)).standing x ≠ .fresh := Board.not_fresh_set nofun hx
  constructor
  case serves =>
      exact h.serves.congr (h.serves.sound.setCell _ (Cell.sound_completed _ o)) rfl rfl rfl
  case places =>
      have hplaces : S.Places (b.set y (.done o)) w := h.places.set hy nofun
      exact hplaces.congr rfl rfl (Arena.size_set w.cells _ _)
  case shows =>
      refine ⟨fun x hx => ?_, fun x o' hx => ?_, fun x hx => ?_⟩
      · by_cases hxy : x = y
        · rw [hxy, Board.cell_set, h.cell_completed hy, Cell.peek_completed, Board.standing_set_self]
          rfl
        · rw [Board.cell_set, h.cell_completed_of_ne hy (still hx) hxy, h.shows.peek x (still hx),
            Board.standing_set_of_ne hxy]
      · by_cases hxy : x = y
        · rw [hxy, Board.standing_set_self] at hx
          cases hx
        · rw [Board.standing_set_of_ne hxy] at hx
          have hfresh : b.standing x ≠ .fresh := fun heq => by
            rw [heq] at hx
            cases hx
          rw [Board.cell_set, h.cell_completed_of_ne hy hfresh hxy]
          exact h.shows.owner x o' hx
      · by_cases hxy : x = y
        · rw [hxy, Board.cell_set, h.cell_completed hy]
          rfl
        · rw [Board.cell_set, h.cell_completed_of_ne hy (still hx) hxy]
          exact h.shows.revokee x (still hx)
  -- The outcome is the one that the graph gives the key, and all that it needs has been asked for.
  case agrees =>
      refine ⟨fun x o' hx => ?_, fun x hx d hd => present ?_⟩
      · by_cases hxy : x = y
        · rw [hxy, Board.standing_set_self] at hx
          cases hx
          exact hxy ▸ yields
        · rw [Board.standing_set_of_ne hxy] at hx
          exact h.agrees.yields x o' hx
      · by_cases hxy : x = y
        · exact asked d (hxy ▸ hd)
        · rw [Board.standing_set_of_ne hxy] at hx
          exact h.agrees.asked x hx d hd
  case relays => exact h.relays_finish hy unsettled awaits
  case counts =>
      intro x
      have hx := h.counts x
      by_cases hxy : x = y
      · subst hxy
        rw [Board.standing_set_self]
        rcases started with hstarted | hnone
        · rw [hstarted] at hx
          exact hx
        · rw [hnone, Option.isSome_none, Bool.and_false] at hx ⊢
          exact hx
      · rw [Board.standing_set_of_ne hxy]
        exact hx

end Finish

end RequestGraph
