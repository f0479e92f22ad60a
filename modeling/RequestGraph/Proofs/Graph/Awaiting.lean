import RequestGraph.Proofs.FanIn.Setup
import RequestGraph.Proofs.Graph.Cascade

/-!
# Awaiting dependencies

A node that has asked for all its dependencies awaits them. If one has failed or all have succeeded, it goes
on at once; otherwise its fan-in is set up, and registered with each cell that is pending. While that lasts,
no cell is completed.
-/

namespace RequestGraph

variable {S : Setting} {b b' : Board} {due : List Due} {w w' : World} {x y z d : String} {f f' : FanInId}
  {o : Outcome} {t : Token} {c : CellId} {cells rest : List CellId} {n : ℕ}

namespace World

theorem relayCount_relayed (sound : w.Sound) (hc : c < w.cells.size) (f f' : FanInId) :
    relayCount f' (w.relayed c f).listeners =
      relayCount f' w.listeners + if f = f' then 1 else 0 := by
  obtain ⟨others, hbefore, hafter⟩ := perm_listeners_setCell hc
  have hafter := (hafter ((w.cell c).listened ⟨w.freshTicket, .relay f⟩)).countP_eq
    fun s => s.listener.relays f'
  have hbefore := hbefore.countP_eq fun s => s.listener.relays f'
  rw [(sound c).toList_listened] at hafter
  have hafter : relayCount f' (w.relayed c f).listeners = _ := hafter
  rw [hafter, relayCount, hbefore]
  simp only [List.countP_append, List.countP_singleton, Listener.relays, decide_eq_true_iff]
  omega

/-- A fan-in that is registered has one signal more to come. -/
theorem signals_relayed (sound : w.Sound) (hc : c < w.cells.size) (f f' : FanInId)
    (rest : List CellId) (due : List Due) :
    (w.relayed c f).signals (.setup f rest :: due) f' =
      w.signals (.setup f (c :: rest) :: due) f' + if f = f' then 1 else 0 := by
  have hdue : (Due.setup f rest :: due).countP (Due.isFor f') =
      (Due.setup f (c :: rest) :: due).countP (Due.isFor f') := by
    rw [List.countP_cons, List.countP_cons]
    rfl
  rw [signals, signals, relayCount_relayed sound hc f f', hdue, Nat.add_right_comm]

theorem owner_relayed (c' : CellId) : ((w.relayed c f).cell c').owner = (w.cell c').owner := by
  rw [cell_relayed]
  split
  · next heq => exact heq.1 ▸ rfl
  · rfl

theorem revokee_relayed (c' : CellId) : ((w.relayed c f).cell c').revokee = (w.cell c').revokee := by
  rw [cell_relayed]
  split
  · next heq => exact heq.1 ▸ rfl
  · rfl

/-- Whoever listens goes on listening when a fan-in is registered. -/
theorem mem_listeners_relayed (sound : w.Sound) {c' : CellId} {s : Subscription}
    (h : s ∈ (w.cell c').listeners.toList) :
    s ∈ ((w.relayed c f).cell c').listeners.toList := by
  rw [cell_relayed]
  split
  · next heq =>
      rw [(sound c).toList_listened, heq.1]
      exact List.mem_append_left _ h
  · exact h

end World

namespace Setting

/-! ## Setting up a fan-in

One law for each step of a set-up: a fan-in is made, a cell that has succeeded is passed over, and one that
is pending gets a listener.
-/

/-- The fan-in of a node that is set up watches all dependencies of the node. -/
theorem Tracks.start (h : S.Tracks b [] w) (hy : b.standing y = .running t) {deps : List String}
    {fn : List Int64 → Int64} (rule : S.graph.rule y = .node deps fn)
    (named : ∀ d, S.graph.Needs y d → w.names.cells.get? d = some (b.cell d))
    (asked : ∀ d, S.graph.Needs y d → b.standing d ≠ .fresh)
    (covers : ∀ d, S.graph.Needs y d → b.cell d ∈ cells) :
    S.Tracks (b.set y (.waiting t w.fanIns.size)) [.setup w.fanIns.size cells]
      { w with fanIns := w.fanIns.push (.start (S.join deps fn ⟨b.cell y, t⟩)) } := by
  have hfresh : b.standing y ≠ .fresh := by
    rw [hy]
    exact nofun
  have hplaces : S.Places (b.set y (.waiting t w.fanIns.size)) w := h.places.set hfresh nofun
  have hshows := h.shows.set hfresh (s := .waiting t w.fanIns.size) (by rw [hy]; rfl)
    (by rw [hy]; exact fun o => id)
  have there {x : String} (hx : b.standing x ≠ .fresh) :
      (b.set y (.waiting t w.fanIns.size)).standing x ≠ .fresh := Board.not_fresh_set nofun hx
  have hold {f : FanInId} (hf : f < w.fanIns.size) :
      (w.fanIns.push (.start (S.join deps fn ⟨b.cell y, t⟩))).get f = w.fanIn f :=
    Arena.get_push_of_ne _ _ (Nat.ne_of_lt hf)
  have waits {z : String} {t' : Token} {f : FanInId} (hz : b.standing z = .waiting t' f) :
      (b.set y (.waiting t w.fanIns.size)).standing z = .waiting t' f :=
    Board.standing_set_of_standing hz (by simp [hy])
  refine ⟨h.serves.congr h.serves.sound rfl rfl rfl, hplaces.congr rfl rfl rfl, hshows.congr rfl,
    ?_, ?_, h.counts.set (by rw [hy]; rfl)⟩
  · refine ⟨fun x o hx => ?_, fun x hx d hd => there ?_⟩
    · by_cases hxy : x = y
      · rw [hxy, Board.standing_set_self] at hx
        cases hx
      · rw [Board.standing_set_of_ne hxy] at hx
        exact h.agrees.yields x o hx
    · by_cases hxy : x = y
      · exact asked d (hxy ▸ hd)
      · rw [Board.standing_set_of_ne hxy] at hx
        exact h.agrees.asked x hx d hd
  constructor
  case heard =>
      intro x hx s hs
      obtain ⟨f, hrelay, hhears⟩ := h.relays.heard x (Board.not_fresh_of_set hfresh hx) s hs
      -- A fan-in that is told something is there already.
      have hf : f < w.fanIns.size := by
        by_contra hf
        have := h.relays.unheard f (Nat.le_of_not_lt hf)
        exact List.countP_eq_zero.mp this s (World.mem_listeners hs) (Listener.relays_iff.mpr hrelay)
      refine ⟨f, hrelay, ?_⟩
      rcases hhears with hfailed | ⟨z, t', hz, hneeds⟩
      · exact .inl ((congrArg FanIn.failed (hold hf)).trans hfailed)
      · exact .inr ⟨z, t', waits hz, hneeds⟩
  case told =>
      intro s o hs
      cases List.mem_singleton.mp hs
  case joins =>
      intro z t' f hz
      by_cases hzy : z = y
      · subst hzy
        rw [Board.standing_set_self] at hz
        cases hz
        have hnone := h.relays.unheard w.fanIns.size (Nat.le_refl _)
        have hone : World.signals
            { w with fanIns := w.fanIns.push (.start (S.join deps fn ⟨b.cell z, t⟩)) }
              [.setup w.fanIns.size cells] w.fanIns.size = 1 := by
          have only : (Due.setup w.fanIns.size cells).Only w.fanIns.size := Due.only_setup
          exact (World.signals_cons_self w [] only).trans (by rw [World.signals, hnone]; rfl)
        refine ⟨?_, ⟨deps, fn, rule, ?_⟩, ?_, named, fun c s hs hrelay => ?_, fun d hd => ?_⟩
        · rw [Arena.size_push]
          exact Nat.lt_succ_self _
        · rw [hone]
          exact Arena.get_push_size ..
        · rw [hone]
          exact Nat.one_pos
        · have hlistens := List.countP_eq_zero.mp hnone s (World.mem_listeners hs)
          exact absurd (Listener.relays_iff.mpr hrelay) hlistens
        · exact .inr (.inr (.inr ⟨cells, List.mem_singleton_self _, covers d hd⟩))
      · rw [Board.standing_set_of_ne hzy] at hz
        obtain ⟨hf, ⟨deps', fn', hrule, hfanIn⟩, positive, hnamed, heeds, covered⟩ :=
          h.relays.joins z t' f hz
        have hsame : World.signals
            { w with fanIns := w.fanIns.push (.start (S.join deps fn ⟨b.cell y, t⟩)) }
              [.setup w.fanIns.size cells] f = w.signals [] f :=
          World.signals_cons_of_ne w [] Due.only_setup (Nat.ne_of_lt hf)
        refine ⟨?_, ⟨deps', fn', hrule, ?_⟩, ?_, hnamed, heeds, fun d hd => ?_⟩
        · rw [Arena.size_push]
          exact Nat.lt_succ_of_lt hf
        · rw [hsame]
          exact (hold hf).trans hfanIn
        · rw [hsame]
          exact positive
        · rcases covered d hd with ⟨v, hv⟩ | hs | ⟨s, e, hs, -⟩ | ⟨cells, hs, -⟩
          · exact .inl ⟨v, Board.standing_set_of_standing hv (by simp [hy])⟩
          · exact .inr (.inl hs)
          · cases hs
          · cases hs
  case unheard =>
      intro f hf
      rw [Arena.size_push] at hf
      exact h.relays.unheard f (Nat.le_of_succ_le hf)

/-- A dependency that has succeeded is not to be watched. -/
theorem Tracks.skip (h : S.Tracks b (.setup f (b.cell d :: rest) :: due) w)
    (there : b.standing d ≠ .fresh) (succeeded : (b.standing d).HasSucceeded) :
    S.Tracks b (.setup f rest :: due) w := by
  refine ⟨h.serves, h.places, h.shows, h.agrees, ?_, h.counts⟩
  refine ⟨h.relays.heard, fun s o hs => ?_, fun y t f' hy => ?_, h.relays.unheard⟩
  · rcases List.mem_cons.mp hs with heq | hs
    · cases heq
    · exact h.relays.told s o (List.mem_cons_of_mem _ hs)
  · obtain ⟨hf, hrule, positive, named, heeds, covered⟩ := h.relays.joins y t f' hy
    refine ⟨hf, hrule, positive, named, heeds, fun d' hd' => ?_⟩
    rcases covered d' hd' with hd' | hs | ⟨s, e, hs, hrelay⟩ | ⟨cells, hs, hmem⟩
    · exact .inl hd'
    · exact .inr (.inl hs)
    · rcases List.mem_cons.mp hs with heq | hs
      · cases heq
      · exact .inr (.inr (.inl ⟨s, e, List.mem_cons_of_mem _ hs, hrelay⟩))
    · rcases List.mem_cons.mp hs with heq | hs
      · cases heq
        rcases List.mem_cons.mp hmem with heq | hmem
        · -- The cell that is skipped is that of one key only.
          have hfresh := h.agrees.asked y (by rw [hy]; rfl) d' hd'
          rw [h.places.apart d' d hfresh there heq]
          exact .inl succeeded
        · exact .inr (.inr (.inr ⟨rest, List.mem_cons_self, hmem⟩))
      · exact .inr (.inr (.inr ⟨cells, List.mem_cons_of_mem _ hs, hmem⟩))

/-- A fan-in is registered with a dependency that is pending. -/
theorem Tracks.register (h : S.Tracks b (.setup f (b.cell d :: rest) :: due) w)
    (hy : b.standing y = .waiting t f) (hd : S.graph.Needs y d)
    (pending : (b.standing d).outcome? = none) :
    S.Tracks b (.setup f rest :: due) (w.relayed (b.cell d) f) := by
  have there : b.standing d ≠ .fresh := h.agrees.asked y (by rw [hy]; rfl) d hd
  have hsize := (h.places.held d there).2.2
  have unrealized := h.shows.pending h.serves.sound there pending
  have hjoins := h.relays.joins y t f hy
  have hsignals (f' : FanInId) := World.signals_relayed h.serves.sound hsize f f' rest due
  refine ⟨h.serves.congr (h.serves.sound.relayed unrealized f) rfl rfl rfl,
    h.places.congr rfl rfl (Arena.size_set ..), ?_, h.agrees, ?_, h.counts⟩
  · -- The cell shows what it showed before, to everybody but its listeners.
    exact ⟨fun x hx => (World.peek_relayed unrealized).trans (h.shows.peek x hx),
      fun x o hx => (World.owner_relayed _).trans (h.shows.owner x o hx),
      fun x hx => (World.revokee_relayed _).trans (h.shows.revokee x hx)⟩
  have hears {f' : FanInId} {x : String} (hx : S.Hears b w f' x) :
      S.Hears b (w.relayed (b.cell d) f) f' x := by
    rw [Hears, World.failed_relayed]
    exact hx
  constructor
  case heard =>
      intro x hx s hs
      rw [World.cell_relayed] at hs
      split at hs
      · next heq =>
          rw [(h.serves.sound _).toList_listened] at hs
          obtain rfl := h.places.apart d x there hx heq.1
          rcases List.mem_append.mp hs with hs | hs
          · obtain ⟨f', hrelay, hhears⟩ := h.relays.heard d hx s hs
            exact ⟨f', hrelay, hears hhears⟩
          · obtain rfl := List.mem_singleton.mp hs
            exact ⟨f, rfl, .inr ⟨y, t, hy, hd⟩⟩
      · obtain ⟨f', hrelay, hhears⟩ := h.relays.heard x hx s hs
        exact ⟨f', hrelay, hears hhears⟩
  case told =>
      intro s o hs
      rcases List.mem_cons.mp hs with heq | hs
      · cases heq
      · obtain ⟨f', hrelay, hold⟩ := h.relays.told s o (List.mem_cons_of_mem _ hs)
        rw [← World.failed_relayed] at hold
        exact ⟨f', hrelay, hold⟩
  case joins =>
      intro z t' f' hz
      obtain ⟨hf, ⟨deps, fn, hrule, hfanIn⟩, positive, named, heeds, covered⟩ :=
        h.relays.joins z t' f' hz
      refine ⟨by rw [World.relayed, Arena.size_set]; exact hf, ⟨deps, fn, hrule, ?_⟩, ?_, named,
        fun c s hs hrelay => ?_, fun d' hd' => ?_⟩
      · rw [World.fanIn_relayed, hsignals]
        by_cases hff : f = f'
        · subst hff
          rw [if_pos ⟨rfl, hf⟩, if_pos rfl, hfanIn]
          rfl
        · rw [if_neg fun heq => hff heq.1, if_neg hff, hfanIn]
          rfl
      · rw [hsignals]
        exact Nat.lt_of_lt_of_le positive (Nat.le_add_right ..)
      · rw [World.cell_relayed] at hs
        split at hs
        · next heq =>
            rw [(h.serves.sound _).toList_listened] at hs
            rcases List.mem_append.mp hs with hs | hs
            · exact heeds c s (heq.1 ▸ hs) hrelay
            · obtain rfl := List.mem_singleton.mp hs
              cases hrelay
              rw [h.waiting_unique hy hz]
              exact ⟨d, hd, heq.1.symm⟩
        · exact heeds c s hs hrelay
      · rcases covered d' hd' with hd' | ⟨s, hs, hrelay⟩ | ⟨s, e, hs, hrelay⟩ | ⟨cells, hs, hmem⟩
        · exact .inl hd'
        · exact .inr (.inl ⟨s, World.mem_listeners_relayed h.serves.sound hs, hrelay⟩)
        · rcases List.mem_cons.mp hs with heq | hs
          · cases heq
          · exact .inr (.inr (.inl ⟨s, e, List.mem_cons_of_mem _ hs, hrelay⟩))
        · rcases List.mem_cons.mp hs with heq | hs
          · cases heq
            rcases List.mem_cons.mp hmem with heq | hmem
            · refine .inr (.inl ⟨⟨w.freshTicket, .relay f⟩, ?_, rfl⟩)
              rw [heq, World.cell_relayed, if_pos ⟨rfl, hsize⟩, (h.serves.sound _).toList_listened]
              exact List.mem_append_right _ (List.mem_singleton_self _)
            · exact .inr (.inr (.inr ⟨rest, List.mem_cons_self, hmem⟩))
          · exact .inr (.inr (.inr ⟨cells, List.mem_cons_of_mem _ hs, hmem⟩))
  case unheard =>
      intro f' hf'
      rw [World.relayed, Arena.size_set] at hf'
      have hne : f ≠ f' := by
        rintro rfl
        exact absurd hjoins.there (Nat.not_lt_of_le hf')
      rw [World.relayCount_relayed h.serves.sound hsize f f', if_neg hne, h.relays.unheard f' hf']

/-! ## Awaiting

The cases are those of the call: a dependency has failed, all have succeeded, or a fan-in is made. In the
first two the node goes on before the call comes back.
-/

theorem Tracks.error?_cell (h : S.Tracks b due w) (there : b.standing d ≠ .fresh) {e : Error} :
    (w.cell (b.cell d)).error? = some e ↔ b.standing d = .done (.error e) := by
  rw [Cell.error?, h.shows.peek d there]
  cases hd : b.standing d with
  | done o => cases o <;> simp [Standing.outcome?]
  | _ => simp [Standing.outcome?]

theorem Tracks.hasSucceeded_iff (h : S.Tracks b due w) (there : b.standing d ≠ .fresh) :
    w.hasSucceeded (b.cell d) = true ↔ (b.standing d).HasSucceeded := by
  rw [World.hasSucceeded, Cell.value?, h.shows.peek d there, Standing.HasSucceeded]
  cases hd : b.standing d with
  | done o => cases o <;> simp [Standing.outcome?]
  | _ => simp [Standing.outcome?]

/-- A fan-in is registered with its cells, one after another, and then told that its set-up has ended. -/
theorem Tracks.watch_returns (h : S.Tracks b (.setup f cells :: due) w)
    (hy : b.standing y = .waiting t f)
    (watches : ∀ c ∈ cells, ∃ d, c = b.cell d ∧ S.graph.Needs y d ∧
      ∀ e, b.standing d ≠ .done (.error e)) :
    ∃ b' w', w.Returns (.watch f cells) w' .unit ∧ S.Tracks b' due w' ∧ Cascades b w b' w' := by
  induction cells generalizing w with
  -- The set-up itself is the last signal, and may settle the fan-in right here.
  | nil =>
      have tells : (Due.setup f []).Tells none := rfl
      obtain ⟨b', w', hreturns, hrest⟩ := Tracks.signal_returns h (S.delivers (S.waits b))
        (Nat.le_refl _) Due.only_setup (.inr ⟨y, t, hy⟩) tells
      exact ⟨b', w', .of_move (.call hreturns), hrest⟩
  | cons c rest ih =>
      obtain ⟨d, rfl, hd, calm⟩ := watches c List.mem_cons_self
      have watches (c : CellId) (hc : c ∈ rest) := watches c (List.mem_cons_of_mem _ hc)
      have there : b.standing d ≠ .fresh := h.agrees.asked y (by rw [hy]; rfl) d hd
      -- A dependency that has succeeded is skipped; the others are pending, as none has failed.
      by_cases succeeded : (b.standing d).HasSucceeded
      · obtain ⟨b', w', hreturns, hrest⟩ := ih (h.skip there succeeded) watches
        refine ⟨b', w', .of_move ?_, hrest⟩
        show (w.watch f (b.cell d :: rest)).Returns _ _
        rw [World.watch, if_pos ((h.hasSucceeded_iff there).mpr succeeded)]
        exact .call hreturns
      · have pending : (b.standing d).outcome? = none := by
          cases hstanding : b.standing d with
          | done o => cases o with
            | ok v => exact (succeeded ⟨v, hstanding⟩).elim
            | error e => exact (calm e hstanding).elim
          | _ => rfl
        obtain ⟨b', w', hreturns, htracks, hcascades⟩ := ih (h.register hy hd pending) watches
        refine ⟨b', w', .of_move ?_, htracks,
          ⟨hcascades.board, hcascades.thread, hcascades.executors, hcascades.names⟩⟩
        have alive : (w.fanIn f).failed = false := by
          obtain ⟨-, ⟨_, _, -, hfanIn⟩, -⟩ := h.relays.joins y t f hy
          rw [hfanIn]
        have hregisters : (w.setFanIn f (w.fanIn f).await).Returns (.subscribe (b.cell d) (.relay f))
            (w.relayed (b.cell d) f) .unit := by
          apply World.Returns.of_move
          have hpeek : ((w.setFanIn f (w.fanIn f).await).cell (b.cell d)).peek = none := by
            have hpeek := h.shows.peek d there
            rw [pending] at hpeek
            exact hpeek
          have sound : (w.setFanIn f (w.fanIn f).await).Sound := h.serves.sound
          show ((w.setFanIn f (w.fanIn f).await).subscribe (b.cell d) (.relay f)).Returns _ _
          rw [World.subscribe_eq sound, hpeek]
          exact .ret
        show (w.watch f (b.cell d :: rest)).Returns _ _
        rw [World.watch, if_neg fun hs => succeeded ((h.hasSucceeded_iff there).mp hs), alive]
        exact .above hregisters (.call hreturns)

/-- A node that awaits its dependencies waits for them, or is done at once. -/
theorem Tracks.await_returns (h : S.Tracks b [] w) (hy : b.standing y = .running t)
    {deps : List String} {fn : List Int64 → Int64} (rule : S.graph.rule y = .node deps fn)
    (named : ∀ d, S.graph.Needs y d → w.names.cells.get? d = some (b.cell d))
    (asked : ∀ d, S.graph.Needs y d → b.standing d ≠ .fresh) :
    ∃ b' w' s, w.Returns (.await (deps.map b.cell) (S.join deps fn ⟨b.cell y, t⟩)) w' .unit ∧
      S.Tracks b' [] w' ∧ s.hasAsked = true ∧ Cascades (b.set y s) w b' w' := by
  have conclude {failure : Option Error} (decides : S.Decides b y failure) :
      ∃ b' w' s, w.Returns (.conclude (S.join deps fn ⟨b.cell y, t⟩) failure) w' .unit ∧
        S.Tracks b' [] w' ∧ s.hasAsked = true ∧ Cascades (b.set y s) w b' w' := by
    obtain ⟨b', w', o, hreturns, htracks, hcascades⟩ :=
      h.conclude_returns (S.delivers _) (Nat.lt_succ_self _) hy rule named asked decides
    exact ⟨b', w', .done o, hreturns, htracks, rfl, hcascades⟩
  have needs {d : String} (hd : d ∈ deps) : S.graph.Needs y d := (Graph.needs_of_rule rule).mpr hd
  suffices ∃ b' w' s, (w.await (deps.map b.cell) (S.join deps fn ⟨b.cell y, t⟩)).Returns w' .unit ∧
      S.Tracks b' [] w' ∧ s.hasAsked = true ∧ Cascades (b.set y s) w b' w' by
    obtain ⟨b', w', s, hreturns, hrest⟩ := this
    exact ⟨b', w', s, .of_move hreturns, hrest⟩
  unfold World.await
  split
  · next e failed =>
      obtain ⟨c, hc, he⟩ := List.exists_of_findSome?_eq_some failed
      obtain ⟨d, hd, rfl⟩ := List.mem_map.mp (List.mem_reverse.mp hc)
      have hfailed := (h.error?_cell (asked d (needs hd))).mp he
      have decides : S.Decides b y (some e) := ⟨d, needs hd, hfailed⟩
      obtain ⟨b', w', s, hreturns, hrest⟩ := conclude decides
      exact ⟨b', w', s, .call hreturns, hrest⟩
  · next calm =>
      split
      · next succeeded =>
          have decides : S.Decides b y none := fun d hd => by
            refine (h.hasSucceeded_iff (asked d hd)).mp (List.all_eq_true.mp succeeded _ ?_)
            exact List.mem_map_of_mem ((Graph.needs_of_rule rule).mp hd)
          obtain ⟨b', w', s, hreturns, hrest⟩ := conclude decides
          exact ⟨b', w', s, .call hreturns, hrest⟩
      · have covers (d : String) (hd : S.graph.Needs y d) : b.cell d ∈ (deps.map b.cell).reverse :=
          List.mem_reverse.mpr (List.mem_map_of_mem ((Graph.needs_of_rule rule).mp hd))
        obtain ⟨b', w', hreturns, htracks, hcascades⟩ :=
          (h.start hy rule named asked covers).watch_returns Board.standing_set_self fun c hc => by
            obtain ⟨d, hd, rfl⟩ := List.mem_map.mp (List.mem_reverse.mp hc)
            refine ⟨d, rfl, needs hd, fun e he => ?_⟩
            have hdy : d ≠ y := by
              rintro rfl
              rw [Board.standing_set_self] at he
              cases he
            rw [Board.standing_set_of_ne hdy] at he
            -- None of the cells had failed.
            have hnone := List.findSome?_eq_none_iff.mp calm _ hc
            rw [(h.error?_cell (asked d (needs hd))).mpr he] at hnone
            cases hnone
        exact ⟨b', w', _, .call hreturns, htracks, rfl,
          ⟨hcascades.board, hcascades.thread, hcascades.executors, hcascades.names⟩⟩

end Setting

end RequestGraph
