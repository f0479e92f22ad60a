import RequestGraph.Proofs.Graph.Changes

/-!
# Signals to the fan-ins of a graph

A fan-in that is signalled counts, and its node waits on, unless the signal settles it. Then the node is
running again, and there is a reason for it: all its dependencies have succeeded, or one has failed.
-/

namespace RequestGraph

variable {S : Setting} {b : Board} {due : List Due} {item : Due} {w : World} {x y z : String}
  {f f' : FanInId} {o : Outcome} {t t' : Token} {c : CellId}

/-- Whether a signal says that a cell has succeeded, or that there is nothing left to watch. -/
def Due.isQuiet : Due → Bool
  | .told _ (.ok _) => true
  | .setup _ [] => true
  | _ => false

/-- What a signal passes on of what is due: an error, or only that there is none. -/
def Due.Tells (item : Due) : Option Error → Prop
  | none => item.isQuiet = true
  | some e => ∃ s, item = .told s (.error e)

/-- What is due to one fan-in only. -/
def Due.Only (item : Due) (f : FanInId) : Prop := ∀ f', item.isFor f' = true ↔ f' = f

/-- A signal that is to be told is for its fan-in only. -/
theorem Due.only_told {s : Subscription} (relay : s.listener = .relay f) :
    (Due.told s o).Only f := by
  intro f'
  show s.listener.relays f' = true ↔ _
  rw [relay, Listener.relays_iff]
  constructor
  · intro h
    cases h
    rfl
  · rintro rfl
    rfl

theorem Due.only_setup {cells : List CellId} : (Due.setup f cells).Only f := by
  intro f'
  show decide (f = f') = true ↔ _
  rw [decide_eq_true_iff]
  exact eq_comm

/-- Reading a fan-in after one was replaced. -/
theorem World.fanIn_setFanIn (w : World) (f f' : FanInId) (x : FanIn Continuation) :
    (w.setFanIn f x).fanIn f' = if f = f' ∧ f < w.fanIns.size then x else w.fanIn f' :=
  Arena.get_set w.fanIns f f' x

/-- One more item for a fan-in is one more signal to it. -/
theorem World.signals_cons_self (w : World) (due : List Due) (only : item.Only f) :
    w.signals (item :: due) f = w.signals due f + 1 := by
  rw [signals, signals, List.countP_cons, if_pos ((only f).mpr rfl), Nat.add_assoc]

/-- An item for one fan-in is no signal to another. -/
theorem World.signals_cons_of_ne (w : World) (due : List Due) (only : item.Only f) {f' : FanInId}
    (h : f' ≠ f) :
    w.signals (item :: due) f' = w.signals due f' := by
  rw [signals, signals, List.countP_cons, if_neg fun hf => h ((only f').mp hf), Nat.add_zero]

namespace Setting

/-- Why a node goes on: all its dependencies have succeeded, or one of them has failed. -/
def Decides (S : Setting) (b : Board) (y : String) : Option Error → Prop
  | none => ∀ d, S.graph.Needs y d → (b.standing d).HasSucceeded
  | some e => ∃ d, S.graph.Needs y d ∧ b.standing d = .done (.error e)

/-- A fan-in is that of one node only. -/
theorem Tracks.waiting_unique (h : S.Tracks b due w) (hy : b.standing y = .waiting t f)
    (hz : b.standing z = .waiting t' f) : z = y := by
  obtain ⟨_, _, -, hfy⟩ := (h.relays.joins y t f hy).rule
  obtain ⟨_, _, -, hfz⟩ := (h.relays.joins z t' f hz).rule
  -- The continuation of a fan-in has the claim of its node.
  obtain ⟨-, -, hcontinuation⟩ := FanIn.mk.inj (hfz.symm.trans hfy)
  obtain ⟨-, -, -, hscope⟩ := Continuation.user.inj (Option.some.inj hcontinuation)
  have hclaim := Option.some.inj (congrArg Scope.claim hscope)
  have hnot {x : String} {t : Token} (hx : b.standing x = .waiting t f) : b.standing x ≠ .fresh := by
    rw [hx]
    exact nofun
  exact h.places.apart z y (hnot hz) (hnot hy) (Claim.mk.inj hclaim).1

/-- Replacing a fan-in leaves all but the relays as it was. -/
theorem Tracks.of_relays {due' : List Due} {x : FanIn Continuation} (h : S.Tracks b due w)
    (relays : S.Relays b due' (w.setFanIn f x)) : S.Tracks b due' (w.setFanIn f x) where
  serves := h.serves.congr h.serves.sound rfl rfl rfl
  places := h.places.congr rfl rfl rfl
  shows := h.shows.congr rfl
  agrees := h.agrees
  relays := relays
  counts := h.counts

/-- What is due to other fan-ins only does not matter to a node that waits. -/
theorem Joins.of_ne {b' : Board} {x : FanIn Continuation} (h : S.Joins b (item :: due) w z t' f')
    (only : item.Only f) (hff : f' ≠ f) (cell : b'.cell = b.cell)
    (succeeded : ∀ d, (b.standing d).HasSucceeded → (b'.standing d).HasSucceeded) :
    S.Joins b' due (w.setFanIn f x) z t' f' := by
  obtain ⟨there, ⟨deps, fn, rule, hfanIn⟩, positive, named, heeds, covered⟩ := h
  have hsame : (w.setFanIn f x).fanIn f' = w.fanIn f' := Arena.get_set_of_ne hff.symm
  have hsignals := World.signals_cons_of_ne w due only hff
  refine ⟨by rwa [World.setFanIn, Arena.size_set], ⟨deps, fn, rule, ?_⟩, ?_, cell ▸ named,
    cell ▸ heeds, fun d hd => ?_⟩
  · rw [hsame, hfanIn, hsignals, cell]
    rfl
  · rw [hsignals] at positive
    exact positive
  · rw [cell]
    refine (covered d hd).imp (succeeded d) fun hd => hd.imp_right ?_
    rintro (⟨s, e, hs, hrelay⟩ | ⟨cells, hs, hmem⟩)
    · rcases List.mem_cons.mp hs with rfl | hs
      · exact absurd ((only f').mp (Listener.relays_iff.mpr hrelay)) hff
      · exact .inl ⟨s, e, hs, hrelay⟩
    · rcases List.mem_cons.mp hs with rfl | hs
      · exact absurd ((only f').mp (decide_eq_true rfl)) hff
      · exact .inr ⟨cells, hs, hmem⟩

/-! ## Counting

A signal that does not settle the fan-in only counts. The node goes on waiting, or has gone on before
because of a failure.
-/

/-- A fan-in that a signal does not settle goes on waiting, or has failed before. -/
theorem Tracks.count (h : S.Tracks b (item :: due) w) (only : item.Only f)
    {x : FanIn Continuation} (failed : x.failed = (w.fanIn f).failed)
    (continuation : x.continuation = (w.fanIn f).continuation)
    (counted : (w.fanIn f).failed = false → x.remaining = (w.fanIn f).remaining - 1 ∧
      (w.fanIn f).remaining ≠ 1 ∧ item.isQuiet = true) : S.Tracks b due (w.setFanIn f x) := by
  apply h.of_relays
  have hfailed (f' : FanInId) : ((w.setFanIn f x).fanIn f').failed = (w.fanIn f').failed := by
    rw [World.fanIn_setFanIn]
    split
    · next heq => rw [← heq.1, failed]
    · rfl
  have hears {f' : FanInId} {z : String} (hz : S.Hears b w f' z) :
      S.Hears b (w.setFanIn f x) f' z := by
    rw [Hears, hfailed]
    exact hz
  constructor
  case heard =>
      intro z hz s hs
      obtain ⟨f', hrelay, hhears⟩ := h.relays.heard z hz s hs
      exact ⟨f', hrelay, hears hhears⟩
  case told =>
      intro s o hs
      obtain ⟨f', hrelay, hold⟩ := h.relays.told s o (List.mem_cons_of_mem _ hs)
      rw [← hfailed] at hold
      exact ⟨f', hrelay, hold⟩
  case joins =>
      intro z t f' hz
      obtain ⟨hf, ⟨deps, fn, hrule, hfanIn⟩, positive, named, heeds, covered⟩ :=
        h.relays.joins z t f' hz
      have alive : (w.fanIn f').failed = false := by rw [hfanIn]
      -- One signal less is to come to the fan-in that is told; all others do not notice.
      by_cases hff : f' = f
      · subst hff
        obtain ⟨hremaining, hearly, hquiet⟩ := counted alive
        have hsignals : (w.fanIn f').remaining = w.signals due f' + 1 := by
          rw [hfanIn, World.signals_cons_self w due only]
        refine ⟨by rw [World.setFanIn, Arena.size_set]; exact hf, ⟨deps, fn, hrule, ?_⟩, ?_, named,
          heeds, fun d hd => ?_⟩
        · rw [World.fanIn_setFanIn, if_pos ⟨rfl, hf⟩]
          obtain ⟨remaining, failed', continuation'⟩ := x
          rw [hsignals] at hremaining
          rw [hfanIn] at failed continuation
          obtain rfl : remaining = w.signals due f' := hremaining
          obtain rfl : failed' = false := failed
          obtain rfl : continuation' = _ := continuation
          rfl
        · show 0 < w.signals due f'
          omega
        · refine (covered d hd).imp_right fun hd => hd.imp_right ?_
          rintro (⟨s, e, hs, hrelay⟩ | ⟨cells, hs, hmem⟩)
          · rcases List.mem_cons.mp hs with rfl | hs
            · cases hquiet
            · exact .inl ⟨s, e, hs, hrelay⟩
          · rcases List.mem_cons.mp hs with rfl | hs
            · cases cells with
              | nil => cases hmem
              | cons _ _ => cases hquiet
            · exact .inr ⟨cells, hs, hmem⟩
      · exact (h.relays.joins z t f' hz).of_ne only hff rfl fun d => id
  case unheard =>
      intro f' hf'
      rw [World.setFanIn, Arena.size_set] at hf'
      exact h.relays.unheard f' hf'

/-! ## Settling

When the last signal comes, no cell has another listener for the fan-in, and nothing else is due to it. So
either the signal has brought an error, or all dependencies have succeeded.
-/

/-- When the last signal is delivered, no cell and nothing due has another one for the fan-in. -/
theorem Tracks.listeners_eq_zero (h : S.Tracks b (item :: due) w) (only : item.Only f)
    (hy : b.standing y = .waiting t f) (last : (w.fanIn f).remaining = 1) :
    relayCount f w.listeners = 0 ∧ due.countP (Due.isFor f) = 0 := by
  obtain ⟨-, ⟨deps, fn, -, hfanIn⟩, -⟩ := h.relays.joins y t f hy
  have hsignals := World.signals_cons_self w due only
  rw [hfanIn] at last
  have last : w.signals (item :: due) f = 1 := last
  rw [hsignals, World.signals] at last
  omega

/-- A signal that settles a fan-in has a reason. -/
theorem Tracks.decides (h : S.Tracks b (item :: due) w) (only : item.Only f)
    (hy : b.standing y = .waiting t f) {failure : Option Error}
    (tells : item.Tells failure) (last : failure = none → (w.fanIn f).remaining = 1) :
    S.Decides b y failure := by
  obtain ⟨-, ⟨deps, fn, -, hfanIn⟩, -, -, -, covered⟩ := h.relays.joins y t f hy
  cases failure with
  | some e =>
      obtain ⟨s, rfl⟩ := tells
      obtain ⟨f', hrelay, hold⟩ := h.relays.told s _ List.mem_cons_self
      obtain rfl : f' = f := (only f').mp (Listener.relays_iff.mpr hrelay)
      rcases hold with hfailed | ⟨z, t', x, hz, hneeds, hx⟩
      · rw [hfanIn] at hfailed
        cases hfailed
      · rw [h.waiting_unique hy hz] at hneeds
        exact ⟨x, hneeds, hx⟩
  | none =>
      have hquiet : item.isQuiet = true := tells
      obtain ⟨hlisteners, hdue⟩ := h.listeners_eq_zero only hy (last rfl)
      intro d hd
      -- No listener is left and nothing else is due, so all dependencies have succeeded.
      rcases covered d hd with hd | ⟨s, hs, hrelay⟩ | ⟨s, e, hs, hrelay⟩ | ⟨cells, hs, hmem⟩
      · exact hd
      · have := List.countP_eq_zero.mp hlisteners s (World.mem_listeners hs)
        exact absurd (Listener.relays_iff.mpr hrelay) this
      · rcases List.mem_cons.mp hs with rfl | hs
        · cases hquiet
        · exact absurd (Listener.relays_iff.mpr hrelay) (List.countP_eq_zero.mp hdue _ hs)
      · rcases List.mem_cons.mp hs with rfl | hs
        · cases cells with
          | nil => cases hmem
          | cons _ _ => cases hquiet
        · exact absurd (decide_eq_true rfl) (List.countP_eq_zero.mp hdue _ hs)

/-- The node of a fan-in that a signal settles is running again. -/
theorem Tracks.settle (h : S.Tracks b (item :: due) w) (only : item.Only f)
    (hy : b.standing y = .waiting t f) {failure : Option Error}
    (last : failure = none → (w.fanIn f).remaining = 1) :
    S.Tracks (b.set y (.running t)) due (w.setFanIn f ((w.fanIn f).firedBy failure)) := by
  obtain ⟨there, ⟨deps, fn, hrule, hfanIn⟩, -⟩ := h.relays.joins y t f hy
  have hfresh : b.standing y ≠ .fresh := by
    rw [hy]
    exact nofun
  have hshows := h.shows.set hfresh (s := .running t) (by rw [hy]; rfl) (by rw [hy]; exact fun o => id)
  have hfired : (w.setFanIn f ((w.fanIn f).firedBy failure)).fanIn f =
      (w.fanIn f).firedBy failure :=
    Arena.get_set_self there
  have hsame {f' : FanInId} (hff : f' ≠ f) :
      (w.setFanIn f ((w.fanIn f).firedBy failure)).fanIn f' = w.fanIn f' :=
    Arena.get_set_of_ne hff.symm
  -- Whoever is still to be told to the fan-in, tells it in vain.
  have vain (left : failure = none → False) :
      ((w.setFanIn f ((w.fanIn f).firedBy failure)).fanIn f).failed = true := by
    rw [hfired]
    cases failure with
    | none => exact (left rfl).elim
    | some e => rfl
  have hfailed {f' : FanInId} (hf' : (w.fanIn f').failed = true) :
      ((w.setFanIn f ((w.fanIn f).firedBy failure)).fanIn f').failed = true := by
    rw [hsame, hf']
    rintro rfl
    rw [hfanIn] at hf'
    cases hf'
  have waits {z : String} {t' : Token} {f' : FanInId} (hz : b.standing z = .waiting t' f')
      (hzy : z ≠ y) : (b.set y (.running t)).standing z = .waiting t' f' := by
    rw [Board.standing_set_of_ne hzy, hz]
  have hplaces : S.Places (b.set y (.running t)) w := h.places.set hfresh nofun
  refine ⟨h.serves.congr h.serves.sound rfl rfl rfl, hplaces.congr rfl rfl rfl, hshows.congr rfl,
    h.agrees.set nofun rfl, ?_, ?_⟩
  · constructor
    case heard =>
        intro x hx s hs
        have hx : b.standing x ≠ .fresh := Board.not_fresh_of_set hfresh hx
        obtain ⟨f', hrelay, hhears⟩ := h.relays.heard x hx s hs
        refine ⟨f', hrelay, ?_⟩
        rcases hhears with hhears | ⟨z, t', hz, hneeds⟩
        · exact .inl (hfailed hhears)
        · by_cases hzy : z = y
          · subst hzy
            cases hy.symm.trans hz
            refine .inl (vain fun hnone => ?_)
            subst hnone
            have := (h.listeners_eq_zero only hy (last rfl)).1
            exact List.countP_eq_zero.mp this s (World.mem_listeners hs)
              (Listener.relays_iff.mpr hrelay)
          · exact .inr ⟨z, t', waits hz hzy, hneeds⟩
    case told =>
        intro s o hs
        obtain ⟨f', hrelay, hold⟩ := h.relays.told s o (List.mem_cons_of_mem _ hs)
        refine ⟨f', hrelay, ?_⟩
        rcases hold with hold | ⟨z, t', x, hz, hneeds, hx⟩
        · exact .inl (hfailed hold)
        · by_cases hzy : z = y
          · subst hzy
            cases hy.symm.trans hz
            refine .inl (vain fun hnone => ?_)
            subst hnone
            have := (h.listeners_eq_zero only hy (last rfl)).2
            exact List.countP_eq_zero.mp this _ hs (Listener.relays_iff.mpr hrelay)
          · exact .inr ⟨z, t', x, waits hz hzy, hneeds, Board.standing_set_of_standing hx (by simp [hy])⟩
    case joins =>
        intro z t' f' hz
        obtain ⟨hzy, hz⟩ := Board.standing_of_set hz nofun
        have hff : f' ≠ f := by
          rintro rfl
          exact hzy (h.waiting_unique hy hz)
        refine (h.relays.joins z t' f' hz).of_ne only hff rfl ?_
        rintro d ⟨v, hv⟩
        exact ⟨v, Board.standing_set_of_standing hv (by simp [hy])⟩
    case unheard =>
        intro f' hf'
        rw [World.setFanIn, Arena.size_set] at hf'
        exact h.relays.unheard f' hf'
  · exact h.counts.set (by rw [hy]; rfl)

end Setting

end RequestGraph
