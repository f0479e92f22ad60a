import RequestGraph.Proofs.Graph.Joining

/-!
# Cascades

When a cell of a graph is completed, the nodes that have waited for it may go on, complete their cells, and so
on. Each of them waits no more then, so the cascade comes to an end, and everybody is told on the way.
-/

namespace RequestGraph

variable {S : Setting} {b b' b'' : Board} {due : List Due} {item : Due} {w w' w'' : World}
  {x y : String} {f : FanInId} {o : Outcome} {t : Token} {n : ℕ}

/-- A cascade may only bring to their end keys whose nodes wait. -/
structure Board.Later (b b' : Board) : Prop where
  cell : b'.cell = b.cell
  standing : ∀ x, b'.standing x = b.standing x ∨
    (b.standing x).isWaiting = true ∧ ∃ o, b'.standing x = .done o

/-- What a cascade leaves as it was. -/
structure Cascades (b : Board) (w : World) (b' : Board) (w' : World) : Prop where
  board : b.Later b'
  thread : w'.thread = w.thread
  executors : w'.executors = w.executors
  names : w'.names = w.names

theorem Board.Later.refl (b : Board) : b.Later b := ⟨rfl, fun _ => .inl rfl⟩

/-- A cascade may come to a board in two parts. -/
theorem Board.Later.trans (h : b.Later b') (h' : b'.Later b'') : b.Later b'' := by
  refine ⟨h'.cell.trans h.cell, fun x => ?_⟩
  rcases h.standing x with hx | ⟨hwaits, o, hx⟩
  · rw [← hx]
    exact h'.standing x
  · rcases h'.standing x with hx' | ⟨hwaits', -⟩
    · exact .inr ⟨hwaits, o, hx'.trans hx⟩
    · rw [hx] at hwaits'
      cases hwaits'

theorem Cascades.refl (b : Board) (w : World) : Cascades b w b w := ⟨.refl b, rfl, rfl, rfl⟩

/-- Cascades are put one after the other. -/
theorem Cascades.trans (h : Cascades b w b' w') (h' : Cascades b' w' b'' w'') :
    Cascades b w b'' w'' :=
  ⟨h.board.trans h'.board, h'.thread.trans h.thread, h'.executors.trans h.executors,
    h'.names.trans h.names⟩

/-- A node that had waited and is done now has come to its end in a cascade. -/
theorem Board.Later.of_waiting (waits : (b.standing y).isWaiting = true)
    (h : (b.set y (.done o)).Later b') : b.Later b' := by
  refine ⟨h.cell, fun x => ?_⟩
  have hx := h.standing x
  by_cases hxy : x = y
  · subst hxy
    rw [Board.standing_set_self] at hx
    rcases hx with hx | ⟨hwaits, -⟩
    · exact .inr ⟨waits, o, hx⟩
    · cases hwaits
  · rwa [Board.standing_set_of_ne hxy] at hx

namespace Setting

/-- How many keys have come so far. -/
def count (S : Setting) (p : Standing → Bool) (b : Board) : ℕ :=
  (S.keys.filter fun x => p (b.standing x) = true).card

variable {p : Standing → Bool}

/-- If every key that has come so far now had done so before, there are no more of them. -/
theorem count_le (h : ∀ x, p (b'.standing x) = true → p (b.standing x) = true) :
    S.count p b' ≤ S.count p b := by
  apply Finset.card_le_card
  intro x hx
  obtain ⟨hmem, hx⟩ := Finset.mem_filter.mp hx
  exact Finset.mem_filter.mpr ⟨hmem, h x hx⟩

/-- If one key less has come so far, there are fewer of them. -/
theorem count_lt (h : ∀ x, p (b'.standing x) = true → p (b.standing x) = true) (hmem : y ∈ S.keys)
    (before : p (b.standing y) = true) (after : p (b'.standing y) = false) :
    S.count p b' < S.count p b := by
  apply Finset.card_lt_card
  refine Finset.ssubset_iff_of_subset (fun x hx => ?_) |>.mpr ⟨y, ?_, fun hy => ?_⟩
  · obtain ⟨hmem, hx⟩ := Finset.mem_filter.mp hx
    exact Finset.mem_filter.mpr ⟨hmem, h x hx⟩
  · exact Finset.mem_filter.mpr ⟨hmem, before⟩
  · rw [(Finset.mem_filter.mp hy).2] at after
    cases after

/-- How many nodes wait. -/
def waits (S : Setting) (b : Board) : ℕ := S.count Standing.isWaiting b

/-- A cascade makes no node wait. -/
theorem waits_later (h : b.Later b') : S.waits b' ≤ S.waits b := by
  refine count_le fun x hx => ?_
  rcases h.standing x with heq | ⟨hwaits, -⟩
  · rwa [heq] at hx
  · exact hwaits

/-- A node that still waits had waited before. -/
theorem isWaiting_of_set {s : Standing} (hs : s.isWaiting = false)
    (hx : ((b.set y s).standing x).isWaiting = true) : (b.standing x).isWaiting = true := by
  by_cases hxy : x = y
  · rw [hxy, Board.standing_set_self, hs] at hx
    cases hx
  · rwa [Board.standing_set_of_ne hxy] at hx

theorem waits_set_le {s : Standing} (hs : s.isWaiting = false) :
    S.waits (b.set y s) ≤ S.waits b := count_le fun _ hx => isWaiting_of_set hs hx

/-- A node that waits no longer leaves one node less that waits. -/
theorem waits_set_lt (hmem : y ∈ S.keys) (waits : (b.standing y).isWaiting = true) {s : Standing}
    (hs : s.isWaiting = false) : S.waits (b.set y s) < S.waits b := by
  refine count_lt (fun _ hx => isWaiting_of_set hs hx) hmem waits ?_
  rw [Board.standing_set_self, hs]

/-- While few nodes wait, all listeners of a completed cell can be told. -/
def Delivers (S : Setting) (n : ℕ) : Prop :=
  ∀ {b : Board} {due : List Due} {w : World} {ls : List Subscription} {o : Outcome},
    S.waits b < n → S.Tracks b (ls.map (.told · o) ++ due) w →
      ∃ b' w', w.Returns (.deliver ls none o) w' (.verdict (.ok true)) ∧ S.Tracks b' due w' ∧
        Cascades b w b' w'

/-! ## Completing a cell

The listeners that were registered become due, and the delivery takes them one by one. What each of them
does is left to the hypothesis on cascades with fewer nodes that wait.
-/

/-- The cell of a key is completed, and everybody who waits for it is told. -/
theorem Tracks.complete_returns (h : S.Tracks b due w) (delivers : S.Delivers n)
    (few : S.waits b < n) (hy : b.standing y ≠ .fresh) (unsettled : (b.standing y).outcome? = none)
    (awaits : (b.standing y).isWaiting = false) {a : Authority}
    (accepted : ∀ o, (b.standing y).owner? = some o → Cell.violation? o a = none)
    (owner : (b.standing y).owner?.isSome = true) (yields : S.graph.Yields y o)
    (asked : ∀ d, S.graph.Needs y d → b.standing d ≠ .fresh)
    (started : (b.standing y).hasStarted = true ∨ (S.graph.rule y).body? = none) :
    ∃ b' w', w.Returns (.complete (b.cell y) o a) w' (.verdict (.ok true)) ∧ S.Tracks b' due w' ∧
      Cascades (b.set y (.done o)) w b' w' := by
  have pending := h.shows.pending h.serves.sound hy unsettled
  obtain ⟨t, ht⟩ := Option.isSome_iff_exists.mp owner
  have hrefusal : w.refusal? (b.cell y) a = none := by
    simp only [World.refusal?, pending, Bool.false_eq_true, if_false, h.shows.owner y t ht,
      accepted t ht]
  obtain ⟨b', w', hreturns, htracks, hcascades⟩ := delivers
    (Nat.lt_of_le_of_lt (waits_set_le rfl) few) (h.finish hy unsettled awaits yields asked started)
  refine ⟨b', w', .of_move ?_, htracks,
    ⟨hcascades.board, hcascades.thread, hcascades.executors, hcascades.names⟩⟩
  rw [World.complete_of_accepted h.serves.sound hrefusal, h.shows.revokee y hy]
  exact .call hreturns

end Setting

/-! ## Going on with the code of a node

The rest of the code of a node is one operation on its claim. It can be run as soon as the values of the
dependencies, or the error of one, are known.
-/

/-- A script that completes the claim of its scope. -/
theorem World.Returns.claimScript {scope : Scope} {claim : Claim} (hclaim : scope.claim = some claim)
    {expr : OutcomeExpr} (ho : w.outcome? scope expr = .ok o) {v : Bool}
    (h : w.Returns (.complete claim.cell o (.presenting (some claim.token))) w' (.verdict (.ok v))) :
    w.Returns (.script [.claim (.complete none expr)] scope)
      (w'.note (.did (.claim (.complete none expr)) (.flag v))) .unit := by
  have hop : w.Returns (.op (.claim (.complete none expr)) scope) w' (.reply (.flag v)) := by
    apply World.Returns.of_move
    have hinvoke : w.invoke (.op (.claim (.complete none expr)) scope) =
        w.call (.complete claim.cell o (.presenting (some claim.token))) [.answer .accepted] := by
      show (w.claimOp scope (.complete none expr)).orUnknown w = _
      simp only [World.claimOp, World.claim?, hclaim, ho]
      rfl
    rw [hinvoke]
    exact .above h .ret
  apply World.Returns.of_move
  exact .above hop (.call (.of_move .ret))

/-- Names of cells are looked up one by one. -/
theorem World.mapM_cell? {names : List String} {cell : String → CellId}
    (named : ∀ d ∈ names, w.names.cells.get? d = some (cell d)) :
    names.mapM w.cell? = .ok (names.map cell) := by
  induction names with
  | nil => rfl
  | cons d rest ih =>
      have hd : w.cell? d = .ok (cell d) := by
        rw [World.cell?, Lookup.ofMap, named d List.mem_cons_self]
      rw [List.mapM_cons, hd, ih fun d hd => named d (List.mem_cons_of_mem _ hd)]
      rfl

/-- Once all dependencies have succeeded, their values are read in order. -/
theorem World.filterMap_value? {names : List String} {cell : String → CellId}
    {values : String → Int64}
    (succeeded : ∀ d ∈ names, (w.cell (cell d)).value? = some (.number (values d))) :
    ((names.map cell).filterMap fun c => (w.cell c).value?.map Value.toNumber) =
      names.map values := by
  induction names with
  | nil => rfl
  | cons d rest ih =>
      rw [List.map_cons, List.filterMap_cons, succeeded d List.mem_cons_self,
        ih fun d hd => succeeded d (List.mem_cons_of_mem _ hd)]
      rfl

namespace Setting

/-- The dependencies of a node that goes on have values, from which its own comes. -/
theorem Tracks.evaluates (h : S.Tracks b due w) {deps : List String} {fn : List Int64 → Int64}
    (rule : S.graph.rule y = .node deps fn) (decides : S.Decides b y none)
    (named : ∀ d, S.graph.Needs y d → w.names.cells.get? d = some (b.cell d)) (scope : Scope) :
    ∃ n, w.outcome? scope (.ok (.combine fn deps)) = .ok (.ok (.number n)) ∧
      S.graph.Evaluates y n := by
  -- All dependencies are done, and with the values that the graph gives them.
  have hvalue (d : String) (hd : d ∈ deps) :
      ∃ n, (w.cell (b.cell d)).value? = some (.number n) ∧ S.graph.Evaluates d n := by
    obtain ⟨v, hv⟩ := decides d ((Graph.needs_of_rule rule).mpr hd)
    obtain ⟨n, rfl, hn⟩ := h.agrees.yields d _ hv
    refine ⟨n, ?_, hn⟩
    have hpeek := h.shows.peek d (by rw [hv]; exact nofun)
    rw [Cell.value?, hpeek, hv]
    rfl
  let values (d : String) : Int64 := ((w.cell (b.cell d)).value?.map Value.toNumber).getD 0
  have hvalues (d : String) (hd : d ∈ deps) :
      (w.cell (b.cell d)).value? = some (.number (values d)) ∧
        S.graph.Evaluates d (values d) := by
    obtain ⟨n, hn, hevaluates⟩ := hvalue d hd
    have hsame : values d = n := by
      show ((w.cell (b.cell d)).value?.map Value.toNumber).getD 0 = n
      rw [hn]
      rfl
    rw [hsame]
    exact ⟨hn, hevaluates⟩
  refine ⟨fn (deps.map values), ?_, .node rule values fun d hd => (hvalues d hd).2⟩
  have hcells := World.mapM_cell? (w := w) fun d hd =>
    named d ((Graph.needs_of_rule rule).mpr hd)
  have hnumbers := World.filterMap_value? (w := w) fun d hd => (hvalues d hd).1
  have hnumber : w.number? scope (.combine fn deps) = .ok (fn (deps.map values)) := by
    simp only [World.number?, hcells, ← hnumbers]
    rfl
  simp only [World.outcome?, hnumber]
  rfl

/-- A node that goes on completes its cell, for the reason why it goes on. -/
theorem Tracks.conclude_returns (h : S.Tracks b due w) (delivers : S.Delivers n)
    (few : S.waits b < n) (hy : b.standing y = .running t) {deps : List String}
    {fn : List Int64 → Int64} (rule : S.graph.rule y = .node deps fn)
    (named : ∀ d, S.graph.Needs y d → w.names.cells.get? d = some (b.cell d))
    (asked : ∀ d, S.graph.Needs y d → b.standing d ≠ .fresh) {failure : Option Error}
    (decides : S.Decides b y failure) :
    ∃ b' w' o, w.Returns (.conclude (S.join deps fn ⟨b.cell y, t⟩) failure) w' .unit ∧
      S.Tracks b' due w' ∧ Cascades (b.set y (.done o)) w b' w' := by
  have hfresh : b.standing y ≠ .fresh := by
    rw [hy]
    exact nofun
  have completes (event : Event) (other : ∀ x, event.starts x = false) (o : Outcome)
      (yields : S.graph.Yields y o) := by
    refine (h.note event other).complete_returns (a := .presenting (some t)) delivers few hfresh ?_ ?_
      ?_ ?_ yields asked ?_
    · rw [hy]; rfl
    · rw [hy]; rfl
    · rw [hy]
      intro o ho
      cases ho
      simp [Cell.violation?]
    · rw [hy]; rfl
    · rw [hy]; exact .inl rfl
  -- The node makes something of the values, or passes on the error that it was told.
  cases failure with
  | none =>
      have htracks : S.Tracks b due (w.note (.joined "deps" none)) := h.note _ fun _ => rfl
      obtain ⟨n, hn, hevaluates⟩ := htracks.evaluates rule decides named (S.scope ⟨b.cell y, t⟩)
      obtain ⟨b', w', hreturns, htracks', hcascades⟩ :=
        completes (.joined "deps" none) (fun _ => rfl) (.ok (.number n)) ⟨n, rfl, hevaluates⟩
      exact ⟨b', _, _, .of_move (.call (.claimScript rfl hn hreturns)), htracks'.note _ fun _ => rfl,
        ⟨hcascades.board, hcascades.thread, hcascades.executors, hcascades.names⟩⟩
  | some e =>
      obtain ⟨d, hd, hfailed⟩ := decides
      obtain ⟨z, hz, hfailure⟩ := h.agrees.yields d _ hfailed
      obtain ⟨b', w', hreturns, htracks', hcascades⟩ :=
        completes (.joined "deps" (some (w.reportError e))) (fun _ => rfl) (.error e)
          ⟨z, .head hd hz, hfailure⟩
      exact ⟨b', _, _, .of_move (.call (.claimScript rfl rfl hreturns)), htracks'.note _ fun _ => rfl,
        ⟨hcascades.board, hcascades.thread, hcascades.executors, hcascades.names⟩⟩

/-! ## Signals and deliveries

The induction is on the number of nodes that wait. A signal that settles a fan-in takes one node from them,
and completes a cell whose listeners are then told in turn.
-/

/-- A signal is counted, or the node of the fan-in goes on. -/
theorem Tracks.signal_returns (h : S.Tracks b (item :: due) w) (delivers : S.Delivers n)
    (few : S.waits b ≤ n) (only : item.Only f)
    (heard : (w.fanIn f).failed = true ∨ ∃ y t, b.standing y = .waiting t f)
    {failure : Option Error} (tells : item.Tells failure) :
    ∃ b' w', w.Returns (.signal f failure) w' .unit ∧ S.Tracks b' due w' ∧
      Cascades b w b' w' := by
  suffices ∃ b' w', (w.invoke (.signal f failure)).Returns w' .unit ∧ S.Tracks b' due w' ∧
      Cascades b w b' w' by
    obtain ⟨b', w', hreturns, hrest⟩ := this
    exact ⟨b', w', .of_move hreturns, hrest⟩
  have joins (calm : (w.fanIn f).failed = false) : ∃ y t, b.standing y = .waiting t f :=
    heard.resolve_left fun failed => Bool.false_ne_true (calm.symm.trans failed)
  have hspec := World.invoke_spec h.serves.sound (.signal f failure)
  generalize w.invoke (.signal f failure) = mv at hspec ⊢
  cases hspec with
  | returned may => cases may
  | counted early =>
      refine ⟨b, _, .ret, h.count only ?_ ?_ fun calm => ⟨rfl, fun last => early ⟨last, calm⟩, tells⟩,
        ⟨.refl b, rfl, rfl, rfl⟩⟩
      · rfl
      · rfl
  | ignored failed =>
      have hsame : w.setFanIn f (w.fanIn f) = w := by
        rw [World.setFanIn, World.fanIn, Arena.set_get_self]
      have htracks := h.count only rfl rfl fun calm =>
        absurd (calm.symm.trans failed) Bool.false_ne_true
      rw [hsame] at htracks
      exact ⟨b, w, .ret, htracks, .refl b w⟩
  | firedTwice calm last gone =>
      -- A fan-in that has not failed still has its continuation.
      obtain ⟨y, t, hy⟩ := joins calm
      obtain ⟨_, _, -, hfanIn⟩ := (h.relays.joins y t f hy).rule
      rw [hfanIn] at gone
      cases gone
  | @fired _ _ k calm last left =>
      -- The node goes on, and with that one node less waits: the measure of the deliveries that follow.
      obtain ⟨y, t, hy⟩ := joins calm
      obtain ⟨there, ⟨deps, fn, rule, hfanIn⟩, -, named, -⟩ := h.relays.joins y t f hy
      have hleft : some (S.join deps fn ⟨b.cell y, t⟩) = some k := by
        rw [hfanIn] at left
        exact left
      cases hleft
      have hwaits : (b.standing y).isWaiting = true := by
        rw [hy]
        rfl
      have hfresh : b.standing y ≠ .fresh := by
        rw [hy]
        exact Standing.noConfusion
      have hasked : (b.standing y).hasAsked = true := by
        rw [hy]
        rfl
      have asked (d : String) (hd : S.graph.Needs y d) := h.agrees.asked y hasked d hd
      have apart {d : String} {o : Outcome} (hd : b.standing d = .done o) : d ≠ y := by
        rintro rfl
        cases hy.symm.trans hd
      have decides : S.Decides (b.set y (.running t)) y failure := by
        have decides := h.decides only hy tells last
        cases failure with
        | none =>
            intro d hd
            obtain ⟨v, hv⟩ := decides d hd
            exact ⟨v, (Board.standing_set_of_ne (apart hv)).trans hv⟩
        | some e =>
            obtain ⟨d, hd, he⟩ := decides
            exact ⟨d, hd, (Board.standing_set_of_ne (apart he)).trans he⟩
      have fewer := S.waits_set_lt (s := .running t) (h.places.held y hfresh).1 hwaits rfl
      obtain ⟨b', w', o, hreturns, htracks, hcascades⟩ :=
        (h.settle only hy last).conclude_returns delivers (Nat.lt_of_lt_of_le fewer few)
          Board.standing_set_self rule named
          (fun d hd => Board.not_fresh_set Standing.noConfusion (asked d hd)) decides
      have hset : (b.set y (.running t)).set y (.done o) = b.set y (.done o) := by
        simp [Board.set]
      refine ⟨b', w', .call hreturns, htracks, ⟨?_, hcascades.thread, hcascades.executors,
        hcascades.names⟩⟩
      exact .of_waiting hwaits (hset ▸ hcascades.board)

/-- The listeners of a completed cell are told, one after another. -/
theorem delivers (S : Setting) (n : ℕ) : S.Delivers n := by
  -- On how many nodes may wait, and within that on the listeners that are left.
  induction n with
  | zero => exact fun few => absurd few (Nat.not_lt_zero _)
  | succ n ih =>
      intro b due w ls o few h
      induction ls generalizing b w with
      | nil => exact ⟨b, w, .of_move .ret, h, .refl b w⟩
      | cons s rest ihrest =>
          obtain ⟨f, hrelay, heard⟩ := h.relays.told s o List.mem_cons_self
          have heard : (w.fanIn f).failed = true ∨ ∃ y t, b.standing y = .waiting t f :=
            heard.imp_right fun ⟨y, t, x, hy, _⟩ => ⟨y, t, hy⟩
          have tells : (Due.told s o).Tells (Outcome.error? o) := by
            cases o with
            | ok v => rfl
            | error e => exact ⟨s, rfl⟩
          obtain ⟨b₁, w₁, hsignal, htracks, hcascades⟩ := Tracks.signal_returns h ih
            (Nat.le_of_lt_succ few) (Due.only_told hrelay) heard tells
          obtain ⟨b', w', hrest, htracks', hcascades'⟩ :=
            ihrest (Nat.lt_of_le_of_lt (waits_later hcascades.board) few) htracks
          refine ⟨b', w', ?_, htracks', hcascades.trans hcascades'⟩
          have htell : w.Returns (.tell s.listener o) w₁ .unit := by
            apply World.Returns.of_move
            rw [hrelay]
            exact .call hsignal
          have hnotify : w.Returns (.notify s o) w₁ .unit := .of_move (.above htell .ret)
          exact .of_move (.above hnotify (.call hrest))

end Setting

end RequestGraph
