import RequestGraph.Proofs.Graph.Entering

/-!
# Evaluating a key at once

Where jobs run as soon as they are dispatched, the first to ask for a key evaluates it as far as it can be
evaluated by then: the node asks for its dependencies, each of which is evaluated in the same way before the
next one is asked for. Since a key is entered before its node runs, there are fewer and fewer keys that
nobody has asked for, and the recursion comes to an end on cycles, too.
-/

namespace RequestGraph

variable {S : Setting} {b b' b'' : Board} {w w' w'' : World} {x y z d : String} {index : KeyIndex}
  {t : Token} {n : ℕ} {P : String → Prop} {o : Outcome}

namespace Standing

/-- Whether nobody has asked for a key. -/
def isFresh : Standing → Bool
  | .fresh => true
  | _ => false

theorem isFresh_iff {s : Standing} : s.isFresh = true ↔ s = .fresh := by
  cases s <;> simp [isFresh]

/-- What becomes of a key while another one is evaluated. -/
def Becomes (s s' : Standing) : Prop :=
  s' = s ∨ (s = .fresh ∨ s.isWaiting = true) ∧ s'.hasAsked = true

theorem Becomes.trans {s s' s'' : Standing} (h : s.Becomes s') (h' : s'.Becomes s'') :
    s.Becomes s'' := by
  rcases h with rfl | ⟨hs, hs'⟩
  · exact h'
  · rcases h' with rfl | ⟨-, hs''⟩
    · exact .inr ⟨hs, hs'⟩
    · exact .inr ⟨hs, hs''⟩

end Standing

/-- What evaluating a key leaves as it was. The keys that it goes on with are those in `P`, if at all. -/
structure Proceeds (P : String → Prop) (b : Board) (w : World) (b' : Board) (w' : World) : Prop where
  there : ∀ x, b.standing x ≠ .fresh → b'.standing x ≠ .fresh
  cell : ∀ x, b.standing x ≠ .fresh → b'.cell x = b.cell x
  standing : ∀ x, P x → (b.standing x).Becomes (b'.standing x)
  named : ∀ x, b.standing x ≠ .fresh → w.names.cells.get? x = some (b.cell x) →
    w'.names.cells.get? x = some (b.cell x)
  thread : w'.thread = w.thread
  executors : w'.executors = w.executors

namespace Proceeds

theorem refl (P : String → Prop) (b : Board) (w : World) : Proceeds P b w b w :=
  ⟨fun _ => id, fun _ _ => rfl, fun _ _ => .inl rfl, fun _ _ => id, rfl, rfl⟩

theorem trans (h : Proceeds P b w b' w') (h' : Proceeds P b' w' b'' w'') :
    Proceeds P b w b'' w'' where
  there x hx := h'.there x (h.there x hx)
  cell x hx := (h'.cell x (h.there x hx)).trans (h.cell x hx)
  standing x hx := (h.standing x hx).trans (h'.standing x hx)
  named x hx hname := by
    have hcell := h.cell x hx
    have := h'.named x (h.there x hx)
    rw [hcell] at this
    exact this (h.named x hx hname)
  thread := h'.thread.trans h.thread
  executors := h'.executors.trans h.executors

theorem note (h : Proceeds P b w b' w') (e : Event) : Proceeds P b w b' (w'.note e) :=
  ⟨h.there, h.cell, h.standing, h.named, h.thread, h.executors⟩

theorem mono {Q : String → Prop} (h : Proceeds P b w b' w') (hQ : ∀ x, Q x → P x) :
    Proceeds Q b w b' w' :=
  ⟨h.there, h.cell, fun x hx => h.standing x (hQ x hx), h.named, h.thread, h.executors⟩

end Proceeds

theorem Board.Later.there (h : b.Later b') (hx : b.standing x ≠ .fresh) :
    b'.standing x ≠ .fresh := by
  rcases h.standing x with heq | ⟨-, o, ho⟩
  · rwa [heq]
  · rw [ho]
    exact nofun

theorem Cascades.proceeds (h : Cascades b w b' w') : Proceeds P b w b' w' where
  there x hx := h.board.there hx
  cell x _ := congrFun h.board.cell x
  standing x _ := by
    rcases h.board.standing x with heq | ⟨waits, o, ho⟩
    · exact .inl heq
    · rw [ho]
      exact .inr ⟨.inr waits, rfl⟩
  named x _ hname := h.names ▸ hname
  thread := h.thread
  executors := h.executors

/-- What happens to one key does not matter to the others. -/
theorem Proceeds.of_set {s : Standing} (h : Proceeds (· ≠ y) (b.set y s) w b' w')
    (hs : s ≠ .fresh) : Proceeds (· ≠ y) b w b' w' := by
  refine ⟨fun x hx => h.there x (Board.not_fresh_set hs hx),
    fun x hx => h.cell x (Board.not_fresh_set hs hx), fun x hxy => ?_,
    fun x hx => h.named x (Board.not_fresh_set hs hx), h.thread, h.executors⟩
  have hx := h.standing x hxy
  rwa [Board.standing_set_of_ne hxy] at hx

/-- The key from which a cascade goes on keeps what it has come to, or is done. -/
theorem Cascades.hasAsked {s : Standing} (h : Cascades (b.set y s) w b' w')
    (hs : s.hasAsked = true) : (b'.standing y).hasAsked = true := by
  rcases h.board.standing y with heq | ⟨-, o, ho⟩
  · rw [heq, Board.standing_set_self, hs]
  · rw [ho]
    rfl

namespace Setting

/-- How many keys nobody has asked for. -/
def unasked (S : Setting) (b : Board) : ℕ := S.count Standing.isFresh b

theorem unasked_le (h : ∀ x, b.standing x ≠ .fresh → b'.standing x ≠ .fresh) :
    S.unasked b' ≤ S.unasked b := by
  refine count_le fun x hx => ?_
  rw [Standing.isFresh_iff] at hx ⊢
  by_contra there
  exact h x there hx

theorem unasked_enter_lt (hx : x ∈ S.keys) (fresh : b.standing x = .fresh) (c : CellId) :
    S.unasked (b.enter x c) < S.unasked b := by
  refine count_lt (fun z hz => ?_) hx (Standing.isFresh_iff.mpr fresh) ?_
  · by_cases hzx : z = x
    · rw [hzx, fresh]
      rfl
    · rwa [Board.standing_enter_of_ne hzx] at hz
  · rw [Board.standing_enter_self]
    rfl

/-- Whether jobs run as soon as they are dispatched. -/
def RunsAtOnce (S : Setting) (w : World) : Prop :=
  S.pool.strategy = .inline ∨ ∃ e, S.pool.strategy = .executor e ∧ w.thread.inside = some e

theorem RunsAtOnce.congr (h : S.RunsAtOnce w) (inside : w'.thread.inside = w.thread.inside) :
    S.RunsAtOnce w' := by
  rw [RunsAtOnce, inside]
  exact h

/-- While few keys have not been asked for, asking for a key gives its cell. -/
def Fetches (S : Setting) (n : ℕ) : Prop :=
  ∀ {b : Board} {w : World} {x : String}, S.unasked b ≤ n → S.RunsAtOnce w → S.Tracks b [] w →
    x ∈ S.keys → ∃ b' w', w.Returns (.fetchKey S.context x) w' (.cell (b'.cell x)) ∧
      S.Tracks b' [] w' ∧ b'.standing x ≠ .fresh ∧ Proceeds (fun _ => True) b w b' w'

end Setting

/-! ## Running the node of a key

The body asks for its dependencies one by one, each of which is evaluated meanwhile. What has been asked for
before stays known, whatever the later ones do.
-/

/-- An operation that answers, and the rest of its script. -/
theorem World.Returns.script {op : Op} {rest : Script} {scope : Scope} {r : Reply} {result : Result}
    (h : w.Returns (.op op scope) w' (.reply r))
    (hrest : (w'.note (.did op r)).Returns (.script rest scope) w'' result) :
    w.Returns (.script (op :: rest) scope) w'' result := .of_move (.above h (.call hrest))

theorem World.mapM_awaited? {names : List String} {cell : String → CellId}
    (named : ∀ d ∈ names, w.names.cells.get? d = some (cell d)) :
    (names.map Awaited.cell).mapM w.awaited? = .ok (names.map cell) := by
  rw [List.mapM_map]
  exact World.mapM_cell? named

/-- What has been asked for, and its cell has been named. -/
def Board.Knows (b : Board) (w : World) (d : String) : Prop :=
  b.standing d ≠ .fresh ∧ w.names.cells.get? d = some (b.cell d)

theorem Board.Knows.proceeds (h : b.Knows w d) (hproceeds : Proceeds P b w b' w') :
    b'.Knows w' d := by
  refine ⟨hproceeds.there d h.1, ?_⟩
  rw [hproceeds.cell d h.1]
  exact hproceeds.named d h.1 h.2

theorem Proceeds.name (h : Proceeds P b w b' w') (x : String) :
    Proceeds P b w b' (w'.nameCell x (b'.cell x)) := by
  refine h.trans ⟨fun _ => id, fun _ _ => rfl, fun _ _ => .inl rfl, fun z _ hname => ?_, rfl, rfl⟩
  show (w'.names.cells.insert x (b'.cell x)).get? z = _
  rw [OrderedMap.get?_insert]
  split
  · next heq => rw [heq]
  · exact hname

namespace Setting

/-- A node asks for its dependencies, one after another. -/
theorem Tracks.ask_returns (h : S.Tracks b [] w) (fetches : S.Fetches n) (few : S.unasked b ≤ n)
    (atOnce : S.RunsAtOnce w) {deps : List String} (hdeps : ∀ d ∈ deps, d ∈ S.keys) {scope : Scope}
    (hscope : scope.context = some S.context) :
    ∃ b' w', S.Tracks b' [] w' ∧ (∀ d ∈ deps, b'.Knows w' d) ∧
      Proceeds (fun _ => True) b w b' w' ∧
      ∀ {rest : Script} {w'' : World} {r : Result}, w'.Returns (.script rest scope) w'' r →
        w.Returns (.script (deps.map (fun d => .context (.fetch none d d)) ++ rest) scope) w'' r := by
  induction deps generalizing b w with
  | nil => exact ⟨b, w, h, nofun, .refl _ b w, fun hrest => hrest⟩
  | cons d deps ih =>
      obtain ⟨b₁, w₁, hfetch, htracks, there, hproceeds⟩ :=
        fetches few atOnce h (hdeps d List.mem_cons_self)
      have hop : w.Returns (.op (.context (.fetch none d d)) scope) (w₁.nameCell d (b₁.cell d))
          (.reply (.cell (w₁.reportCell (b₁.cell d)))) := by
        apply World.Returns.of_move
        have hinvoke : w.invoke (.op (.context (.fetch none d d)) scope) =
            w.call (.fetchKey S.context d) [.answer (.nameFetched d)] := by
          show (w.contextOp scope (.fetch none d d)).orUnknown w = _
          simp only [World.contextOp, World.context?, hscope]
          rfl
        rw [hinvoke]
        exact .above hfetch .ret
      -- The script notes the reply before it goes on, so the next dependency is asked for in this world.
      let reply : Reply := .cell (w₁.reportCell (b₁.cell d))
      let w₂ := (w₁.nameCell d (b₁.cell d)).note (.did (.context (.fetch none d d)) reply)
      have htracks₂ : S.Tracks b₁ [] w₂ := (htracks.name d).note _ fun _ => rfl
      have hproceeds₂ : Proceeds (fun _ => True) b w b₁ w₂ :=
        (hproceeds.name d).note _
      have hknows : b₁.Knows w₂ d := by
        refine ⟨there, ?_⟩
        show (w₁.names.cells.insert d (b₁.cell d)).get? d = _
        rw [OrderedMap.get?_insert, if_pos rfl]
      obtain ⟨b', w', htracks', hrest, hproceeds', hscript⟩ := ih htracks₂
        (Nat.le_trans (unasked_le hproceeds₂.there) few)
        (atOnce.congr (congrArg Thread.inside hproceeds₂.thread))
        fun d hd => hdeps d (List.mem_cons_of_mem _ hd)
      refine ⟨b', w', htracks', fun z hz => ?_, hproceeds₂.trans hproceeds', fun h =>
        World.Returns.script hop (hscript h)⟩
      rcases List.mem_cons.mp hz with rfl | hz
      · exact hknows.proceeds hproceeds'
      · exact hrest z hz

/-- The body of a node runs until the node waits, or has completed its cell. -/
theorem Tracks.body_returns (h : S.Tracks b [] w) (fetches : S.Fetches n) (few : S.unasked b ≤ n)
    (atOnce : S.RunsAtOnce w) (hx : b.standing x = .running t) {body : Script}
    (hbody : (S.graph.rule x).body? = some body) :
    ∃ b' w', w.Returns (.script body (S.scope ⟨b.cell x, t⟩)) w' .unit ∧ S.Tracks b' [] w' ∧
      (b'.standing x).hasAsked = true ∧ Proceeds (· ≠ x) b w b' w' := by
  have there : b.standing x ≠ .fresh := by
    rw [hx]
    exact Standing.noConfusion
  cases hrule : S.graph.rule x with
  | input n | absent =>
      rw [hrule] at hbody
      cases hbody
  -- A node that fails needs nothing, and completes its cell at once.
  | failing e =>
      rw [hrule] at hbody
      obtain rfl := Option.some.inj hbody
      have yields : S.graph.Yields x (.error e) := by
        refine ⟨x, .refl, ?_⟩
        rw [Graph.failure?, hrule]
      have asked (d : String) (hd : S.graph.Needs x d) : b.standing d ≠ .fresh := by
        obtain ⟨_, _, hnode⟩ := Graph.rule_of_needs hd
        cases hrule.symm.trans hnode
      obtain ⟨b', w', hcomplete, htracks, hcascades⟩ := h.complete_returns
        (a := .presenting (some t)) (S.delivers _) (Nat.lt_succ_self _) there (by rw [hx]; rfl)
        (by rw [hx]; rfl) (by rw [hx]; rintro o ⟨⟩; simp [Cell.violation?]) (by rw [hx]; rfl) yields
        asked (.inl (by rw [hx]; rfl))
      exact ⟨b', _, .claimScript rfl rfl hcomplete, htracks.note _ fun _ => rfl,
        hcascades.hasAsked rfl, (hcascades.proceeds.of_set Standing.noConfusion).note _⟩
  -- A node asks for all that it needs and then awaits it. Meanwhile its own standing does not change, as
  -- nobody but itself can complete its cell.
  | node deps fn =>
      rw [hrule] at hbody
      obtain rfl := Option.some.inj hbody
      have hmem := (h.places.held x there).1
      have hscope : (S.scope ⟨b.cell x, t⟩).context = some S.context := rfl
      obtain ⟨b₁, w₁, htracks₁, hknows, hproceeds₁, hscript⟩ := h.ask_returns fetches few atOnce
        (fun d hd => S.closed x hmem d ((Graph.needs_of_rule hrule).mpr hd)) hscope
      have hx₁ : b₁.standing x = .running t := by
        rcases hproceeds₁.standing x trivial with heq | ⟨hfresh | hwaits, -⟩
        · exact heq.trans hx
        · exact absurd hfresh there
        · rw [hx] at hwaits
          cases hwaits
      have knows {d : String} (hd : S.graph.Needs x d) : b₁.Knows w₁ d :=
        hknows d ((Graph.needs_of_rule hrule).mp hd)
      obtain ⟨b', w', s, hawait, htracks, hasked, hcascades⟩ := htracks₁.await_returns hx₁ hrule
        (fun d hd => (knows hd).2) fun d hd => (knows hd).1
      have hs : s ≠ .fresh := by
        rintro rfl
        cases hasked
      rw [hproceeds₁.cell x there] at hawait
      have hop : w₁.Returns (.op (.cell (.await (deps.map .cell) "deps" (Rule.combining deps fn)
          Rule.passing)) (S.scope ⟨b.cell x, t⟩)) w' (.reply .nothing) := by
        apply World.Returns.of_move
        have hcells := World.mapM_awaited? (w := w₁) fun d hd => (hknows d hd).2
        have hinvoke : w₁.invoke (.op (.cell (.await (deps.map .cell) "deps"
            (Rule.combining deps fn) Rule.passing)) (S.scope ⟨b.cell x, t⟩)) =
              w₁.call (.await (deps.map b₁.cell) (S.join deps fn ⟨b.cell x, t⟩))
                [.answer .nothing] := by
          show (w₁.cellOp _ _).orUnknown w₁ = _
          simp only [World.cellOp, hcells]
          rfl
        rw [hinvoke]
        exact .above hawait .ret
      refine ⟨b', _, hscript (.script hop (.of_move .ret)), htracks.note _ fun _ => rfl,
        hcascades.hasAsked hasked, ?_⟩
      exact ((hproceeds₁.mono fun _ _ => trivial).trans (hcascades.proceeds.of_set hs)).note _

/-- The job of a key that is queued claims its cell, and runs its node. -/
theorem Tracks.job_returns (h : S.Tracks b [] w) (fetches : S.Fetches n) (few : S.unasked b ≤ n)
    (atOnce : S.RunsAtOnce w) (hx : b.standing x = .queued) {body : Script}
    (hbody : (S.graph.rule x).body? = some body) :
    ∃ b' w', w.Returns (.job (.node S.context (b.cell x) ⟨x, body⟩)) w' .unit ∧ S.Tracks b' [] w' ∧
      (b'.standing x).hasAsked = true ∧ Proceeds (· ≠ x) b w b' w' := by
  have there : b.standing x ≠ .fresh := by
    rw [hx]
    exact nofun
  have pending := h.shows.pending h.serves.sound there (by rw [hx]; rfl)
  have unowned := h.shows.owner x none (by rw [hx]; rfl)
  have htracks := h.begin hx (by rw [hbody]; rfl)
  have hstart : Cascades (b.set x (.running w.freshToken)) w (b.set x (.running w.freshToken))
      (w.starting (b.cell x) x) := ⟨.refl _, rfl, rfl, rfl⟩
  obtain ⟨b', w', hreturns, htracks', hasked, hproceeds⟩ := htracks.body_returns fetches
    (Nat.le_trans (unasked_le fun _ => Board.not_fresh_set nofun) few) (atOnce.congr rfl)
    Board.standing_set_self hbody
  refine ⟨b', w', .of_move ?_, htracks', hasked, (hstart.proceeds.trans hproceeds).of_set nofun⟩
  rw [World.job_of_free h.serves.sound pending unowned]
  exact .above hreturns .ret

/-! ## Asking for a key

The induction is on the number of keys that nobody has asked for. A key is entered before its node runs, so
that a node which leads back to it finds it there.
-/

/-- What completes a new cell without a node does so at once. -/
theorem Tracks.startCell_completes (h : S.Tracks b [] w) (hx : b.standing x = .queued)
    (hkey : w.keys.registry[index.toNat]? = some x) (none : (S.graph.rule x).body? = none) :
    ∃ b' w' o, (w.startCell S.context index x (b.cell x)).Returns w' (.cell (b.cell x)) ∧
      S.Tracks b' [] w' ∧ Cascades (b.set x (.done o)) w b' w' := by
  have there : b.standing x ≠ .fresh := by
    rw [hx]
    exact nofun
  have asked (d : String) (hd : S.graph.Needs x d) : b.standing d ≠ .fresh := by
    obtain ⟨_, _, hnode⟩ := Graph.rule_of_needs hd
    rw [hnode] at none
    cases none
  have completes {w : World} (h : S.Tracks b [] w) {o : Outcome} (yields : S.graph.Yields x o) :
      ∃ b' w', w.Returns (.complete (b.cell x) o .unowned) w' (.verdict (.ok true)) ∧
        S.Tracks b' [] w' ∧ Cascades (b.set x (.done o)) w b' w' :=
    h.complete_returns (S.delivers _) (Nat.lt_succ_self _) there (by rw [hx]; rfl) (by rw [hx]; rfl)
      (by rw [hx]; rintro o ⟨⟩; rfl) (by rw [hx]; rfl) yields asked (.inr none)
  have hinput := h.serves.inputs x
  cases hrule : S.graph.rule x with
  | node | failing =>
      rw [hrule] at none
      cases none
  | input n =>
      have yields : S.graph.Yields x (.ok (.number n)) := ⟨n, rfl, .input hrule⟩
      obtain ⟨b', w', hreturns, hrest⟩ := completes h yields
      refine ⟨b', w', _, ?_, hrest⟩
      rw [hrule] at hinput
      simp only [World.startCell, hinput, Rule.input?, Option.map_some]
      have hforward : w.Returns (.forward (b.cell x) (.value n) Option.none) w'
          (.verdict (.ok true)) := .of_move (.call (.of_move (.call hreturns)))
      exact .above hforward .ret
  | absent =>
      have hnode := h.serves.faithful.snd_lookup hkey
      rw [h.serves.nodes x (by rw [hrule]; rfl), none] at hnode
      have yields : S.graph.Yields x (.error (.unknownNode (Text.quoted x))) := by
        refine ⟨x, .refl, ?_⟩
        rw [Graph.failure?, hrule]
      obtain ⟨b', w', hreturns, htracks, hcascades⟩ := completes (h.look hkey) yields
      refine ⟨b', w', _, ?_, htracks,
        ⟨hcascades.board, hcascades.thread, hcascades.executors, hcascades.names⟩⟩
      rw [hrule] at hinput
      simp only [World.startCell, hinput, Rule.input?, Option.map_none, hnode]
      exact .above hreturns .ret

/-- The node of a new cell is dispatched to the pool of the context. -/
theorem Tracks.startCell_dispatches (h : S.Tracks b [] w)
    (hkey : w.keys.registry[index.toNat]? = some x) {body : Script}
    (hbody : (S.graph.rule x).body? = some body) (c : CellId) :
    w.startCell S.context index x c = (w.looking S.context x index).call
      (.dispatch S.pool (.node S.context c ⟨x, body⟩)) [.made c] := by
  have other : (S.graph.rule x).input? = none := by
    cases hrule : S.graph.rule x with
    | input n =>
        rw [hrule] at hbody
        cases hbody
    | _ => rfl
  have hinput := h.serves.inputs x
  have hnode := h.serves.faithful.snd_lookup hkey
  rw [h.serves.nodes x other, hbody] at hnode
  rw [other] at hinput
  simp only [World.startCell, hinput, Option.map_none, hnode, Option.map_some, ← h.serves.pool]
  rfl

/-- The first to ask for a key makes its cell. -/
theorem Tracks.fetch_of_fresh (h : S.Tracks b [] w) (fresh : b.standing x = .fresh)
    (hkey : w.keys.registry[index.toNat]? = some x) :
    w.invoke (.fetch S.context index x) =
      (w.registering S.context index).startCell S.context index x w.cells.size :=
  World.fetch_of_unfrozen h.serves.tables (h.lookup_of_fresh fresh hkey) h.serves.unfrozen

/-- What asking for a key may lead to. -/
inductive Asks (S : Setting) (b : Board) (w : World) (x : String) : Prop
  | found {w' : World} (there : b.standing x ≠ .fresh)
      (returns : w.Returns (.fetchKey S.context x) w' (.cell (b.cell x))) (tracks : S.Tracks b [] w')
      (cascades : Cascades b w b w') : Asks S b w x
  | completed {c : CellId} {b' : Board} {w' : World} {o : Outcome} (fresh : b.standing x = .fresh)
      (returns : w.Returns (.fetchKey S.context x) w' (.cell c)) (tracks : S.Tracks b' [] w')
      (cascades : Cascades ((b.enter x c).set x (.done o)) w b' w') : Asks S b w x
  /-- It is up to the pool when the node runs. -/
  | dispatched {c : CellId} {w₁ : World} {body : Script} (fresh : b.standing x = .fresh)
      (hbody : (S.graph.rule x).body? = some body) (tracks : S.Tracks (b.enter x c) [] w₁)
      (cascades : Cascades (b.enter x c) w (b.enter x c) w₁)
      (returns : ∀ w', w₁.Returns (.dispatch S.pool (.node S.context c ⟨x, body⟩)) w' .unit →
        w.Returns (.fetchKey S.context x) w' (.cell c)) : Asks S b w x

theorem Tracks.asks (h : S.Tracks b [] w) (hx : x ∈ S.keys) : S.Asks b w x := by
  obtain ⟨index, hintern, h₁, hkey⟩ := h.intern hx
  have hinvoke : w.invoke (.fetchKey S.context x) =
      (w.interning x).call (.fetch S.context index x) := by
    show w.fetchKey S.context x = _
    rw [World.fetchKey, hintern]
    rfl
  by_cases fresh : b.standing x = .fresh
  case neg =>
      refine .found fresh (.of_move ?_) h₁ ⟨.refl b, rfl, rfl, rfl⟩
      rw [hinvoke]
      exact .call (h₁.fetch_of_not_fresh fresh hkey)
  -- A key that is fresh gets a cell first, and then its node is looked up.
  have h₂ := h₁.enter fresh hkey hx
  have hfetch := h₁.fetch_of_fresh fresh hkey
  have hqueued : (b.enter x (w.interning x).cells.size).standing x = .queued :=
    Board.standing_enter_self
  have hcell : (b.enter x (w.interning x).cells.size).cell x = (w.interning x).cells.size :=
    Board.cell_enter_self
  have returns {w' : World} {c : CellId}
      (hstart : (((w.interning x).registering S.context index).startCell S.context index x
        (w.interning x).cells.size).Returns w' (.cell c)) :
      w.Returns (.fetchKey S.context x) w' (.cell c) := by
    apply World.Returns.of_move
    rw [hinvoke]
    refine .call (.of_move ?_)
    rw [hfetch]
    exact hstart
  cases hbody : (S.graph.rule x).body? with
  | none =>
      obtain ⟨b', w', o, hreturns, htracks, hcascades⟩ :=
        h₂.startCell_completes hqueued hkey hbody
      rw [hcell] at hreturns
      exact .completed fresh (returns hreturns) htracks
        ⟨hcascades.board, hcascades.thread, hcascades.executors, hcascades.names⟩
  | some body =>
      refine .dispatched fresh hbody (h₂.look hkey) ⟨.refl _, rfl, rfl, rfl⟩ fun w' hdispatch =>
        returns ?_
      rw [h₂.startCell_dispatches hkey hbody]
      exact .above hdispatch .ret

end Setting

/-- A job runs under an ambient, which is put back afterwards. -/
theorem World.Returns.perform {ambient : Ambient} {j : Job}
    (h : ({ w with thread := { w.thread with ambient } } : World).Returns (.job j) w' .unit) :
    w.Returns (.perform ambient j)
      { w' with thread := { w'.thread with ambient := w.thread.ambient } } .unit :=
  .of_move (.above h (.resume .ret))

/-- The first to ask for a key has evaluated it. -/
theorem Proceeds.of_enter {c : CellId} (h : Proceeds (· ≠ x) (b.enter x c) w b' w')
    (fresh : b.standing x = .fresh) (asked : (b'.standing x).hasAsked = true) :
    Proceeds (fun _ => True) b w b' w' := by
  have old {z : String} (hz : b.standing z ≠ .fresh) : z ≠ x := by
    rintro rfl
    exact hz fresh
  have same {z : String} (hz : b.standing z ≠ .fresh) :
      (b.enter x c).standing z ≠ .fresh ∧ (b.enter x c).cell z = b.cell z := by
    rw [Board.standing_enter_of_ne (old hz), Board.cell_enter_of_ne (old hz)]
    exact ⟨hz, rfl⟩
  refine ⟨fun z hz => h.there z (same hz).1, fun z hz => ?_, fun z _ => ?_, fun z hz hname => ?_,
    h.thread, h.executors⟩
  · rw [h.cell z (same hz).1, (same hz).2]
  · by_cases hzx : z = x
    · rw [hzx, fresh]
      exact .inr ⟨.inl rfl, asked⟩
    · have hz := h.standing z hzx
      rwa [Board.standing_enter_of_ne hzx] at hz
  · have hnamed := h.named z (same hz).1
    rw [(same hz).2] at hnamed
    exact hnamed hname

namespace Setting

/-- A job of a key that is queued is performed, and leaves the thread as it was. -/
theorem Tracks.perform_returns (h : S.Tracks b [] w) (fetches : S.Fetches n)
    (few : S.unasked b ≤ n) (atOnce : S.RunsAtOnce w) (hx : b.standing x = .queued) {body : Script}
    (hbody : (S.graph.rule x).body? = some body) (ambient : Ambient) :
    ∃ b' w', w.Returns (.perform ambient (.node S.context (b.cell x) ⟨x, body⟩)) w' .unit ∧
      S.Tracks b' [] w' ∧ (b'.standing x).hasAsked = true ∧ Proceeds (· ≠ x) b w b' w' := by
  have htracks : S.Tracks b [] { w with thread := { w.thread with ambient } } :=
    h.congr rfl rfl rfl rfl rfl rfl fun _ => rfl
  obtain ⟨b', w', hreturns, htracks', hasked, hproceeds⟩ :=
    htracks.job_returns fetches few (atOnce.congr rfl) hx hbody
  refine ⟨b', _, hreturns.perform, htracks'.congr rfl rfl rfl rfl rfl rfl fun _ => rfl, hasked,
    hproceeds.there, hproceeds.cell, hproceeds.standing, hproceeds.named, ?_, hproceeds.executors⟩
  show ({ w'.thread with ambient := w.thread.ambient } : Thread) = w.thread
  rw [hproceeds.thread]

theorem RunsAtOnce.dispatch (h : S.RunsAtOnce w) {j : Job}
    (hperform : w.Returns (.perform S.pool.ambient j) w' .unit) :
    w.Returns (.dispatch S.pool j) w' .unit := by
  apply World.Returns.of_move
  show (w.dispatch S.pool j).Returns _ _
  rcases h with inline | ⟨e, executor, inside⟩
  · simp only [World.dispatch, inline]
    exact .call hperform
  · simp only [World.dispatch, executor, if_pos inside]
    exact .call hperform

/-- Where jobs run at once, asking for a key gives its cell, and the key is evaluated. -/
theorem fetches (S : Setting) (n : ℕ) : S.Fetches n := by
  induction n using Nat.strong_induction_on with
  | _ n ih =>
      intro b w x few atOnce h hx
      cases h.asks hx with
      | found there returns tracks cascades =>
          exact ⟨b, _, returns, tracks, there, cascades.proceeds⟩
      | @completed c b' w' o fresh returns tracks cascades =>
          have hcell : b'.cell x = c :=
            (congrFun cascades.board.cell x).trans Board.cell_enter_self
          have asked := cascades.hasAsked rfl
          refine ⟨b', w', hcell ▸ returns, tracks, fun heq => ?_,
            (cascades.proceeds.of_set nofun).of_enter fresh asked⟩
          rw [heq] at asked
          cases asked
      | @dispatched c w₁ body fresh hbody tracks cascades returns =>
          -- The key has been asked for when its node runs.
          have fewer := Nat.lt_of_lt_of_le (unasked_enter_lt hx fresh c) few
          have atOnce₁ := atOnce.congr (congrArg Thread.inside cascades.thread)
          obtain ⟨b', w', hperform, htracks, asked, hproceeds⟩ := tracks.perform_returns
            (ih _ fewer) (Nat.le_refl _) atOnce₁ Board.standing_enter_self hbody S.pool.ambient
          have hcell : b'.cell x = c := by
            rw [hproceeds.cell x (by rw [Board.standing_enter_self]; exact nofun),
              Board.cell_enter_self]
          rw [Board.cell_enter_self] at hperform
          refine ⟨b', w', hcell ▸ returns w' (atOnce₁.dispatch hperform), htracks, fun heq => ?_,
            (cascades.proceeds.trans hproceeds).of_enter fresh asked⟩
          rw [heq] at asked
          cases asked

end Setting

end RequestGraph
