import RequestGraph.Proofs.Graph.Fetching

/-!
# Schedules

The keys of a list are asked for one after another, and in between and afterwards the jobs that are queued are
run, in any order. Between two calls no node is running, and a key is queued exactly if its job is. Each call
comes back, and takes one thing off the agenda: a key, or a job that no other one takes the place of.
-/

namespace RequestGraph

/-- The keys that are still to be asked for, and the world meanwhile. -/
structure Agenda where
  keys : List String
  world : World

namespace Setting

variable (S : Setting)

/-- The jobs that are queued with the pool of the context. -/
def queue (w : World) : List (Submission Job) :=
  match S.pool.strategy with
  | .executor e => w.executors.get e
  | _ => []

/-- What may be done next: the next key is asked for, or one of the queued jobs is run. -/
inductive Next : Agenda → Call → Agenda → Prop
  | ask {x : String} {keys : List String} {w : World} :
      Next ⟨x :: keys, w⟩ (.fetchKey S.context x) ⟨keys, w⟩
  | run {keys : List String} {w : World} {e : ExecutorId} {before after : List (Submission Job)}
      {s : Submission Job} (executor : S.pool.strategy = .executor e)
      (queued : w.executors.get e = before ++ s :: after) :
      Next ⟨keys, w⟩ (.performQueued e s)
        ⟨keys, { w with executors := w.executors.set e (before ++ after) }⟩

/-- Something is done that may be done next. -/
def Advances (p q : Agenda) : Prop :=
  ∃ c p' r, S.Next p c p' ∧ p'.world.Performs c q.world (.ret r) ∧ q.keys = p'.keys

/-- The job of a key, as it is queued. -/
def submission (b : Board) (x : String) : Submission Job where
  ambient := S.pool.ambient
  job := .node S.context (b.cell x) ⟨x, (S.graph.rule x).body?.getD []⟩

/-- Between two calls, the keys that are queued are those whose jobs are. -/
structure Queues (b : Board) (w : World) : Prop where
  idle : ∀ x t, b.standing x ≠ .running t
  there : ∀ e, S.pool.strategy = .executor e → e < w.executors.size
  jobs : ∃ xs : List String, xs.Nodup ∧ (∀ x, x ∈ xs ↔ b.standing x = .queued) ∧
    (∀ x ∈ xs, (S.graph.rule x).body?.isSome = true) ∧ S.queue w = xs.map (S.submission b)

/-- Between two calls, every requested key has been asked for, or still will be. -/
structure Rests (requested : List String) (b : Board) (p : Agenda) : Prop where
  tracks : S.Tracks b [] p.world
  queues : S.Queues b p.world
  known : ∀ x ∈ p.keys, x ∈ S.keys
  asked : ∀ x ∈ requested, x ∈ p.keys ∨ b.standing x ≠ .fresh

end Setting

variable {S : Setting} {b b' : Board} {w w' : World} {x y : String} {c : CellId} {e : ExecutorId}
  {requested keys : List String} {p p' q : Agenda}

/-! ## What is queued

A job leaves the queue when it is run, and its key stops being queued in the same call. The two are kept in
step, whatever else is evaluated meanwhile.
-/

theorem Standing.Becomes.queued_iff {s s' : Standing} (h : s.Becomes s') :
    s' = .queued ↔ s = .queued := by
  rcases h with rfl | ⟨hs, hs'⟩
  · rfl
  · constructor
    · rintro rfl
      cases hs'
    · rintro rfl
      rcases hs with hs | hs <;> cases hs

theorem Standing.Becomes.not_running {s s' : Standing} (h : s.Becomes s')
    (idle : ∀ t, s ≠ .running t) (t : Token) : s' ≠ .running t := by
  rintro rfl
  rcases h with h | ⟨-, h⟩
  · exact idle t h.symm
  · cases h

namespace Setting

theorem queue_congr (h : w'.executors = w.executors) : S.queue w' = S.queue w := by
  rw [queue, queue, h]

theorem queue_of_executor (executor : S.pool.strategy = .executor e) :
    S.queue w = w.executors.get e := by
  rw [queue, executor]

theorem submission_congr (h : b'.cell x = b.cell x) : S.submission b' x = S.submission b x := by
  rw [submission, submission, h]

/-- The evaluation of a key that was not queued leaves the queue as it was. -/
theorem Queues.proceeds (h : S.Queues b w) (hproceeds : Proceeds (fun _ => True) b w b' w') :
    S.Queues b' w' := by
  obtain ⟨xs, nodup, hqueued, bodies, hqueue⟩ := h.jobs
  refine ⟨fun x => (hproceeds.standing x trivial).not_running (h.idle x),
    fun e executor => hproceeds.executors ▸ h.there e executor,
    xs, nodup, fun x => ?_, bodies, ?_⟩
  · rw [hqueued, (hproceeds.standing x trivial).queued_iff]
  · rw [queue_congr hproceeds.executors, hqueue]
    apply List.map_congr_left
    intro x hx
    refine (submission_congr (hproceeds.cell x ?_)).symm
    rw [(hqueued x).mp hx]
    exact nofun

/-- A key whose job is queued is queued. -/
theorem Queues.enter (h : S.Queues b w) (fresh : b.standing x = .fresh) {body : Script}
    (hbody : (S.graph.rule x).body? = some body) (executor : S.pool.strategy = .executor e)
    (hsame : w'.executors = w.executors.modify e
      (· ++ [⟨S.pool.ambient, .node S.context c ⟨x, body⟩⟩])) : S.Queues (b.enter x c) w' := by
  obtain ⟨xs, nodup, hqueued, bodies, hqueue⟩ := h.jobs
  have hx : x ∉ xs := by
    rw [hqueued, fresh]
    exact nofun
  refine ⟨fun y t => ?_, fun e' executor' => ?_, xs ++ [x], ?_, fun y => ?_, fun y hy => ?_, ?_⟩
  · by_cases hyx : y = x
    · rw [hyx, Board.standing_enter_self]
      exact nofun
    · rw [Board.standing_enter_of_ne hyx]
      exact h.idle y t
  · rw [hsame, Arena.size_modify]
    exact h.there e' executor'
  · rw [← List.concat_eq_append]
    exact nodup.concat hx
  · rw [List.mem_append, List.mem_singleton, hqueued]
    by_cases hyx : y = x
    · rw [hyx, Board.standing_enter_self]
      exact ⟨fun _ => rfl, fun _ => .inr rfl⟩
    · rw [Board.standing_enter_of_ne hyx]
      exact ⟨fun hy => hy.resolve_right hyx, .inl⟩
  · rcases List.mem_append.mp hy with hy | hy
    · exact bodies y hy
    · rw [List.mem_singleton.mp hy, hbody]
      rfl
  · rw [queue_of_executor executor] at hqueue
    rw [queue_of_executor executor, hsame, Arena.get_modify_self _ _ (h.there e executor), hqueue,
      List.map_append]
    congr 1
    · apply List.map_congr_left
      intro y hy
      refine (submission_congr (Board.cell_enter_of_ne ?_)).symm
      rintro rfl
      exact hx hy
    · rw [List.map_singleton, submission, Board.cell_enter_self, hbody]
      rfl

/-- The other jobs stay queued when one of them is run, and evaluates its key. -/
theorem Queues.leave (h : S.Queues b w) {before after : List (Submission Job)} {s : Submission Job}
    (executor : S.pool.strategy = .executor e) (hqueue : w.executors.get e = before ++ s :: after) :
    ∃ x body, b.standing x = .queued ∧ (S.graph.rule x).body? = some body ∧
      s = ⟨S.pool.ambient, .node S.context (b.cell x) ⟨x, body⟩⟩ ∧
      ∀ {b' : Board} {w₁ w₂ w' : World}, Proceeds (· ≠ x) b w₁ b' w₂ →
        (b'.standing x).hasAsked = true →
        w'.executors = w.executors.set e (before ++ after) → S.Queues b' w' := by
  obtain ⟨xs, nodup, hqueued, bodies, hjobs⟩ := h.jobs
  rw [queue_of_executor executor, hqueue] at hjobs
  obtain ⟨xs₁, rest, rfl, rfl, hrest⟩ := List.map_eq_append_iff.mp hjobs.symm
  obtain ⟨x, xs₂, rfl, rfl, rfl⟩ := List.map_eq_cons_iff.mp hrest
  have hmem : x ∈ xs₁ ++ x :: xs₂ := List.mem_append_right _ List.mem_cons_self
  obtain ⟨body, hbody⟩ := Option.isSome_iff_exists.mp (bodies x hmem)
  have nodup' := List.nodup_middle.mp nodup
  refine ⟨x, body, (hqueued x).mp hmem, hbody, by rw [submission, hbody]; rfl, ?_⟩
  intro b' w₁ w₂ w' hproceeds asked hsame
  have hother {y : String} : y ∈ xs₁ ++ xs₂ ↔ y ≠ x ∧ b.standing y = .queued := by
    rw [← hqueued]
    constructor
    · intro hy
      refine ⟨?_, List.perm_middle.mem_iff.mpr (List.mem_cons_of_mem _ hy)⟩
      rintro rfl
      exact (List.nodup_cons.mp nodup').1 hy
    · rintro ⟨hyx, hy⟩
      exact (List.mem_cons.mp (List.perm_middle.mem_iff.mp hy)).resolve_left hyx
  refine ⟨fun y t => ?_, fun e' executor' => ?_, xs₁ ++ xs₂, (List.nodup_cons.mp nodup').2,
    fun y => ?_, fun y hy => bodies y ?_, ?_⟩
  · by_cases hyx : y = x
    · intro heq
      rw [hyx] at heq
      rw [heq] at asked
      cases asked
    · exact (hproceeds.standing y hyx).not_running (h.idle y) t
  · rw [hsame, Arena.size_set]
    exact h.there e' executor'
  · rw [hother]
    by_cases hyx : y = x
    · subst hyx
      refine ⟨fun hy => absurd rfl hy.1, fun heq => ?_⟩
      rw [heq] at asked
      cases asked
    · rw [(hproceeds.standing y hyx).queued_iff]
      exact ⟨And.right, fun hy => ⟨hyx, hy⟩⟩
  · exact List.perm_middle.mem_iff.mpr (List.mem_cons_of_mem _ hy)
  · rw [queue_of_executor executor, hsame, Arena.get_set_self (h.there e executor), ← List.map_append]
    apply List.map_congr_left
    intro y hy
    refine (submission_congr (hproceeds.cell y ?_)).symm
    rw [(hother.mp hy).2]
    exact nofun

/-! ## One call

Each call is seen through to its end by the evaluation of its key. Afterwards a key has left the agenda, or
a job has without anything in its place, so that no schedule goes on for ever.
-/

/-- A key that is asked for is evaluated, or its job is queued. -/
theorem Queues.ask (h : S.Queues b w) (runs : S.pool.strategy ≠ .worker) (htracks : S.Tracks b [] w)
    (hx : x ∈ S.keys) : ∃ b' w' r, w.Returns (.fetchKey S.context x) w' r ∧ S.Tracks b' [] w' ∧
      S.Queues b' w' ∧ b'.standing x ≠ .fresh ∧
      ∀ y, b.standing y ≠ .fresh → b'.standing y ≠ .fresh := by
  by_cases atOnce : S.RunsAtOnce w
  case pos =>
      obtain ⟨b', w', hreturns, htracks', there, hproceeds⟩ :=
        S.fetches _ (Nat.le_refl _) atOnce htracks hx
      exact ⟨b', w', _, hreturns, htracks', h.proceeds hproceeds, there, hproceeds.there⟩
  cases htracks.asks hx with
  | found there returns tracks cascades =>
      exact ⟨b, _, _, returns, tracks, h.proceeds cascades.proceeds, there, fun _ => id⟩
  | completed fresh returns tracks cascades =>
      have asked := cascades.hasAsked rfl
      have hproceeds := (cascades.proceeds.of_set nofun).of_enter fresh asked
      refine ⟨_, _, _, returns, tracks, h.proceeds hproceeds, fun heq => ?_, hproceeds.there⟩
      rw [heq] at asked
      cases asked
  | @dispatched c w₁ body fresh hbody tracks cascades returns =>
      obtain ⟨e, executor, outside⟩ : ∃ e, S.pool.strategy = .executor e ∧
          w₁.thread.inside ≠ some e := by
        rw [cascades.thread]
        cases hstrategy : S.pool.strategy with
        | inline => exact absurd (.inl hstrategy) atOnce
        | executor e => exact ⟨e, rfl, fun inside => atOnce (.inr ⟨e, hstrategy, inside⟩)⟩
        | worker => exact absurd hstrategy runs
      let w' : World := { w₁ with
        executors := w₁.executors.modify e
          (· ++ [⟨S.pool.ambient, .node S.context c ⟨x, body⟩⟩]) }
      have hdispatch : w₁.Returns (.dispatch S.pool (.node S.context c ⟨x, body⟩)) w' .unit := by
        apply World.Returns.of_move
        show (w₁.dispatch S.pool (.node S.context c ⟨x, body⟩)).Returns _ _
        simp only [World.dispatch, executor, if_neg outside]
        exact .ret
      have htracks' : S.Tracks (b.enter x c) [] w' :=
        tracks.congr rfl rfl rfl rfl rfl rfl fun _ => rfl
      have hsame : w'.executors = w.executors.modify e
          (· ++ [⟨S.pool.ambient, .node S.context c ⟨x, body⟩⟩]) := by
        rw [← cascades.executors]
      refine ⟨_, w', _, returns w' hdispatch, htracks', h.enter fresh hbody executor hsame, ?_,
        fun y hy => ?_⟩
      · rw [Board.standing_enter_self]
        exact Standing.noConfusion
      · rwa [Board.standing_enter_of_ne]
        rintro rfl
        exact hy fresh

/-- Any job that is queued can be run, and evaluates its key. -/
theorem Queues.run (h : S.Queues b w) (htracks : S.Tracks b [] w)
    {before after : List (Submission Job)} {s : Submission Job}
    (executor : S.pool.strategy = .executor e) (hqueue : w.executors.get e = before ++ s :: after) :
    ∃ b' w', ({ w with executors := w.executors.set e (before ++ after) } : World).Returns
        (.performQueued e s) w' .unit ∧ S.Tracks b' [] w' ∧ S.Queues b' w' ∧
      (∀ y, b.standing y ≠ .fresh → b'.standing y ≠ .fresh) ∧
      (S.queue w').length < (S.queue w).length := by
  obtain ⟨x, body, hx, hbody, rfl, hleave⟩ := h.leave executor hqueue
  let w₁ : World := { w with
    executors := w.executors.set e (before ++ after)
    thread := { w.thread with inside := some e } }
  have htracks₁ : S.Tracks b [] w₁ := htracks.congr rfl rfl rfl rfl rfl rfl fun _ => rfl
  -- Within the job further jobs for its executor run at once.
  have atOnce : S.RunsAtOnce w₁ := .inr ⟨e, executor, rfl⟩
  obtain ⟨b', w', hperform, htracks', asked, hproceeds⟩ := htracks₁.perform_returns (S.fetches _)
    (Nat.le_refl _) atOnce hx hbody S.pool.ambient
  let w'' : World := { w' with thread := { w'.thread with inside := w.thread.inside } }
  have htracks'' : S.Tracks b' [] w'' := htracks'.congr rfl rfl rfl rfl rfl rfl fun _ => rfl
  have hsame : w''.executors = w.executors.set e (before ++ after) := hproceeds.executors
  refine ⟨b', w'', .of_move (.above hperform .ret), htracks'', hleave hproceeds asked hsame,
    hproceeds.there, ?_⟩
  rw [queue_of_executor executor, queue_of_executor executor, hsame,
    Arena.get_set_self (h.there e executor), hqueue, List.length_append, List.length_append,
    List.length_cons]
  exact Nat.lt_succ_self _

/-- Whatever may be done next is done in the end, and takes one thing off the agenda. -/
theorem Rests.next (h : S.Rests requested b p) (runs : S.pool.strategy ≠ .worker) {call : Call}
    (hnext : S.Next p call p') : ∃ b' w' r, p'.world.Performs call w' (.ret r) ∧
      S.Rests requested b' ⟨p'.keys, w'⟩ ∧ (p'.keys.length < p.keys.length ∨
        p'.keys.length = p.keys.length ∧ (S.queue w').length < (S.queue p.world).length) := by
  cases hnext with
  | @ask x keys w =>
      obtain ⟨b', w', r, hreturns, htracks, hqueues, there, keeps⟩ :=
        h.queues.ask runs h.tracks (h.known x List.mem_cons_self)
      refine ⟨b', w', r, hreturns.performs, ⟨htracks, hqueues,
        fun y hy => h.known y (List.mem_cons_of_mem _ hy), fun y hy => ?_⟩,
        .inl (Nat.lt_succ_self _)⟩
      rcases h.asked y hy with hmem | hy
      · rcases List.mem_cons.mp hmem with rfl | hmem
        · exact .inr there
        · exact .inl hmem
      · exact .inr (keeps y hy)
  | run executor queued =>
      obtain ⟨b', w', hreturns, htracks, hqueues, keeps, fewer⟩ :=
        h.queues.run h.tracks executor queued
      exact ⟨b', w', _, hreturns.performs, ⟨htracks, hqueues, h.known,
        fun y hy => (h.asked y hy).imp_right (keeps y)⟩, .inr ⟨rfl, fewer⟩⟩

theorem Rests.advances (h : S.Rests requested b p) (runs : S.pool.strategy ≠ .worker)
    (hq : S.Advances p q) : ∃ b', S.Rests requested b' q ∧ (q.keys.length < p.keys.length ∨
      q.keys.length = p.keys.length ∧ (S.queue q.world).length < (S.queue p.world).length) := by
  obtain ⟨call, p', r, hnext, hperforms, hkeys⟩ := hq
  obtain ⟨b', w', r', hperforms', hrests, hless⟩ := h.next runs hnext
  obtain ⟨rfl, -⟩ := hperforms.unique hperforms'
  rw [← hkeys] at hless hrests
  exact ⟨b', hrests, hless⟩

/-- However the agenda is worked off, that comes to an end. -/
theorem Rests.acc {b : Board} {p : Agenda} (h : S.Rests requested b p)
    (runs : S.pool.strategy ≠ .worker) : Acc (fun q p => S.Advances p q) p := by
  refine ⟨_, fun q hq => ?_⟩
  obtain ⟨b', hrests, hless⟩ := h.advances runs hq
  exact hrests.acc runs
termination_by (p.keys.length, (S.queue p.world).length)
decreasing_by
  rcases hless with hless | ⟨hkeys, hless⟩
  · exact .left _ _ hless
  · rw [hkeys]
    exact .right _ hless

theorem Rests.reaches (h : S.Rests requested b p) (runs : S.pool.strategy ≠ .worker)
    (hq : Relation.ReflTransGen S.Advances p q) : ∃ b', S.Rests requested b' q := by
  induction hq with
  | refl => exact ⟨b, h⟩
  | tail _ hadvances ih =>
      obtain ⟨b', hb'⟩ := ih
      obtain ⟨b'', hb'', -⟩ := hb'.advances runs hadvances
      exact ⟨b'', hb''⟩

end Setting

end RequestGraph
