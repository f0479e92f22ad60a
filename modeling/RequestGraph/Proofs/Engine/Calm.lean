import Mathlib.Data.List.Chain
import RequestGraph.Proofs.Engine.History

/-!
# Where panics go

Some frames have work left that must not be skipped: listeners to be told, cells to be watched or swept,
the error of a request to be enriched. A panic that came through to such a *fragile* frame would skip it.
Above a fragile frame, however, there are only calls that keep in whatever the code of users breaks off
with, and hand it to the sink. So as long as the sink returns, no panic comes through to a fragile frame:

    what stands above a fragile frame   =   a calm call, or a frame that a calm call has left
-/

namespace RequestGraph

/-- The calls that break off only if the sink does. -/
def Call.isCalm : Call → Bool
  | .complete .. | .deliver .. | .notify .. | .report _ | .revoke .. | .subscribe .. | .sweep .. =>
    true
  | _ => false

/-- The frames that calm calls leave. -/
def Frame.isCalm : Frame → Bool
  | .delivering .. | .completed | .notifying | .sweeping .. => true
  | _ => false

/-- The frames that must not be skipped. -/
def Frame.isFragile : Frame → Bool
  | .delivering .. | .completed | .sweeping .. | .watching .. | .enriching .. => true
  | _ => false

/-- The frame that waits for the cancellation of a context. -/
def Frame.isEnriching : Frame → Bool
  | .enriching .. => true
  | _ => false

/-- What a frame that is fragile may have above it. -/
def Frame.Below (above below : Frame) : Prop := below.isFragile = true → above.isCalm = true

/-- What may happen right above a fragile frame. Only a cancellation may break off, if it finds that the
ledger of its context cannot be read. -/
inductive Control.Suits (below : Frame) : Control → Prop
  | calm {c : Call} (calm : c.isCalm = true) : Suits below (.call c)
  | cancel {k : ContextId} {cause : Option Error} (enriching : below.isEnriching = true) :
      Suits below (.call (.cancel k cause))
  | ret {r : Result} : Suits below (.ret r)
  | unread (enriching : below.isEnriching = true) : Suits below (.raise (.broken .ledgerReadable))

namespace Machine

/-- Fragile frames are safe. -/
structure Orderly (m : Machine) : Prop where
  frames : m.stack.IsChain Frame.Below
  control : ∀ f ∈ m.stack.head?, f.isFragile = true → m.control.Suits f

/-- Fragile frames are safe, unless a panic is coming through. -/
structure Braced (m : Machine) : Prop where
  frames : m.stack.IsChain Frame.Below
  control : ∀ f ∈ m.stack.head?, f.isFragile = true →
    m.control.Suits f ∨ ∃ p, m.control = .raise p

/-- The sink returns if an error is reported to it now. -/
def SinkReturns (m : Machine) : Prop :=
  ∀ e, m.control = .call (.report e) → m.world.sink ≠ .panic

instance (m : Machine) : Decidable m.SinkReturns :=
  decidable_of_iff ((m.control matches .call (.report _)) = true → m.world.sink ≠ .panic) <| by
    constructor
    · intro h e call
      exact h (by rw [call])
    · intro h reports
      split at reports
      · next e call => exact h e call
      · cases reports

end Machine

/-! ## Moves

A move leaves some frames and says what happens next, above them. It is enough to look at each move by
itself, as the frames below were looked at before.
-/

/-- What a move is that keeps fragile frames safe: a single frame, or none, with what suits it. -/
structure Move.Orderly (mv : Move) : Prop where
  frames : mv.frames.IsChain Frame.Below
  control : ∀ f ∈ mv.frames.head?, f.isFragile = true → mv.control.Suits f

/-- A move that leaves no fragile frame is orderly. -/
theorem Move.orderly_of_not_fragile {mv : Move} (h : ∀ f ∈ mv.frames, f.isFragile = false) :
    mv.Orderly where
  frames := by
    generalize mv.frames = frames at h
    induction frames with
    | nil => exact .nil
    | cons f rest ih =>
        refine (ih fun g hg => h g (List.mem_cons_of_mem _ hg)).cons ?_
        intro g hg hfragile
        have := h g (List.mem_cons_of_mem _ (List.mem_of_mem_head? hg))
        exact nomatch this.symm.trans hfragile
  control := by
    intro f hf hfragile
    exact nomatch (h f (List.mem_of_mem_head? hf)).symm.trans hfragile

/-- A move that leaves one frame is orderly if what it does next suits that. -/
theorem Move.orderly_of_suits {mv : Move} {f : Frame} (hf : mv.frames = [f])
    (h : mv.control.Suits f) : mv.Orderly where
  frames := hf ▸ .singleton f
  control := by
    intro g hg _
    rw [hf] at hg
    cases hg
    exact h

/-- Frames that only note where they are may be skipped. -/
theorem Frame.not_fragile_of_isOuter {f : Frame} (h : f.isOuter = true) : f.isFragile = false := by
  cases f <;> first | rfl | cases h

/-- Operations leave no fragile frame. -/
theorem Operated.not_fragile {w : World} {scope : Scope} {op : Op} {mv : Move}
    (h : Operated w scope op mv) : ∀ f ∈ mv.frames, f.isFragile = false := by
  have outer {frames : List Frame} (h : frames.all Frame.isOuter = true) :
      ∀ f ∈ frames, f.isFragile = false :=
    fun f hf => Frame.not_fragile_of_isOuter (List.all_eq_true.mp h f hf)
  cases h with
  | answered _ _ h => exact outer h
  | entered _ _ h => exact outer h
  | presented _ _ _ h => exact outer h
  | latched _ _ h => exact outer h
  | fetching _ h => exact outer h
  | _ => exact fun f hf => nomatch hf

namespace World

variable {w : World}

/-- Whatever is called, the frame that is left has something suitable above it. -/
theorem orderly_invoke (h : w.Sound) (c : Call) : (w.invoke c).Orderly := by
  have hspec := invoke_spec h c
  generalize w.invoke c = mv at hspec
  cases hspec with
  | operated hop => exact Move.orderly_of_not_fragile hop.not_fragile
  | delivering => exact Move.orderly_of_suits rfl (.calm rfl)
  | cascading => exact Move.orderly_of_suits rfl (.calm rfl)
  | watching => exact Move.orderly_of_suits rfl (.calm rfl)
  | sweeping => exact Move.orderly_of_suits rfl (.calm rfl)
  | yankFailed => exact Move.orderly_of_suits rfl (.cancel rfl)
  | _ =>
      apply Move.orderly_of_not_fragile
      simp [Frame.isFragile]

/-- A calm call goes on with calm calls, above frames of its own if any, and comes back. -/
theorem calm_invoke (h : w.Sound) {c : Call} (hc : c.isCalm = true)
    (sink : ∀ e, c = .report e → w.sink ≠ .panic) :
    (∃ f, (w.invoke c).frames = [f] ∧ f.isCalm = true) ∨
      ((w.invoke c).frames = [] ∧ ∀ below, (w.invoke c).control.Suits below) := by
  have hspec := invoke_spec h c
  generalize w.invoke c = mv at hspec
  cases hspec with
  | delivering => exact .inl ⟨_, rfl, rfl⟩
  | cascading => exact .inl ⟨_, rfl, rfl⟩
  | notifying => exact .inl ⟨_, rfl, rfl⟩
  | sweeping => exact .inl ⟨_, rfl, rfl⟩
  | returned => exact .inr ⟨rfl, fun _ => .ret⟩
  | registered => exact .inr ⟨rfl, fun _ => .ret⟩
  | completed => exact .inr ⟨rfl, fun _ => .calm rfl⟩
  | told => exact .inr ⟨rfl, fun _ => .calm rfl⟩
  | revoked => exact .inr ⟨rfl, fun _ => .calm rfl⟩
  | swept => exact .inr ⟨rfl, fun _ => .calm rfl⟩
  | sunk hsink => exact (sink _ rfl hsink).elim
  | _ => cases hc

/-- A cancellation suits the frame that waits for it. -/
theorem cancel_invoke (h : w.Sound) (k : ContextId) (cause : Option Error) {below : Frame}
    (hb : below.isEnriching = true) :
    (w.invoke (.cancel k cause)).frames = [] ∧
      (w.invoke (.cancel k cause)).control.Suits below := by
  have hspec := invoke_spec h (.cancel k cause)
  generalize w.invoke (.cancel k cause) = mv at hspec
  cases hspec with
  | returned may => cases may
  | cancelled => exact ⟨rfl, .calm rfl⟩
  | cancelUnread => exact ⟨rfl, .unread hb⟩

/-- A calm frame goes on calmly. -/
theorem calm_resume {frame : Frame} (h : frame.isCalm = true) (r : Result) (below : Frame) :
    (w.resume frame r).control.Suits below := by
  cases frame with
  | delivering => exact .calm rfl
  | completed => exact .ret
  | notifying => exact .ret
  | sweeping => exact .calm rfl
  | _ => cases h

/-- A frame that is unwound leaves no fragile one. -/
theorem not_fragile_unwind (frame : Frame) (p : Panic) :
    ∀ f ∈ (w.unwind frame p).frames, f.isFragile = false := by
  cases frame with
  | guarding claim =>
      intro f hf
      obtain rfl := List.mem_singleton.mp hf
      rfl
  | _ => exact fun f hf => nomatch hf

end World

/-! ## Machines

A machine is orderly if the frames on its stack suit each other, and what it does next suits the topmost.
Without the assumption about the sink only a weaker statement survives, which allows a panic on its way.
-/

namespace Machine

variable {m : Machine}

/-- Putting the frames of a move on a stack. -/
theorem orderly_ofMove {mv : Move} {stack : List Frame} (hmv : mv.Orderly)
    (hstack : stack.IsChain Frame.Below)
    (hbelow : ∀ below ∈ stack.head?, below.isFragile = true →
      (∀ f ∈ mv.frames.getLast?, f.isCalm = true) ∧ (mv.frames = [] → mv.control.Suits below)) :
    (ofMove mv stack).Orderly := by
  constructor
  · refine List.isChain_append.mpr ⟨hmv.frames, hstack, ?_⟩
    intro f hf below hb hfragile
    exact (hbelow below hb hfragile).1 f hf
  · intro f hf hfragile
    have hf' : f ∈ (mv.frames ++ stack).head? := hf
    cases hframes : mv.frames with
    | nil =>
        rw [hframes] at hf'
        exact (hbelow f hf' hfragile).2 hframes
    | cons g rest =>
        rw [hframes] at hf'
        cases hf'
        exact hmv.control f (by rw [hframes]; rfl) hfragile

/-- If the sink returns, no step breaks into a fragile frame. -/
theorem Orderly.step (h : m.Orderly) (sound : m.world.Sound) (sink : m.SinkReturns) :
    m.step.Orderly := by
  obtain ⟨w, control, stack⟩ := m
  cases control with
  | call c =>
      refine orderly_ofMove (World.orderly_invoke sound c) h.frames ?_
      intro below hb hfragile
      -- Above a fragile frame this is a calm call, or the cancellation before an enrichment.
      cases h.control below hb hfragile with
      | calm hc =>
          rcases World.calm_invoke sound hc (fun e he => sink e (he ▸ rfl)) with
            ⟨f, hframes, hf⟩ | ⟨hframes, hsuits⟩
          · rw [hframes]
            refine ⟨?_, nofun⟩
            intro g hg
            cases hg
            exact hf
          · rw [hframes]
            exact ⟨nofun, fun _ => hsuits below⟩
      | cancel henriching =>
          obtain ⟨hframes, hsuits⟩ := World.cancel_invoke sound _ _ henriching
          rw [hframes]
          exact ⟨nofun, fun _ => hsuits⟩
  | ret r =>
      cases stack with
      | nil => exact h
      | cons frame stack =>
          rcases World.frames_resume (w := w) frame r with hframes | ⟨_, -, hstays⟩
          · obtain ⟨habove, hstack⟩ := List.isChain_cons.mp h.frames
            refine orderly_ofMove (Move.orderly_of_not_fragile (by simp [hframes])) hstack ?_
            intro below hb hfragile
            rw [hframes]
            exact ⟨nofun, fun _ => World.calm_resume (habove below hb hfragile) r below⟩
          · -- The machine stays as it is.
            have hsame : Machine.step ⟨w, .ret r, frame :: stack⟩ = ⟨w, .ret r, frame :: stack⟩ :=
              congrArg (ofMove · stack) hstays
            rw [hsame]
            exact h
  | raise p =>
      cases stack with
      | nil => exact h
      | cons frame stack =>
          obtain ⟨habove, hstack⟩ := List.isChain_cons.mp h.frames
          refine orderly_ofMove
            (Move.orderly_of_not_fragile (World.not_fragile_unwind frame p)) hstack ?_
          intro below hb hfragile
          -- A calm frame that a panic reaches is not fragile itself, so it keeps the panic in.
          have hcalm := habove below hb hfragile
          cases hf : frame.isFragile with
          | false =>
              cases frame with
              | notifying => exact ⟨nofun, fun _ => .calm rfl⟩
              | _ => simp_all [Frame.isCalm, Frame.isFragile]
          | true =>
              cases h.control frame rfl hf with
              | unread henriching =>
                  cases frame <;> simp_all [Frame.isCalm, Frame.isEnriching]

/-- A machine that is orderly has no panic coming through. -/
theorem Orderly.braced (h : m.Orderly) : m.Braced :=
  ⟨h.frames, fun f hf hfragile => .inl (h.control f hf hfragile)⟩

/-- Without a panic, a braced machine is orderly. -/
theorem Braced.orderly (h : m.Braced) (calm : ∀ p, m.control ≠ .raise p) : m.Orderly :=
  ⟨h.frames, fun f hf hfragile => (h.control f hf hfragile).resolve_right fun ⟨p, hp⟩ => calm p hp⟩

/-- A fragile frame lets every panic through. -/
theorem unwind_of_fragile {w : World} {frame : Frame} (h : frame.isFragile = true) (p : Panic) :
    w.unwind frame p = w.raise p := by
  cases frame <;> first | rfl | cases h

/-- A panic that has come through to fragile frames comes through to the bottom of them. -/
theorem Braced.step (h : m.Braced) (sound : m.world.Sound) : m.step.Braced := by
  by_cases hpanic : ∃ p, m.control = .raise p
  · obtain ⟨p, hp⟩ := hpanic
    obtain ⟨w, control, stack⟩ := m
    obtain rfl : control = .raise p := hp
    cases stack with
    | nil => exact h
    | cons frame stack =>
      cases hf : frame.isFragile with
      | true =>
        have hstep : step ⟨w, .raise p, frame :: stack⟩ = ⟨w, .raise p, stack⟩ :=
          congrArg (ofMove · stack) (unwind_of_fragile hf p)
        rw [hstep]
        exact ⟨h.frames.tail, fun _ _ _ => .inr ⟨p, rfl⟩⟩
      | false =>
        have horderly : Orderly ⟨w, .raise p, frame :: stack⟩ := by
          refine ⟨h.frames, fun f hmem hfragile => ?_⟩
          cases hmem
          exact nomatch hf.symm.trans hfragile
        exact (horderly.step sound nofun).braced
  · have horderly := h.orderly fun p hp => hpanic ⟨p, hp⟩
    by_cases sink : m.SinkReturns
    · exact (horderly.step sound sink).braced
    · -- The sink breaks off.
      unfold SinkReturns at sink
      push Not at sink
      obtain ⟨e, call, hsink⟩ := sink
      obtain ⟨w, control, stack⟩ := m
      obtain rfl : control = .call (.report e) := call
      have hreport : w.invoke (.report e) =
          (w.note (.sunk (w.reportError e))).raise (.message "sink failed") := by
        show w.report e = _
        rw [World.report, hsink]
      have hstep : step ⟨w, .call (.report e), stack⟩ =
          ⟨w.note (.sunk (w.reportError e)), .raise (.message "sink failed"), stack⟩ :=
        congrArg (ofMove · stack) hreport
      rw [hstep]
      exact ⟨h.frames, fun _ _ _ => .inr ⟨_, rfl⟩⟩

/-- A run above some frames stays orderly as long as the sink returns. -/
theorem Orderly.iterate {frames : List Frame} (h : (m.above frames).Orderly)
    (sound : m.world.Sound) {n : Nat} (sink : ∀ k < n, (m.iterate k).SinkReturns) :
    ((m.iterate n).above frames).Orderly := by
  induction n generalizing m with
  | zero => exact h
  | succ n ih =>
      cases hr : m.atRest with
      | true =>
          rw [iterate_of_atRest hr]
          exact h
      | false =>
          apply ih ?_ (step_sound sound) (fun k hk => sink (k + 1) (Nat.succ_lt_succ hk))
          rw [← step_above hr]
          exact h.step sound (sink 0 (Nat.succ_pos n))

/-- A calm call does not break off as long as the sink returns. -/
theorem calm_not_raise {w w' : World} {c : Call} {p : Panic} (sound : w.Sound)
    (hc : c.isCalm = true) {n : Nat}
    (sink : ∀ k < n, ((⟨w, .call c, []⟩ : Machine).iterate k).SinkReturns) :
    (⟨w, .call c, []⟩ : Machine).iterate n ≠ ⟨w', .raise p, []⟩ := by
  intro hn
  -- The run goes on in the same way above a frame that is fragile.
  have horderly : ((⟨w, .call c, []⟩ : Machine).above [.completed]).Orderly :=
    ⟨.singleton _, fun f hf _ => .calm hc⟩
  have hend := horderly.iterate sound sink
  rw [hn] at hend
  cases hend.control .completed rfl rfl with
  | unread henriching => cases henriching

end Machine

/-! ## Whole runs

The assumption about the sink is about the past: it has returned from every report so far.
-/

namespace History

variable {capacity : Nat} {m : Machine} {past : List Machine}

/-- As long as the sink has returned, no fragile frame is skipped. -/
theorem orderly (h : History capacity m past) (sink : ∀ x ∈ past, x.SinkReturns) : m.Orderly := by
  induction h with
  | start => exact ⟨.nil, nofun⟩
  | step before busy ih =>
      have hm := ih fun x hx => sink x (List.mem_cons_of_mem _ hx)
      exact hm.step before.sound (sink _ List.mem_cons_self)
  | enter => exact ⟨.nil, nofun⟩

/-- Whatever the sink does, fragile frames are safe while no panic is coming through. -/
theorem braced (h : History capacity m past) : m.Braced := by
  induction h with
  | start => exact ⟨.nil, nofun⟩
  | step before busy ih => exact ih.step before.sound
  | enter => exact ⟨.nil, nofun⟩

/-- From a machine on where no panic is coming through, no fragile frame is skipped as long as the sink
returns. -/
theorem orderly_since {newer older : List Machine} {x : Machine}
    (h : History capacity m (newer ++ x :: older)) (calm : ∀ p, x.control ≠ .raise p)
    (sink : ∀ z ∈ newer ++ [x], z.SinkReturns) : m.Orderly := by
  induction newer generalizing m with
  | nil =>
    have before := h.before
    rcases h.step_or_enter with ⟨-, rfl⟩ | ⟨-, thread, log, c, -, rfl⟩
    · exact (before.braced.orderly calm).step before.sound (sink x (List.mem_singleton_self x))
    · exact ⟨.nil, nofun⟩
  | cons z newer ih =>
    have before := h.before
    have hz := ih before fun z hz => sink z (List.mem_cons_of_mem _ hz)
    rcases h.step_or_enter with ⟨-, rfl⟩ | ⟨-, thread, log, c, -, rfl⟩
    · exact hz.step before.sound (sink z List.mem_cons_self)
    · exact ⟨.nil, nofun⟩

end History

end RequestGraph
