import RequestGraph.Proofs.Engine.Calm
import RequestGraph.Proofs.Engine.Ending
import RequestGraph.Proofs.Request.Jobs

/-!
# Where panics stay

What a job breaks off with is kept in by the job, and what a node breaks off with already by the node; both
go on with a call that breaks off only if the sink does. So nobody who asks for a key, or dispatches a job, or
runs one that was queued, is reached by a panic as long as the sink returns:

    w.Performs c w' e   →   e is a result       where c fetches a key, or dispatches or runs a job
-/

namespace RequestGraph

/-- The calls that keep panics in: fetches, dispatches, and the runs of jobs and of nodes. -/
def Call.keepsIn : Call → Bool
  | .fetch .. | .dispatch .. | .perform .. | .performQueued .. | .job (.node ..) => true
  | _ => false

namespace Machine

variable {m : Machine} {w w' : World} {frames : List Frame}

/-- The sink returns whenever an error is reported to it in a run. -/
def SinkHolds (m : Machine) : Prop := ∀ n, (m.iterate n).SinkReturns

/-- A run whose sink returns ends with a result, if it ends at all. -/
def ComesBack (m : Machine) : Prop := m.SinkHolds → ∀ w e, m.Ends w e → ∃ r, e = .ret r

theorem SinkHolds.iterate (h : m.SinkHolds) (n : ℕ) : (m.iterate n).SinkHolds := by
  intro k
  rw [← iterate_add]
  exact h (n + k)

theorem SinkHolds.step (h : m.SinkHolds) : m.step.SinkHolds := h.iterate 1

theorem sinkReturns_of_atRest (rest : m.atRest = true) : m.SinkReturns := by
  intro e call
  cases rest.symm.trans (busy_of_call call)

/-- What holds of a run above some frames holds of the run itself, up to its end. -/
theorem SinkHolds.of_above (h : (m.above frames).SinkHolds) : m.SinkHolds := by
  intro n
  rcases iterate_above (m := m) frames n with hn | ⟨k, hk, rest, -⟩
  · have := h n
    rw [hn] at this
    exact this
  · -- The run has come to its end by then.
    obtain ⟨i, rfl⟩ := Nat.exists_eq_add_of_le hk
    rw [iterate_add, iterate_of_atRest rest]
    exact sinkReturns_of_atRest rest

theorem sound_iterate (sound : m.world.Sound) (n : ℕ) : (m.iterate n).world.Sound := by
  induction n generalizing m with
  | zero => exact sound
  | succ n ih => exact ih (step_sound sound)

/-! ## Runs that come back

The induction is on the number of steps, over all calls that keep panics in at once, since a job may fetch
keys and a fetch may run jobs.
-/

theorem ComesBack.of_step (h : m.step.ComesBack) : m.ComesBack := by
  intro sink w e ends
  exact h (sink.iterate 1) w e (ends_iff_step.mp ends)

theorem comesBack_ret (w : World) (r : Result) : (⟨w, .ret r, []⟩ : Machine).ComesBack := by
  intro _ w' e ends
  have := (ends_of_atRest rfl).mp ends
  exact ⟨r, (congrArg control this).symm⟩

/-- A run above some frames comes back if whatever it ends with does so with the frames. -/
theorem comesBack_above (sound : m.world.Sound)
    (rest : ∀ w e, w.Sound → m.Ends w e → m.SinkHolds → (⟨w, e, frames⟩ : Machine).ComesBack) :
    (m.above frames).ComesBack := by
  intro sink w' e' ends'
  obtain ⟨w, e, ends, goesOn⟩ := ends_above.mp ends'
  obtain ⟨n, hn⟩ := ends.reaches frames
  have sound' : w.Sound := by
    obtain ⟨-, k, hk⟩ := ends
    have := sound_iterate sound k
    rwa [hk] at this
  have sink' : (⟨w, e, frames⟩ : Machine).SinkHolds := hn ▸ sink.iterate n
  exact rest w e sound' ends sink.of_above sink' w' e' goesOn

/-- So it does if it comes back by itself, and the frames go on with any result. -/
theorem ComesBack.above (h : m.ComesBack) (sound : m.world.Sound)
    (rest : ∀ w r, w.Sound → (⟨w, .ret r, frames⟩ : Machine).ComesBack) :
    (m.above frames).ComesBack := by
  refine comesBack_above sound fun w e sound ends sink => ?_
  obtain ⟨r, rfl⟩ := h sink w e ends
  exact rest w r sound

/-- A calm call comes back. -/
theorem comesBack_of_isCalm {c : Call} (sound : w.Sound) (calm : c.isCalm = true) :
    (⟨w, .call c, []⟩ : Machine).ComesBack := by
  intro sink w' e ends
  obtain ⟨he, n, hn⟩ := ends
  cases e with
  | call => cases he
  | ret r => exact ⟨r, rfl⟩
  | raise p => exact absurd hn (calm_not_raise sound calm fun k _ => sink k)

end Machine

namespace World

open Machine

variable {w : World} {c : CellId} {o : Outcome}

/-! ## Jobs -/

/-- A job keeps its panic in, and puts the ambient back. -/
theorem comesBack_perform (sound : w.Sound) (a : Ambient) (j : Job) :
    (⟨w, .call (.perform a j), []⟩ : Machine).ComesBack := by
  apply ComesBack.of_step
  let entered : World := { w with thread := { w.thread with ambient := a } }
  show ((⟨entered, .call (.job j), []⟩ : Machine).above [.reporting, .restoring w.thread.ambient]).ComesBack
  refine comesBack_above (sound.of_cells_eq rfl) fun w₁ e sound₁ ends _ => ?_
  cases e with
  | call => exact nomatch ends.1
  | ret r => exact ((comesBack_ret _ _).of_step).of_step
  | raise p =>
    apply ComesBack.of_step
    exact (comesBack_of_isCalm sound₁ rfl).above sound₁ fun w₂ r _ => (comesBack_ret _ _).of_step

theorem comesBack_performQueued (sound : w.Sound) (e : ExecutorId) (s : Submission Job) :
    (⟨w, .call (.performQueued e s), []⟩ : Machine).ComesBack := by
  apply ComesBack.of_step
  let entered : World := { w with thread := { w.thread with inside := some e } }
  have sound' : entered.Sound := sound.of_cells_eq rfl
  exact (comesBack_perform sound' s.ambient s.job).above sound' fun w₁ r _ =>
    (comesBack_ret _ _).of_step

theorem comesBack_dispatch (sound : w.Sound) (pool : Pool) (j : Job) :
    (⟨w, .call (.dispatch pool j), []⟩ : Machine).ComesBack := by
  apply ComesBack.of_step
  show (ofMove (w.dispatch pool j) []).ComesBack
  unfold dispatch
  split
  · exact comesBack_perform sound _ _
  · split
    · exact comesBack_perform sound _ _
    · exact comesBack_ret _ _
  · exact comesBack_ret _ _

/-- The guard of a node completes its cell with a panic, or hands it to the sink. -/
theorem comesBack_guarding (sound : w.Sound) (p : Panic) (claim : Claim) :
    (⟨w, .raise p, [.guarding claim]⟩ : Machine).ComesBack := by
  apply ComesBack.of_step
  refine (comesBack_of_isCalm sound rfl).above sound fun w₁ r sound₁ => ?_
  apply ComesBack.of_step
  have hspec := w₁.resume_spec (.accounting (.ofPanic p)) r
  show (ofMove (w₁.resume _ r) []).ComesBack
  generalize w₁.resume (.accounting (.ofPanic p)) r = mv at hspec
  cases hspec with
  | returned => exact comesBack_ret _ _
  | accounting => exact comesBack_of_isCalm sound₁ rfl

/-- A node keeps its panic in. -/
theorem comesBack_node (sound : w.Sound) (k : ContextId) (target : CellId) (node : Node) :
    (⟨w, .call (.job (.node k target node)), []⟩ : Machine).ComesBack := by
  have sound₁ := step_sound (m := ⟨w, .call (.job (.node k target node)), []⟩) sound
  apply ComesBack.of_step
  rw [step_call rfl] at sound₁ ⊢
  by_cases free : (w.cell target).isRealized = false ∧ (w.cell target).owner = none
  · rw [job_of_free sound free.1 free.2] at sound₁ ⊢
    refine comesBack_above (m := ⟨w.starting target node.key, _, []⟩) sound₁
      fun w₁ e sound₁ ends _ => ?_
    cases e with
    | call => exact nomatch ends.1
    | ret r => exact (comesBack_ret _ _).of_step
    | raise p => exact comesBack_guarding sound₁ p _
  · rw [not_and_or, Bool.not_eq_false] at free
    rw [job_of_taken sound free]
    exact comesBack_ret _ _

/-! ## Fetches -/

/-- A new cell of a context is completed by its input, now or later, without a panic. -/
theorem comesBack_forward (sound : w.Sound) (source : Source) :
    (⟨w, .call (.forward c source none), []⟩ : Machine).ComesBack := by
  have settles (o : Outcome) : (⟨w, .call (.settle c o none), []⟩ : Machine).ComesBack :=
    ComesBack.of_step (m := ⟨w, .call (.settle c o none), []⟩) <|
      comesBack_of_isCalm (c := .complete c o .unowned) sound rfl
  apply ComesBack.of_step
  cases source with
  | value n => exact settles _
  | cell d =>
    show (ofMove (w.forward c (.cell d) none) []).ComesBack
    simp only [forward]
    split
    · exact settles _
    · exact comesBack_of_isCalm (c := .subscribe d (.forward c none)) sound rfl

theorem comesBack_fetch (sound : w.Sound) (k : ContextId) (index : KeyIndex) (key : String) :
    (⟨w, .call (.fetch k index key), []⟩ : Machine).ComesBack := by
  have sound₁ := step_sound (m := ⟨w, .call (.fetch k index key), []⟩) sound
  apply ComesBack.of_step
  rw [step_call rfl] at sound₁ ⊢
  have hspec := invoke_spec sound (.fetch k index key)
  generalize w.invoke (.fetch k index key) = mv at hspec sound₁
  have made (w₁ : World) (r : Result) (_ : w₁.Sound) :
      (⟨w₁, .ret r, [.made w.cells.size]⟩ : Machine).ComesBack := (comesBack_ret _ _).of_step
  cases hspec with
  | returned => exact comesBack_ret _ _
  | fetched => exact comesBack_ret _ _
  | fetchedLate => exact (comesBack_of_isCalm sound₁ rfl).above sound₁ made
  | fetchedNew _ _ _ starts => cases starts with
    | input source => exact (comesBack_forward sound₁ source).above sound₁ made
    | node pool k node => exact (comesBack_dispatch sound₁ pool _).above sound₁ made
    | unknown key => exact (comesBack_of_isCalm sound₁ rfl).above sound₁ made

/-- **Panics stay in jobs and nodes.** -/
theorem comesBack_of_keepsIn (sound : w.Sound) {c : Call} (keepsIn : c.keepsIn = true) :
    (⟨w, .call c, []⟩ : Machine).ComesBack := by
  cases c with
  | fetch k index key => exact comesBack_fetch sound k index key
  | dispatch pool j => exact comesBack_dispatch sound pool j
  | perform a j => exact comesBack_perform sound a j
  | performQueued e s => exact comesBack_performQueued sound e s
  | job j => cases j with
    | node k target node => exact comesBack_node sound k target node
    | user => cases keepsIn
  | _ => cases keepsIn

/-- Asking for a key breaks off only if there is no index left for it. -/
theorem exhausted_of_fetchKey (sound : w.Sound) {k : ContextId} {key : String} {w' : World} {p : Panic}
    (sink : (⟨w, .call (.fetchKey k key), []⟩ : Machine).SinkHolds)
    (breaks : w.Performs (.fetchKey k key) w' (.raise p)) :
    (w.keys.intern key).2 = none ∧ p = .broken .indexLeft ∧ w' = w := by
  cases hintern : w.keys.intern key with
  | mk keys index => cases index with
    | none =>
      have hmove : w.invoke (.fetchKey k key) = w.broken .indexLeft := by
        show w.fetchKey k key = _
        rw [fetchKey, hintern]
      obtain ⟨rfl, heq⟩ := (performs_end hmove rfl).mp breaks
      cases heq
      exact ⟨rfl, rfl, rfl⟩
    | some index =>
      have hmove : w.invoke (.fetchKey k key) = { w with keys }.call (.fetch k index key) := by
        show w.fetchKey k key = _
        rw [fetchKey, hintern]
      have hstep : (⟨w, .call (.fetchKey k key), []⟩ : Machine).step =
          ⟨{ w with keys }, .call (.fetch k index key), []⟩ := by
        rw [step_call rfl, hmove]
        rfl
      have sink' : (⟨{ w with keys }, .call (.fetch k index key), []⟩ : Machine).SinkHolds :=
        hstep ▸ sink.step
      obtain ⟨r, hr⟩ := comesBack_fetch (w := { w with keys }) (sound.of_cells_eq rfl) k index key
        sink' w' _ ((performs_tail hmove).mp breaks)
      cases hr

end World

end RequestGraph
