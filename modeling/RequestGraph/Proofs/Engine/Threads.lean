import RequestGraph.Proofs.Engine.Executors

/-!
# The state of the thread

A scope changes the ambient of the running thread, and so does a job that begins; an executor that runs a job
marks the thread. All of them *enclose* what is done until they come back, or are left by a panic, and then the
thread is put back. So the state of the thread is that of what encloses the code that is running:

    the ambient   is that of the innermost scope or job
    the mark      is that of the innermost executor that is running a job
-/

namespace RequestGraph

/-! ## Innermost bindings

Looking a type up stops at the first binding of the type. What it finds can be said without going through
the bindings.
-/

/-- The innermost binding of a type: no binding within it is of that type. -/
def Ambient.Innermost (a : Ambient) (type : BindingType) (b : Binding) : Prop :=
  b.type = type ∧ ∃ within outside, a.bindings = within ++ b :: outside ∧ ∀ b' ∈ within, b'.type ≠ type

/-- Looking a type up finds its innermost binding. -/
theorem Ambient.lookup_eq_some_iff {a : Ambient} {type : BindingType} {b : Binding} :
    a.lookup type = some b ↔ a.Innermost type b := by
  simp [lookup, Innermost, List.find?_eq_some_iff_append]

/-! ## Enclosures

The enclosures are read off the calls and the results of a run, and do not depend on the state of the
thread. The invariant says that the two agree, and that each enclosure has a frame that will put the thread
back.
-/

/-- What the state of the thread is changed for. -/
inductive Enclosure where
  /-- A scope that was entered. -/
  | scope (a : Ambient)
  /-- A job that has begun. -/
  | job (s : Submission Job)
  /-- An executor that is running a job. -/
  | executor (e : ExecutorId)

/-- The executor that an enclosure is of. -/
def Enclosure.executor? : Enclosure → Option ExecutorId
  | .executor e => some e
  | _ => none

/-- What a call encloses itself in. -/
def World.enclosure? (w : World) : Call → Option Enclosure
  | .perform a j => some (.job ⟨a, j⟩)
  | .performQueued e _ => some (.executor e)
  | .op (.pool (.scope name _)) _ => (w.ambient? name).toOption.map .scope
  | _ => none

/-- What the code that runs next is enclosed in, innermost first, as it follows from what the machine was
enclosed in before. -/
def Machine.enclose (m : Machine) (enclosures : List Enclosure) : List Enclosure :=
  match m.control, m.stack with
  | .call c, _ => (m.world.enclosure? c).toList ++ enclosures
  | _, frame :: _ => if frame.restores then enclosures.tail else enclosures
  | _, [] => enclosures

/-- What the code that runs next is enclosed in, innermost first, after all these steps. -/
def enclosures (past : List Machine) : List Enclosure := past.foldr Machine.enclose []

/-- The innermost executor that is running a job. -/
def runningExecutor? (past : List Machine) : Option ExecutorId :=
  (enclosures past).findSome? Enclosure.executor?

/-- The state of the thread is that of its enclosures, each of which has left a frame that puts it back. -/
inductive Encloses : List Frame → Thread → List Enclosure → Prop
  | outside {t : Thread} (unmarked : t.inside = none) : Encloses [] t []
  | frame {f : Frame} {stack : List Frame} {t : Thread} {xs : List Enclosure} (keeps : f.restores = false)
      (below : Encloses stack t xs) : Encloses (f :: stack) t xs
  | scope {a : Ambient} {stack : List Frame} {t : Thread} {xs : List Enclosure}
      (below : Encloses stack { t with ambient := a } xs) :
      Encloses (.restoring a :: stack) t (.scope t.ambient :: xs)
  | job {a : Ambient} {j : Job} {stack : List Frame} {t : Thread} {xs : List Enclosure}
      (below : Encloses stack { t with ambient := a } xs) :
      Encloses (.restoring a :: stack) t (.job ⟨t.ambient, j⟩ :: xs)
  | executor {e : ExecutorId} {inside : Option ExecutorId} {stack : List Frame} {t : Thread}
      {xs : List Enclosure} (marked : t.inside = some e) (below : Encloses stack { t with inside } xs) :
      Encloses (.leaving inside :: stack) t (.executor e :: xs)

namespace Encloses

variable {stack frames : List Frame} {t : Thread} {xs : List Enclosure}

/-- Inside a job the ambient is the one that the job was handed in with. -/
theorem ambient_eq {s : Submission Job} (h : Encloses stack t (.job s :: xs)) : t.ambient = s.ambient := by
  generalize hys : Enclosure.job s :: xs = ys at h
  induction h with
  | outside | scope | executor => cases hys
  | frame _ _ ih => exact ih hys
  | job => cases hys; rfl

/-- The executor that marks the thread is the innermost one that runs a job. -/
theorem inside_eq (h : Encloses stack t xs) : t.inside = xs.findSome? Enclosure.executor? := by
  induction h with
  | outside unmarked => exact unmarked
  | frame _ _ ih => exact ih
  | scope _ ih | job _ ih => exact ih
  | executor marked => exact marked

/-- Where no frame is left, nothing encloses what is done. -/
theorem eq_nil (h : Encloses [] t xs) : xs = [] := by
  cases h
  rfl

/-- Frames that put nothing back do not matter. -/
theorem append (h : Encloses stack t xs) (keep : frames.filter Frame.restores = []) :
    Encloses (frames ++ stack) t xs := by
  induction frames with
  | nil => exact h
  | cons f frames ih =>
    obtain ⟨keeps, keep⟩ := List.forall_mem_cons.mp (List.filter_eq_nil_iff.mp keep)
    exact .frame (Bool.eq_false_iff.mpr keeps) (ih (List.filter_eq_nil_iff.mpr keep))

end Encloses

/-! ## Putting the thread back

A frame puts the thread back in the same way whether a result or a panic comes through. So it is enough to
know which state the frames on the stack would leave, whatever happens above them.
-/

/-- What a frame does to the state of the thread. -/
def Frame.restore : Frame → Thread → Thread
  | .restoring ambient, t => { t with ambient }
  | .leaving inside, t => { t with inside }
  | _, t => t

/-- The state of the thread once some frames have been left. -/
def restored (frames : List Frame) (t : Thread) : Thread := frames.foldl (fun t frame => frame.restore t) t

/-- Most frames leave the thread alone. -/
theorem Frame.restore_of_keeps {frame : Frame} (keeps : frame.restores = false) (t : Thread) :
    frame.restore t = t := by
  cases frame with
  | restoring | leaving => cases keeps
  | _ => rfl

/-- Frames are left from the innermost one on. -/
theorem restored_append (frames below : List Frame) (t : Thread) :
    restored (frames ++ below) t = restored below (restored frames t) := List.foldl_append

/-- Frames that put nothing back leave the thread alone. -/
theorem restored_of_keep {frames : List Frame} (keep : frames.filter Frame.restores = []) (t : Thread) :
    restored frames t = t := by
  induction frames with
  | nil => rfl
  | cons f frames ih =>
    obtain ⟨keeps, keep⟩ := List.forall_mem_cons.mp (List.filter_eq_nil_iff.mp keep)
    show restored frames (f.restore t) = t
    rw [Frame.restore_of_keeps (Bool.eq_false_iff.mpr keeps)]
    exact ih (List.filter_eq_nil_iff.mpr keep)

namespace World

variable {w : World}

/-- What entering a scope does. -/
theorem invoke_scope {name : String} {body : Script} {scope : Scope} {a : Ambient}
    (found : w.ambient? name = .ok a) : w.invoke (.op (.pool (.scope name body)) scope) =
      { w with thread := { w.thread with ambient := a } }.call (.script body scope)
        [.restoring w.thread.ambient, .answer .nothing] := by
  show (w.poolOp scope (.scope name body)).orUnknown w = _
  simp only [poolOp, found]
  rfl

/-- A scope with an unknown ambient is not entered. -/
theorem invoke_scope_unknown {name unknown : String} {body : Script} {scope : Scope}
    (missing : w.ambient? name = .error unknown) :
    w.invoke (.op (.pool (.scope name body)) scope) = w.reply (.unknownName unknown) := by
  show (w.poolOp scope (.scope name body)).orUnknown w = _
  simp only [poolOp, missing]
  rfl

/-- A result that comes through a frame puts back what the frame has kept. -/
theorem thread_resume (frame : Frame) (r : Result) :
    (w.resume frame r).world.thread = frame.restore w.thread := by
  cases restores : frame.restores with
  | false =>
    rw [Frame.restore_of_keeps restores]
    exact congrArg (·.2.1.thread) (holdings_resume restores r)
  | true => cases frame with
    | restoring | leaving => rfl
    | _ => cases restores

/-- A panic that comes through a frame puts back the same. -/
theorem thread_unwind (frame : Frame) (p : Panic) :
    (w.unwind frame p).world.thread = frame.restore w.thread := by
  cases frame <;> rfl

/-- A frame that is unwound leaves none that puts anything back. -/
theorem filter_unwind (frame : Frame) (p : Panic) : (w.unwind frame p).frames.filter Frame.restores = [] := by
  cases frame <;> rfl

/-- A call that changes the state of the thread says so. -/
inductive Entering (w : World) : Call → Move → Prop
  | keeping {c : Call} {mv : Move} (none : w.enclosure? c = none) (thread : mv.world.thread = w.thread)
      (keep : mv.frames.filter Frame.restores = []) : Entering w c mv
  | scope {name : String} {body : Script} {scope : Scope} {a : Ambient} (found : w.ambient? name = .ok a) :
      Entering w (.op (.pool (.scope name body)) scope)
        ({ w with thread := { w.thread with ambient := a } }.call (.script body scope)
          [.restoring w.thread.ambient, .answer .nothing])
  | job {a : Ambient} {j : Job} : Entering w (.perform a j)
      ({ w with thread := { w.thread with ambient := a } }.call (.job j)
        [.reporting, .restoring w.thread.ambient])
  | executor {e : ExecutorId} {s : Submission Job} : Entering w (.performQueued e s)
      ({ w with thread := { w.thread with inside := some e } }.call (.perform s.ambient s.job)
        [.leaving w.thread.inside])

/-- Only scopes, jobs and executors enclose anything. -/
theorem enclosure?_of_not_enters {c : Call} (h : c.enters = false) : w.enclosure? c = none := by
  cases c with
  | op op scope => cases op with
    | pool op => cases op with
      | scope => cases h
      | _ => rfl
    | _ => rfl
  | perform | performQueued => cases h
  | _ => rfl

/-- What encloses itself leaves the frame that puts the thread back, and nothing else touches the thread.
-/
theorem entering_invoke (w : World) (c : Call) : w.Entering c (w.invoke c) := by
  cases enters : c.enters with
  | false =>
    obtain ⟨thread, keep⟩ := thread_invoke (w := w) enters
    exact .keeping (enclosure?_of_not_enters enters) thread keep
  | true => cases c with
    | op op scope => cases op with
      | pool op => cases op with
        | scope name body =>
          cases found : w.ambient? name with
          | ok a =>
            rw [invoke_scope found]
            exact .scope found
          | error unknown =>
            rw [invoke_scope_unknown found]
            exact .keeping (by simp [enclosure?, found, Except.toOption]) rfl rfl
        | _ => cases enters
      | _ => cases enters
    | perform a j => exact .job
    | performQueued e s => exact .executor
    | _ => cases enters

/-- A job encloses what it runs when it begins. -/
theorem eq_perform_of_enclosure? {c : Call} {s : Submission Job} (h : w.enclosure? c = some (.job s)) :
    c = .perform s.ambient s.job := by
  cases c with
  | perform a j =>
    cases h
    rfl
  | op op scope => cases op with
    | pool op => cases op with
      | scope name body =>
        obtain ⟨a, -, ha⟩ := Option.map_eq_some_iff.mp h
        cases ha
      | _ => cases h
    | _ => cases h
  | _ => cases h

/-- Whatever a call has changed the frames that it has left put back. -/
theorem restored_invoke (c : Call) : restored (w.invoke c).frames (w.invoke c).world.thread = w.thread := by
  have entering := w.entering_invoke c
  generalize w.invoke c = mv at entering
  cases entering with
  | keeping _ thread keep => rw [restored_of_keep keep, thread]
  | scope | job | executor => rfl

end World

/-! ## Steps

The invariant is kept by every step, and so it holds along every run. For a single call it gives the state
of the thread when the call is over.
-/

namespace Machine

variable {m m' x : Machine} {xs : List Enclosure} {past between before : List Machine}

/-- Each step leaves the thread with the state of what then encloses it. -/
theorem encloses_step (h : Encloses m.stack m.world.thread xs) :
    Encloses m.step.stack m.step.world.thread (m.enclose xs) := by
  obtain ⟨w, control, stack⟩ := m
  cases control with
  | call c =>
    have entering := w.entering_invoke c
    show Encloses ((w.invoke c).frames ++ stack) (w.invoke c).world.thread ((w.enclosure? c).toList ++ xs)
    generalize w.invoke c = mv at entering
    cases entering with
    | keeping none thread keep =>
      rw [none, thread]
      exact h.append keep
    | @scope name body scope a found =>
      have enclosed : w.enclosure? (.op (.pool (.scope name body)) scope) = some (.scope a) := by
        simp [World.enclosure?, found, Except.toOption]
      rw [enclosed]
      exact .scope (t := { w.thread with ambient := a }) (.frame rfl h)
    | @job a j => exact .frame rfl (.job (t := { w.thread with ambient := a }) h)
    | executor => exact .executor rfl h
  | ret r => cases stack with
    | nil => exact h
    | cons frame stack =>
      show Encloses ((w.resume frame r).frames ++ stack) (w.resume frame r).world.thread
        (if frame.restores then xs.tail else xs)
      -- Only a wait before a latch may stay where it is, and it puts nothing back.
      rcases World.frames_resume (w := w) frame r with hframes | ⟨_, rfl, hstays⟩
      · rw [hframes, World.thread_resume]
        cases h with
        | frame keeps below => rwa [keeps, Frame.restore_of_keeps keeps]
        | scope below | job below | executor _ below => exact below
      · rw [hstays]
        exact h
  | raise p => cases stack with
    | nil => exact h
    | cons frame stack =>
      show Encloses ((w.unwind frame p).frames ++ stack) (w.unwind frame p).world.thread
        (if frame.restores then xs.tail else xs)
      rw [World.thread_unwind]
      cases h with
      | frame keeps below =>
        rw [keeps, Frame.restore_of_keeps keeps]
        exact below.append (World.filter_unwind frame p)
      | scope below | job below | executor _ below => exact below

/-- Whatever an executor does with a job, the thread stays that of its enclosures. -/
theorem encloses_go (h : Encloses m.stack m.world.thread xs) (goes : m.Goes m') :
    Encloses m'.stack m'.world.thread (m.enclose xs) := by
  rcases goes.cases with rfl | ⟨e, s, submits, rfl⟩
  · exact encloses_step h
  · obtain ⟨pool, call, -, -⟩ := submits.call
    rw [enclose, call]
    exact h

/-- A run above some frames puts the thread back before it hands anything to them. -/
theorem restored_go {frames below : List Frame} (stack : m.stack = frames ++ below)
    (above : m.control.isCall = false → frames ≠ []) (goes : m.Goes m') :
    ∃ frames', m'.stack = frames' ++ below ∧
      restored frames' m'.world.thread = restored frames m.world.thread := by
  -- A step of the machine, or a job that goes to an executor instead of running: that leaves the frames
  -- alone.
  rcases goes.cases with rfl | ⟨e, s, -, rfl⟩
  · obtain ⟨w, control, _⟩ := m
    subst stack
    cases control with
    | call c =>
      refine ⟨(w.invoke c).frames ++ frames, (List.append_assoc ..).symm, ?_⟩
      rw [restored_append]
      exact congrArg (restored frames) (World.restored_invoke c)
    | ret r => cases frames with
      | nil => exact absurd rfl (above rfl)
      | cons frame frames =>
        refine ⟨(w.resume frame r).frames ++ frames, (List.append_assoc ..).symm, ?_⟩
        rcases World.frames_resume (w := w) frame r with hframes | ⟨_, rfl, hstays⟩
        · rw [hframes]
          exact congrArg (restored frames) (World.thread_resume frame r)
        · show restored ((w.resume _ r).frames ++ frames) (w.resume _ r).world.thread = _
          rw [hstays]
          rfl
    | raise p => cases frames with
      | nil => exact absurd rfl (above rfl)
      | cons frame frames =>
        refine ⟨(w.unwind frame p).frames ++ frames, (List.append_assoc ..).symm, ?_⟩
        rw [restored_append, restored_of_keep (World.filter_unwind frame p)]
        exact congrArg (restored frames) (World.thread_unwind frame p)
  · exact ⟨frames, stack, rfl⟩

/-- What encloses the next code did so before, or has just been entered. -/
theorem mem_enclose {y : Enclosure} (h : y ∈ m.enclose xs) :
    y ∈ xs ∨ ∃ c, m.control = .call c ∧ m.world.enclosure? c = some y := by
  unfold enclose at h
  split at h
  · next c call =>
    rcases List.mem_append.mp h with h | h
    · exact .inr ⟨c, call, Option.mem_toList.mp h⟩
    · exact .inl h
  · split at h
    · exact .inl (List.mem_of_mem_tail h)
    · exact .inl h
  · exact .inl h

/-- A job that encloses what is done has begun. -/
theorem mem_begins_of_mem_enclosures {s : Submission Job} (hs : .job s ∈ enclosures past) :
    s ∈ past.flatMap begins := by
  induction past with
  | nil => cases hs
  | cons m past ih =>
    rw [List.flatMap_cons, List.mem_append]
    rcases mem_enclose hs with hs | ⟨c, call, enclosed⟩
    · exact .inr (ih hs)
    · rw [World.eq_perform_of_enclosure? enclosed] at call
      rw [begins, call]
      exact .inl (List.mem_singleton_self _)

/-- A machine is the first one after a call at which the call has come back or broken off: it hands what the
call has come to to the frames below the call. -/
structure Concludes (m x : Machine) (between : List Machine) : Prop where
  ends : m.control.isCall = false
  below : m.stack = x.stack
  first : ∀ z ∈ between, z.control.isCall = false → z.stack ≠ x.stack

end Machine

namespace FreeHistory

variable {capacity : ℕ} {m x : Machine} {past between before : List Machine}

/-- In every history, the thread is that of its enclosures. -/
theorem encloses (h : FreeHistory capacity m past) :
    Encloses m.stack m.world.thread (enclosures past) := by
  induction h with
  | start => exact .outside rfl
  | go _ _ goes ih => exact Machine.encloses_go ih goes
  | @enter m past _ rest thread unmarked _ _ _ ih =>
    obtain ⟨w, control, stack⟩ := m
    obtain ⟨ends, rfl⟩ := Machine.atRest_iff.mp rest
    have none : (⟨w, control, []⟩ : Machine).enclose (enclosures past) = [] := by
      cases control with
      | call => cases ends
      | ret | raise => exact ih.eq_nil
    show Encloses [] thread (Machine.enclose _ (enclosures past))
    rw [none]
    exact .outside unmarked

/-- As long as a call is under way, the frames that it has left put the thread back. -/
theorem restores (h : FreeHistory capacity m (between ++ x :: before)) (call : x.control.isCall = true)
    (first : ∀ z ∈ between, z.control.isCall = false → z.stack ≠ x.stack) :
    ∃ frames, m.stack = frames ++ x.stack ∧ restored frames m.world.thread = x.world.thread := by
  induction between generalizing m with
  | nil => cases h with
    | go _ _ goes =>
      have above : x.control.isCall = false → ([] : List Frame) ≠ [] := fun ends =>
        nomatch call.symm.trans ends
      exact Machine.restored_go rfl above goes
    | enter _ rest => exact nomatch call.symm.trans (Machine.atRest_iff.mp rest).1
  | cons z between ih =>
    obtain ⟨hz, first⟩ := List.forall_mem_cons.mp first
    cases h with
    | go earlier _ goes =>
      obtain ⟨frames, stack, back⟩ := ih earlier first
      rw [← back]
      refine Machine.restored_go stack (fun ends none => hz ends ?_) goes
      rw [stack, none, List.nil_append]
    | enter earlier rest =>
      -- At rest the call would have ended already.
      obtain ⟨frames, stack, -⟩ := ih earlier first
      obtain ⟨ends, empty⟩ := Machine.atRest_iff.mp rest
      rw [empty] at stack
      exact absurd (empty.trans (List.append_eq_nil_iff.mp stack.symm).2.symm) (hz ends)

/-- A call puts the thread back, whether it comes back or breaks off. -/
theorem thread_of_concludes (h : FreeHistory capacity m (between ++ x :: before))
    (call : x.control.isCall = true) (concludes : m.Concludes x between) :
    m.world.thread = x.world.thread := by
  obtain ⟨frames, stack, back⟩ := h.restores call concludes.first
  have none : frames = [] := by simpa using concludes.below.symm.trans stack
  rwa [none] at back

end FreeHistory

/-! ## Jobs

A job for the executor that marks the thread runs in place, inside the one that runs already. Any other is
handed over, and begins in the ambient that it was handed in with.
-/

/-- A job is submitted to an executor, which queues it behind the jobs that wait with it, or runs it at once. -/
inductive Machine.HandsOver (m : Machine) (e : ExecutorId) (s : Submission Job) : Machine → Prop
  | queued {executors : Arena (List (Submission Job))} (own : executors.get e = m.world.executors.get e ++ [s])
      (others : ∀ e', e' ≠ e → executors.get e' = m.world.executors.get e') :
      HandsOver m e s ⟨{ m.world with executors }, .ret .unit, m.stack⟩
  | atOnce : HandsOver m e s ⟨m.world, .call (.performQueued e s), m.stack⟩

/-- How jobs run, and what becomes of the thread, at a machine of a run. -/
structure Machine.RunsJobs (past : List Machine) (m : Machine) : Prop where
  /-- A job runs under the ambient of the pool that it was dispatched to. Outside of the scopes that it has
  entered, and of the jobs that it has begun, it finds the innermost binding of each type there. -/
  bindings : ∀ s outer, enclosures past = .job s :: outer →
    (∃ x ∈ past, ∃ pool, x.control = .call (.dispatch pool s.job) ∧ pool.ambient = s.ambient) ∧
      m.world.thread.ambient = s.ambient ∧
        ∀ type scope, m.control = .call (.op (.pool (.lookupCurrent type)) scope) →
          m.step = ⟨m.world, .ret (.reply (((s.ambient.lookup type).map .binding).getD .nothing)), m.stack⟩ ∧
            ∀ b, s.ambient.lookup type = some b ↔ s.ambient.Innermost type b
  /-- A call leaves the thread as it was before, whether it comes back or breaks off: scopes, dispatches and
  jobs that were queued do so as well. -/
  restores : ∀ x between before, past = between ++ x :: before → x.control.isCall = true →
    m.Concludes x between → m.world.thread = x.world.thread
  /-- The thread is marked with the innermost executor that is running a job on it. -/
  marked : m.world.thread.inside = runningExecutor? past
  /-- A job that is dispatched to that executor runs in place of the dispatch, and is not submitted. -/
  inPlace : ∀ pool j e, m.control = .call (.dispatch pool j) → pool.strategy = .executor e →
    runningExecutor? past = some e → ∀ m', m.Goes m' →
      m' = ⟨m.world, .call (.perform pool.ambient j), m.stack⟩
  /-- A job that is dispatched to another executor is submitted to it, once. -/
  submitted : ∀ pool j e, m.control = .call (.dispatch pool j) → pool.strategy = .executor e →
    runningExecutor? past ≠ some e → ∀ m', m.Goes m' → m.HandsOver e ⟨pool.ambient, j⟩ m'
  /-- Every job that was dispatched has begun once, or is to begin. -/
  once : (past.flatMap Machine.handsIn).Perm (past.flatMap Machine.begins ++ m.pending)

namespace FreeHistory

variable {capacity : ℕ} {m : Machine} {past : List Machine}

/-- A job for the innermost executor runs in place. -/
theorem goes_of_inside {pool : Pool} {j : Job} {e : ExecutorId} {m' : Machine}
    (call : m.control = .call (.dispatch pool j)) (strategy : pool.strategy = .executor e)
    (inside : m.world.thread.inside = some e) (goes : m.Goes m') :
    m' = ⟨m.world, .call (.perform pool.ambient j), m.stack⟩ := by
  rcases goes.cases with rfl | ⟨e', s, submits, -⟩
  · rw [Machine.step_call call]
    simp only [World.invoke, World.dispatch, strategy, if_pos inside]
    rfl
  · obtain ⟨pool', call', strategy', -⟩ := submits.call
    rw [call] at call'
    cases call'
    rw [strategy] at strategy'
    cases strategy'
    exact absurd inside submits.outside

/-- A job for any other executor is handed over to it, once. -/
theorem handsOver_of_outside (h : FreeHistory capacity m past) {pool : Pool} {j : Job} {e : ExecutorId}
    {m' : Machine} (call : m.control = .call (.dispatch pool j)) (strategy : pool.strategy = .executor e)
    (outside : m.world.thread.inside ≠ some e) (goes : m.Goes m') :
    m.HandsOver e ⟨pool.ambient, j⟩ m' := by
  have submits : m.Submits e ⟨pool.ambient, j⟩ := ⟨⟨pool, call, strategy, rfl⟩, outside⟩
  cases goes with
  | atOnce =>
    rw [submits.stepAtOnce_eq]
    exact .atOnce
  | queueing =>
    have within := h.wellFormed.2.2.control
    rw [call] at within
    rw [submits.step_eq]
    exact .queued (Arena.get_modify_self _ _ (within.1 e strategy))
      fun e' ne => Arena.get_modify_of_ne _ _ ne.symm

/-- **Jobs run in the ambient of their pool, and leave the thread as it was.** This holds however scopes, jobs
and executors enclose each other, whatever executors do with the jobs submitted to them, and also where jobs
break off. -/
theorem runs_jobs (h : FreeHistory capacity m past) : m.RunsJobs past where
  bindings := by
    intro s outer inner
    have begun : s ∈ past.flatMap Machine.begins :=
      Machine.mem_begins_of_mem_enclosures (inner ▸ List.mem_cons_self)
    have ambient := (inner ▸ h.encloses).ambient_eq
    refine ⟨h.exists_dispatch (List.mem_append_left _ begun), ambient, fun type scope call => ⟨?_, ?_⟩⟩
    · rw [Machine.step_call call, ← ambient]
      rfl
    · exact fun b => Ambient.lookup_eq_some_iff
  restores := by
    rintro x between before rfl call concludes
    exact h.thread_of_concludes call concludes
  marked := h.encloses.inside_eq
  inPlace := fun pool j e call strategy running m' goes =>
    goes_of_inside call strategy (h.encloses.inside_eq.trans running) goes
  submitted := fun pool j e call strategy running m' goes =>
    h.handsOver_of_outside call strategy (fun inside => running (h.encloses.inside_eq.symm.trans inside)) goes
  once := h.perm_handsIn

/-- Steps of a run in which executors run all jobs at once, with the machines before. -/
def runAtOnce (m : Machine) (past : List Machine) : ℕ → Machine × List Machine
  | 0 => (m, past)
  | n + 1 => if m.atRest then (m, past) else runAtOnce m.stepAtOnce (m :: past) n

/-- The executors may run every job at once; this is one of the histories. -/
theorem stepsAtOnce (h : FreeHistory capacity m past) (n : ℕ) :
    FreeHistory capacity (runAtOnce m past n).1 (runAtOnce m past n).2 := by
  induction n generalizing m past with
  | zero => exact h
  | succ n ih =>
    rw [runAtOnce]
    split
    · exact h
    · next busy => exact ih (h.go (Bool.eq_false_iff.mpr busy) .atOnce)

end FreeHistory

/-- A run in which an executor runs a job that hands one to another executor, which runs one for the first
again. A job that was run before has broken off. -/
theorem runs_jobs_of_alternating : ∃ m past, FreeHistory 8 m past ∧
    (enclosures past).filterMap Enclosure.executor? = [0, 1, 0] ∧
      m.world.thread = { ambient := ⟨[.integer 1]⟩, inside := some 0 } ∧ m.RunsJobs past := by
  let inner : Op := .pool (.dispatch "q" "inner" [.pool (.lookupCurrent .integer)])
  let outer : Op := .pool (.dispatch "q" "outer"
    [.pool (.dispatch "r" "broken" [.fault (.panic .foreign)]), .pool (.dispatch "r" "middle" [inner])])
  have empty : FreeHistory 8 _ _ := .start
  have first := (empty.enter rfl {} rfl []
    (.operate (.pool (.createAmbient "x" .blank [.integer 1] none)))).go rfl .queueing
  have second := (first.enter rfl {} rfl []
    (.operate (.pool (.createAmbient "y" .blank [.integer 2] none)))).go rfl .queueing
  have third := (second.enter rfl {} rfl []
    (.operate (.pool (.create "q" .queue (some "x"))))).go rfl .queueing
  have fourth := (third.enter rfl {} rfl []
    (.operate (.pool (.create "r" .queue (some "y"))))).go rfl .queueing
  have runs := (fourth.enter rfl {} rfl [] (.operate (.pool (.scope "y" [outer])))).stepsAtOnce 35
  exact ⟨_, _, runs, by decide +kernel, by decide +kernel, runs.runs_jobs⟩

end RequestGraph
