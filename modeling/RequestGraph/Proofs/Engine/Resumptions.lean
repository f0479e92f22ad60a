import RequestGraph.Proofs.Engine.Operations

/-!
# What coming back and breaking off do

A frame that is handed a result either passes one on or goes on with one call; it leaves no frame behind, and
the core of the world as it is. Only the frame of somebody who stands before a latch may stay where it is. A frame that is handed a panic passes it on, unless it is one of those that
keep panics in.
-/

namespace RequestGraph

/-- The frames that may come back at once. -/
def Frame.mayReturn : Frame → Bool
  | .answer _ | .completed | .notifying | .settling | .returning .. | .adopting _ | .reporting
  | .restoring _ | .leaving _ | .guarding _ | .accounting _ | .made _ | .gathering .. => true
  | _ => false

/-- What coming back to a frame may do. -/
inductive Resumed (w : World) : Frame → Result → Move → Prop
  | returned {frame : Frame} {r r' : Result} {w' : World} (may : frame.mayReturn = true)
      (core : w'.core = w.core) : Resumed w frame r ⟨w', .ret r', []⟩
  /-- Whoever stands before a latch that is shut goes on standing. -/
  | stood {c : CellId} {r : Result} :
      Resumed w (.answer (.waited c none)) r ⟨w, .ret r, [.answer (.waited c none)]⟩
  | missed {c : CellId} {limit : Option Duration} {r : Result} (opened : (w.cell c).latch = .opened)
      (unseen : (w.cell c).peek = none) :
      Resumed w (.answer (.waited c limit)) r ⟨w, .raise (.broken .outcomePresent), []⟩
  | script {op : Op} {rest : Script} {scope : Scope} {r : Result} {w' : World}
      (core : w'.core = w.core) :
      Resumed w (.script op rest scope) r ⟨w', .call (.script rest scope), []⟩
  | delivering {rest : List Subscription} {revokee : Option CellId} {o : Outcome} {r : Result} :
      Resumed w (.delivering rest revokee o) r ⟨w, .call (.deliver rest revokee o), []⟩
  | settling {r : Result} {e : Error} : Resumed w .settling r ⟨w, .call (.report e), []⟩
  | brokeOff {returned : Returned} {scope : Scope} {r : Result} {p : Panic} :
      Resumed w (.returning returned scope) r ⟨w, .raise p, []⟩
  | adopting {result : CellId} {s : Step} :
      Resumed w (.adopting result) (.step s) ⟨w, .call (.adopt result s), []⟩
  | following {result inner : CellId} {r : Result} :
      Resumed w (.following result inner) r ⟨w, .call (.forward result (.cell inner) none), []⟩
  | watching {f : FanInId} {rest : List CellId} {r : Result} :
      Resumed w (.watching f rest) r ⟨w, .call (.watch f rest), []⟩
  | accounting {e : Error} {r : Result} : Resumed w (.accounting e) r ⟨w, .call (.report e), []⟩
  | draining {e : ExecutorId} {limit : Option Nat} {order : QueueOrder} {ran : Nat} {r : Result} :
      Resumed w (.draining e limit order ran) r ⟨w, .call (.drain e limit order ran), []⟩
  | working {r : Result} : Resumed w .working r ⟨w, .call .work, []⟩
  | gathering {k : ContextId} {pending keys : List String} {found : List CellId} {c : CellId} :
      Resumed w (.gathering k pending keys found) (.cell c)
        ⟨w, .call (.gather k pending keys (found ++ [c])), []⟩
  | enriched {k : ContextId} {keys : List String} {result : CellId} {cause : Error} {r : Result}
      {view : View} (seen : w.snapshot? k = some view) : Resumed w (.enriching k keys result cause) r
        ⟨w, .call (.complete result (.error (.yank cause keys view)) .unowned), []⟩
  | unread {k : ContextId} {keys : List String} {result : CellId} {cause : Error} {r : Result}
      (unread : w.snapshot? k = none) : Resumed w (.enriching k keys result cause) r
        ⟨w, .raise (.broken .ledgerReadable), []⟩
  | sweeping {rest : List (KeyIndex × CellId)} {cause : Option Error} {r : Result} :
      Resumed w (.sweeping rest cause) r ⟨w, .call (.sweep rest cause), []⟩

/-- The frames that keep panics in. -/
def Frame.keepsIn : Frame → Bool
  | .notifying | .adopting _ | .reporting | .guarding _ | .working => true
  | _ => false

/-- What breaking off to a frame may do. -/
inductive Unwound (w : World) : Frame → Panic → Move → Prop
  | passed {frame : Frame} {p : Panic} {w' : World} (passes : frame.keepsIn = false)
      (core : w'.core = w.core) : Unwound w frame p ⟨w', .raise p, []⟩
  | notifying {p : Panic} : Unwound w .notifying p ⟨w, .call (.report (.ofPanic p)), []⟩
  | adopting {result : CellId} {p : Panic} :
      Unwound w (.adopting result) p ⟨w, .call (.adopt result (.fail (.ofPanic p))), []⟩
  | reporting {p : Panic} : Unwound w .reporting p ⟨w, .call (.report (.ofPanic p)), []⟩
  | guarding {claim : Claim} {p : Panic} : Unwound w (.guarding claim) p ⟨w,
      .call (.complete claim.cell (.error (.ofPanic p)) (.presenting (some claim.token))),
        [.accounting (.ofPanic p)]⟩
  | working {p : Panic} : Unwound w .working p ⟨w, .call .work, []⟩

namespace World

variable {w : World}

theorem resumed_answer (how : Answering) (r : Result) : Resumed w (.answer how) r (w.answer how r) := by
  unfold answer
  split
  case h_9 c limit =>
    split
    · next opened =>
      unfold pass
      split
      · next unseen => exact .missed opened unseen
      · exact .returned rfl rfl
    · cases limit with
      | some after => exact .returned rfl rfl
      | none => exact .stood
  all_goals exact .returned rfl rfl

theorem core_noteReply (w : World) (op : Op) (r : Result) : (w.noteReply op r).core = w.core := by
  cases r <;> rfl

/-- What coming back to a frame does, whichever it is. -/
theorem resume_spec (w : World) (frame : Frame) (r : Result) : Resumed w frame r (w.resume frame r) := by
  cases frame with
  | script op rest scope => exact .script (core_noteReply w op r)
  | answer how => exact resumed_answer how r
  | delivering => exact .delivering
  | settling => cases r with
    | verdict v => cases v with
      | error e => exact .settling
      | ok b => exact .returned rfl rfl
    | _ => exact .returned rfl rfl
  | returning returned scope =>
      simp only [resume]
      split
      · exact .returned rfl rfl
      · exact .brokeOff
      · exact .brokeOff
  | adopting => cases r with
    | step s => exact .adopting
    | _ => exact .returned rfl rfl
  | following => exact .following
  | watching => exact .watching
  | accounting => cases r with
    | verdict v =>
        rcases v with _ | b
        · exact .accounting
        · cases b with
          | true => exact .returned rfl rfl
          | false => exact .accounting
    | _ => exact .accounting
  | draining => exact .draining
  | working => exact .working
  | gathering => cases r with
    | cell c => exact .gathering
    | _ => exact .returned rfl rfl
  | enriching k keys result cause =>
      simp only [resume, failYank]
      split
      · next unread => exact .unread unread
      · next seen => exact .enriched seen
  | sweeping => exact .sweeping
  | completed | notifying | reporting | restoring | leaving | guarding | made =>
      exact .returned rfl rfl

/-- What breaking off to a frame does, whichever it is. -/
theorem unwind_spec (w : World) (frame : Frame) (p : Panic) : Unwound w frame p (w.unwind frame p) := by
  cases frame with
  | notifying => exact .notifying
  | adopting => exact .adopting
  | reporting => exact .reporting
  | guarding => exact .guarding
  | working => exact .working
  | _ => exact .passed rfl rfl

/-- A frame that is handed a result is gone, unless somebody stands before a latch there: then nothing changes
at all. -/
theorem frames_resume (frame : Frame) (r : Result) : (w.resume frame r).frames = [] ∨
    ∃ c, frame = .answer (.waited c none) ∧ w.resume frame r = ⟨w, .ret r, [frame]⟩ := by
  have hspec := w.resume_spec frame r
  generalize w.resume frame r = mv at hspec
  cases hspec with
  | @stood c => exact .inr ⟨c, rfl, rfl⟩
  | _ => exact .inl rfl

/-- Coming back to a frame leaves the core alone. -/
theorem core_resume (w : World) (frame : Frame) (r : Result) :
    (w.resume frame r).world.core = w.core := by
  have hspec := w.resume_spec frame r
  generalize w.resume frame r = mv at hspec
  cases hspec with
  | returned _ core => exact core
  | script core => exact core
  | _ => rfl

/-- Breaking off to a frame leaves the core alone. -/
theorem core_unwind (w : World) (frame : Frame) (p : Panic) :
    (w.unwind frame p).world.core = w.core := by
  have hspec := w.unwind_spec frame p
  generalize w.unwind frame p = mv at hspec
  cases hspec with
  | passed _ core => exact core
  | _ => rfl

end World

/-! ## Calls that frames do not make -/

/-- The calls that pass on what a listener is told. -/
def Call.passesOn : Call → Bool
  | .tell .. | .signal .. => true
  | _ => false

/-- What a listener is told is passed on from within a call, and not by a frame. -/
theorem Machine.call_of_passesOn {m : Machine} {c : Call} (passes : c.passesOn = true)
    (next : m.step.control = .call c) :
    ∃ call, m.control = .call call ∧ (m.world.invoke call).control = .call c := by
  obtain ⟨w, control, stack⟩ := m
  cases control with
  | call call => exact ⟨call, rfl, next⟩
  | ret r => cases stack with
    | nil => cases next
    | cons frame stack =>
        have hspec := w.resume_spec frame r
        have hcall : (w.resume frame r).control = .call c := next
        generalize w.resume frame r = mv at hspec hcall
        cases hspec <;> cases hcall <;> cases passes
  | raise p => cases stack with
    | nil => cases next
    | cons frame stack =>
        have hspec := w.unwind_spec frame p
        have hcall : (w.unwind frame p).control = .call c := next
        generalize w.unwind frame p = mv at hspec hcall
        cases hspec <;> cases hcall <;> cases passes

end RequestGraph
