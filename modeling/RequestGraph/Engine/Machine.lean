import RequestGraph.Engine.Moves
import RequestGraph.Engine.Operations.Cell
import RequestGraph.Engine.Operations.Context
import RequestGraph.Engine.Operations.Pool

/-!
# The machine

A machine is a world, what is done next, and the frames of all unfinished calls. One step performs a
call, or hands a result or a panic to the topmost frame. It comes to rest when there is no frame left
to take what the last call came back with, and from then on a step changes nothing:

    m.atRest → m.step = m

What a step does depends on the topmost frame only, so a run above some frames is the same whatever
these frames are:

    ¬ m.atRest → (m.above frames).step = m.step.above frames
-/

namespace RequestGraph

namespace World

/-- Runs one operation. -/
def operate (w : World) (scope : Scope) : Op → Move
  | .cell op => (w.cellOp scope op).orUnknown w
  | .claim op => (w.claimOp scope op).orUnknown w
  | .fault op => (w.faultOp scope op).orUnknown w
  | .pool op => (w.poolOp scope op).orUnknown w
  | .context op => (w.contextOp scope op).orUnknown w
  | .view op => (w.viewOp scope op).orUnknown w

/-- Performs a call. -/
def invoke (w : World) : Call → Move
  | .script [] _ => w.ret .unit
  | .script (op :: rest) scope => w.call (.op op scope) [.script op rest scope]
  | .op op scope => w.operate scope op
  | .complete c outcome authority => w.complete c outcome authority
  | .deliver listeners revokee outcome => w.deliver listeners revokee outcome
  | .notify subscription outcome => w.call (.tell subscription.listener outcome) [.notifying]
  | .tell listener outcome => w.tell listener outcome
  | .subscribe c listener => w.subscribe c listener
  | .report e => w.report e
  | .revoke c cause => w.revoke c cause
  | .link source dependent => w.link source dependent
  | .settle c outcome token => w.settle c outcome token
  | .forward target source token => w.forward target source token
  | .transform source onSuccess onError => w.transform source onSuccess onError
  | .stage s outcome => w.stage s outcome
  | .adopt result step => w.adopt result step
  | .await cells continuation => w.await cells continuation
  | .watch f cells => w.watch f cells
  | .signal f failure => w.signal f failure
  | .conclude continuation failure => w.conclude continuation failure
  | .dispatch pool job => w.dispatch pool job
  | .perform ambient job => w.perform ambient job
  | .performQueued e s => w.performQueued e s
  | .job j => w.job j
  | .drain e limit order ran => w.drain e limit order ran
  | .work => w.work
  | .fetch k index key => w.fetch k index key
  | .fetchKey k key => w.fetchKey k key
  | .gather k pending keys found => w.gather k pending keys found
  | .cancel k cause => w.cancel k cause
  | .sweep ledger cause => w.sweep ledger cause

/-- Answers an operation from what its call came back with. -/
def answer (w : World) (how : Answering) (r : Result) : Move :=
  match how, r with
  | .accepted, .verdict (.ok b) => w.reply (.flag b)
  | .accepted, .verdict (.error _) => w.reply (.flag false)
  | .verdict, .verdict (.ok b) => w.reply (.flag b)
  | .verdict, .verdict (.error e) => w.reply (.ownership e)
  | .ran, .count n => w.reply (.count n)
  | .nameMade as, .cell c => (w.nameCell as c).reply .nothing
  | .nameFetched as, .cell c => (w.nameCell as c).reply (.cell (w.reportCell c))
  | .nameYanked as, .cell c =>
    (w.named fun n => { n with views := n.views.insert as c }).reply (.phase (w.cell c).phase)
  | .waited c limit, _ =>
    if (w.cell c).latch = .opened then w.pass c
    else
      match limit with
      | some after => w.reply (.outcome (w.reportOutcome (.error (.timeout after))))
      -- Nobody else runs meanwhile, so that whoever stands here goes on standing.
      | none => ⟨w, .ret r, [.answer how]⟩
  | _, _ => w.reply .nothing

/-- Logs the answer of an operation of a script. -/
def noteReply (w : World) (op : Op) : Result → World
  | .reply r => w.note (.did op r)
  | _ => w.note (.did op .nothing)

/-- Hands a result to a frame. -/
def resume (w : World) (frame : Frame) (r : Result) : Move :=
  match frame, r with
  | .script op rest scope, r => (w.noteReply op r).call (.script rest scope)
  | .answer how, r => w.answer how r
  | .delivering rest revokee outcome, _ => w.call (.deliver rest revokee outcome)
  | .completed, _ => w.ret (.verdict (.ok true))
  | .notifying, _ => w.ret .unit
  | .settling, .verdict (.error e) => w.call (.report (.ofOwnership e))
  | .settling, _ => w.ret .unit
  | .returning returned scope, _ =>
    match w.return? scope returned with
    | .ok (.ok step) => w.ret (.step step)
    | .ok (.error p) => w.raise p
    | .error name => w.raise (.message name)
  | .adopting result, .step step => w.call (.adopt result step)
  | .adopting _, _ => w.ret .unit
  | .following result inner, _ => w.call (.forward result (.cell inner) none)
  | .watching f rest, _ => w.call (.watch f rest)
  | .reporting, _ => w.ret .unit
  | .restoring ambient, r => { w with thread := { w.thread with ambient } }.ret r
  | .leaving inside, r => { w with thread := { w.thread with inside } }.ret r
  | .guarding _, _ => w.ret .unit
  | .accounting _, .verdict (.ok true) => w.ret .unit
  | .accounting e, _ => w.call (.report e)
  | .draining e limit order ran, _ => w.call (.drain e limit order ran)
  | .working, _ => w.call .work
  | .made c, _ => w.ret (.cell c)
  | .gathering k pending keys found, .cell c => w.call (.gather k pending keys (found ++ [c]))
  | .gathering _ _ _ _, _ => w.ret .unit
  | .enriching k keys result cause, _ => w.failYank k keys result cause
  | .sweeping rest cause, _ => w.call (.sweep rest cause)

/-- Hands a panic to a frame. Listeners, steps, jobs and nodes keep their panics in; the state of the
thread is put back; every other frame is left. -/
def unwind (w : World) (frame : Frame) (p : Panic) : Move :=
  match frame with
  | .notifying => w.call (.report (.ofPanic p))
  | .adopting result => w.call (.adopt result (.fail (.ofPanic p)))
  | .reporting => w.call (.report (.ofPanic p))
  | .restoring ambient => { w with thread := { w.thread with ambient } }.raise p
  | .leaving inside => { w with thread := { w.thread with inside } }.raise p
  | .guarding claim =>
    w.call (.complete claim.cell (.error (.ofPanic p)) (.presenting (some claim.token)))
      [.accounting (.ofPanic p)]
  | .working => w.call .work
  | _ => w.raise p

end World

/-- A run in the middle. -/
structure Machine where
  world : World
  control : Control
  stack : List Frame := []

namespace Machine

/-- The machine after a move that took the place of what was done before the given frames. -/
def ofMove (m : Move) (stack : List Frame) : Machine := ⟨m.world, m.control, m.frames ++ stack⟩

/-- Whether there is nothing left to do. -/
def atRest (m : Machine) : Bool :=
  match m.control, m.stack with
  | .call _, _ => false
  | _, [] => true
  | _, _ => false

/-- One step. -/
def step (m : Machine) : Machine :=
  match m.control, m.stack with
  | .call c, stack => ofMove (m.world.invoke c) stack
  | .ret r, frame :: stack => ofMove (m.world.resume frame r) stack
  | .raise p, frame :: stack => ofMove (m.world.unwind frame p) stack
  | .ret _, [] => m
  | .raise _, [] => m

/-- So many steps. -/
def iterate (m : Machine) : Nat → Machine
  | 0 => m
  | n + 1 => m.step.iterate n

/-- Steps until the machine is at rest, but at most so many. -/
def run (m : Machine) : Nat → Machine
  | 0 => m
  | n + 1 => if m.atRest then m else m.step.run n

/-- The machine with more frames below those it has. -/
def above (m : Machine) (frames : List Frame) : Machine := { m with stack := m.stack ++ frames }

/-! ### Rest, and runs above other frames -/

/-- A machine at rest stays as it is. -/
theorem step_of_atRest {m : Machine} (h : m.atRest = true) : m.step = m := by
  obtain ⟨w, control, stack⟩ := m
  cases control <;> cases stack <;> simp_all [atRest, step]

/-- Rest lasts for any number of steps. -/
theorem iterate_of_atRest {m : Machine} (h : m.atRest = true) (n : Nat) : m.iterate n = m := by
  induction n with
  | zero => rfl
  | succ n ih => rw [iterate, step_of_atRest h, ih]

/-- Numbers of steps add up. -/
theorem iterate_add (m : Machine) (n k : Nat) : m.iterate (n + k) = (m.iterate n).iterate k := by
  induction n generalizing m with
  | zero => rw [Nat.zero_add, iterate]
  | succ n ih => rw [Nat.succ_add, iterate, iterate, ih]

/-- Looking out for rest changes nothing but the time it takes. -/
theorem run_eq_iterate (m : Machine) (n : Nat) : m.run n = m.iterate n := by
  induction n generalizing m with
  | zero => rfl
  | succ n ih =>
    cases h : m.atRest with
    | true => rw [run, if_pos h, iterate_of_atRest h]
    | false => rw [run, h, if_neg Bool.false_ne_true, iterate, ih]

/-- A step does not look at the frames that are below the ones it runs above. -/
theorem step_above {m : Machine} (h : m.atRest = false) (frames : List Frame) :
    (m.above frames).step = m.step.above frames := by
  obtain ⟨w, control, stack⟩ := m
  cases control <;> cases stack <;> simp_all [atRest, above, step, ofMove]

end Machine

end RequestGraph
