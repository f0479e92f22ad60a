import RequestGraph.Proofs.Delivery.Following

/-!
# Transformation pipelines

Stages that are built on a cell, and on the cells of other stages, form a tree. What the cell of a stage comes
to is given by recursion on that tree, from the outcome of the source:

    meaning o (stage c law next others)   =   (c, law o) :: meaning (law o) next ++ meaning o others

It does not matter when a stage was built: its step runs on the spot if the source was realized by then, and
otherwise in the delivery of the source. Nor does it matter how its step came to its answer, since a cell that
it returns is flattened and a panic is kept in.
-/

namespace RequestGraph

/-- What a step of a transformation comes to, if it is a function of what it is given. -/
inductive Answer where
  | value (v : Value)
  | fail (e : Error)
  /-- A cell that has been realized with that outcome. -/
  | cell (c : CellId) (o : Outcome)
  | panic (p : Panic)

namespace Answer

/-- What the step comes back with, or breaks off with. -/
def control : Answer → Control
  | .value v => .ret (.step (.value v))
  | .fail e => .ret (.step (.fail e))
  | .cell c _ => .ret (.step (.follow c))
  | .panic p => .raise p

/-- What the answer is worth: a cell is flattened to its outcome, and a panic is an error. -/
def outcome : Answer → Outcome
  | .value v => .ok v
  | .fail e => .error e
  | .cell _ o => o
  | .panic p => .error (.ofPanic p)

/-- A number, or what its computation broke off with. -/
def ofNumber : Except Panic Int64 → Answer
  | .ok n => .value (.number n)
  | .error p => .panic p

theorem ofNumber_ne_cell {r : Except Panic Int64} {c : CellId} {o : Outcome} : ofNumber r ≠ .cell c o := by
  cases r <;> exact nofun

end Answer

/-- What a transformation does: a step for successes, and another one for failures if there is one. -/
structure Law where
  onSuccess : Value → Answer
  onError : Option (Error → Answer) := none

namespace Law

/-- The law of a mapping. -/
def map (f : NumberFunction) : Law where
  onSuccess v := .ofNumber (f v.toNumber)

/-- What the step for an outcome comes to, if there is one. -/
def answer? (law : Law) : Outcome → Option Answer
  | .ok v => some (law.onSuccess v)
  | .error e => law.onError.map (· e)

/-- What a transformation makes of an outcome. A failure is passed on unchanged unless there is a step
for it. -/
def apply (law : Law) (o : Outcome) : Outcome := (law.answer? o).elim o Answer.outcome

end Law

/-- The stages on a cell: the cell of the first one with the stages on that, and the other stages. -/
inductive Pipelines where
  | none
  | stage (cell : CellId) (law : Law) (next others : Pipelines)

/-- What the cells of all stages come to. -/
def Pipelines.meaning (o : Outcome) : Pipelines → List (CellId × Outcome)
  | .none => []
  | .stage c law next others => (c, law.apply o) :: (next.meaning (law.apply o) ++ others.meaning o)

/-- The step that a transformation runs on an outcome, if there is one. -/
def Stage.on (onSuccess : Stage) (onError : Option Stage) : Outcome → Option Stage
  | .ok _ => some onSuccess
  | .error _ => onError

/-- A step comes to an answer and changes nothing. A cell that it returns has its outcome already. -/
structure World.Answers (w : World) (s : Stage) (o : Outcome) (a : Answer) : Prop where
  performs : w.Performs (.stage s o) w a.control
  realized : ∀ c o', a = .cell c o' → (w.cell c).peek = some o'

namespace Machine

/-- The transformation that makes a cell is told about its source. -/
def isTold (m : Machine) (result : CellId) : Bool :=
  match m.control with
  | .call (.tell (.transform c _ _) _) => c == result
  | _ => false

/-- A step of the transformation that makes a cell is run. -/
def isRunning (m : Machine) (result : CellId) : Bool :=
  match m.control, m.stack with
  | .call (.stage ..), .adopting c :: _ => c == result
  | _, _ => false

end Machine

/-- A stage has been built, with its steps as they should be, and nobody else touches its cell. -/
structure Attached (past : List Machine) (source result : CellId) (law : Law) (onSuccess : Stage)
    (onError : Option Stage) : Prop where
  /-- It was built at some time, and made its cell. -/
  built : ∃ x ∈ past, x.control = .call (.transform source onSuccess onError) ∧
    x.world.cells.size = result
  /-- There is a step for failures only if the law says so. -/
  passes : onError = none → law.onError = none
  /-- Its steps come to what the law says. -/
  computes : ∀ z ∈ past, z.isRunning result = true → ∀ s o, z.control = .call (.stage s o) →
    Stage.on onSuccess onError o = some s → ∃ a, law.answer? o = some a ∧ z.world.Answers s o a
  /-- Nobody has completed or claimed its cell before it is told about its source. -/
  untouched : ∀ z ∈ past, z.isTold result = true → z.world.Free result

/-- All stages have been built, each on the cell it belongs to. -/
def Pipelines.Built (past : List Machine) (source : CellId) : Pipelines → Prop
  | .none => True
  | .stage c law next others =>
    (∃ onSuccess onError, Attached past source c law onSuccess onError) ∧
      next.Built past c ∧ others.Built past source

/-! ## Steps that are functions

The law of a stage speaks of outcomes only. A step is bound to its law by a run of its own, in the world in
which it happens to be run.
-/

namespace World

variable {w : World} {o : Outcome} {a : Answer}

/-- A step that is a function comes to what the function says. -/
theorem answers_pure {f : Outcome → Except Panic Step} (comes : (w.stage (.pure f) o).control = a.control)
    (realized : ∀ c o', a = .cell c o' → (w.cell c).peek = some o') : w.Answers (.pure f) o a := by
  refine ⟨performs_iff_move.mpr ?_, realized⟩
  rw [← comes]
  show (Machine.ofMove (w.stage (.pure f) o) []).Ends w _
  unfold stage
  dsimp only
  split <;> exact (Machine.ends_of_atRest rfl).mpr rfl

/-- A script without operations comes to what it returns. -/
theorem answers_scripted {returned : Returned} {scope : Scope}
    (comes : (w.resume (.returning returned (scope.receive o)) .unit).control = a.control)
    (realized : ∀ c o', a = .cell c o' → (w.cell c).peek = some o') :
    w.Answers (.scripted [] returned scope) o a := by
  refine ⟨(performs_call rfl).mpr ⟨w, .ret .unit, (performs_end rfl rfl).mpr ⟨rfl, rfl⟩, ?_⟩, realized⟩
  rw [Machine.ends_iff_step, ← comes]
  show (Machine.ofMove (w.resume (.returning returned (scope.receive o)) .unit) []).Ends w _
  unfold resume
  dsimp only
  split <;> exact (Machine.ends_of_atRest rfl).mpr rfl

theorem answers_ofFunction (f : NumberFunction) (v : Value) :
    w.Answers (.ofFunction f) (.ok v) (.ofNumber (f v.toNumber)) := by
  have comes : (w.stage (.ofFunction f) (.ok v)).control = (Answer.ofNumber (f v.toNumber)).control := by
    unfold stage Stage.ofFunction
    dsimp only
    cases f v.toNumber <;> rfl
  exact answers_pure comes fun c o' h => (Answer.ofNumber_ne_cell h).elim

end World

variable {past : List Machine} {source result c : CellId} {f : NumberFunction} {v : Value}

/-- A mapping does what its law says. -/
theorem Attached.map
    (built : ∃ x ∈ past, x.control = .call (.transform source (.ofFunction f) none) ∧
      x.world.cells.size = result)
    (untouched : ∀ z ∈ past, z.isTold result = true → z.world.Free result) :
    Attached past source result (.map f) (.ofFunction f) none where
  built := built
  passes _ := rfl
  untouched := untouched
  computes z hz running s o call on := by
    cases o with
    | error e => cases on
    | ok v =>
      cases on
      exact ⟨_, rfl, World.answers_ofFunction f v⟩

/-- So does a transformation that recovers with a cell which is known by a name. -/
theorem Attached.recover {scope : Scope} {name : String}
    (built : ∃ x ∈ past, x.control = .call (.transform source (.scripted [] (.apply f) scope)
      (some (.scripted [] (.source (.cell name)) scope))) ∧ x.world.cells.size = result)
    (untouched : ∀ z ∈ past, z.isTold result = true → z.world.Free result)
    (known : ∀ z ∈ past, z.isRunning result = true →
      z.world.cell? name = .ok c ∧ (z.world.cell c).value? = some v) :
    Attached past source result ⟨fun v => .ofNumber (f v.toNumber), some fun _ => .cell c (.ok v)⟩
      (.scripted [] (.apply f) scope) (some (.scripted [] (.source (.cell name)) scope)) where
  built := built
  passes := nofun
  untouched := untouched
  computes z hz running s o call on := by
    cases o with
    | ok v =>
      cases on
      refine ⟨_, rfl, World.answers_scripted ?_ ?_⟩
      · show (z.world.resume (.returning (.apply f) (scope.receive (.ok v))) .unit).control =
          (Answer.ofNumber (f v.toNumber)).control
        have told : (scope.receive (.ok v)).value.getD 0 = v.toNumber := rfl
        simp only [World.resume, World.return?, told]
        cases f v.toNumber <;> rfl
      · exact fun c o' h => (Answer.ofNumber_ne_cell h).elim
    | error e =>
      cases on
      obtain ⟨named, there⟩ := known z hz running
      refine ⟨_, rfl, World.answers_scripted ?_ ?_⟩
      · simp only [World.resume, World.return?, World.source?, named]
        rfl
      · rintro _ _ ⟨⟩
        exact Cell.peek_of_value? there

/-! ## What has come of a stage

By induction on the tree of stages: the cell of a stage has the outcome that its law gives, and is the
source of the stages below it.
-/

namespace History

variable {capacity : ℕ} {m : Machine} {past : List Machine} {w : World} {stack : List Frame}
  {source result : CellId} {o : Outcome}

section Rest

variable (h : History capacity m past) (rest : m.atRest = true)
include h rest

/-- The result takes what the step comes to. -/
theorem carries_of_stage {s : Stage} {a : Answer}
    (hx : ⟨w, .call (.stage s o), .adopting result :: stack⟩ ∈ m :: past) (free : w.Free result)
    (answers : w.Answers s o a) : (m.world.cell result).peek = some a.outcome := by
  obtain ⟨w', e, performs, hend⟩ := h.performed rest hx
  obtain ⟨rfl, rfl⟩ := performs.unique answers.performs
  cases a with
  | value _ | fail _ | panic _ =>
    have hadopt := h.sequel rest hend rfl
    exact h.carries_of_complete rest (h.sequel rest hadopt rfl) free
  | cell c o' =>
    have hlink := h.linking_of_returns rest List.prefix_rfl hend
    have hforward := h.forwarding_of_link rest List.prefix_rfl hlink free.1
    exact h.carries_of_forward rest hforward ((World.free_setCell_revokee _ _).mpr free)
      ((World.peek_setCell_revokee _ _).trans (answers.realized c o' rfl))

/-- The cell of a stage comes to what the law makes of the outcome of the source. -/
theorem carries_of_attached (whole : ∀ x ∈ past, x.lost = []) {law : Law} {onSuccess : Stage}
    {onError : Option Stage} (attached : Attached past source result law onSuccess onError)
    (ho : (m.world.cell source).peek = some o) :
    (m.world.cell result).peek = some (law.apply o) := by
  obtain ⟨⟨w, _, stack⟩, hx, rfl, rfl⟩ := attached.built
  have hsubscribe := h.sequel rest (List.mem_cons_of_mem m hx) rfl
  obtain ⟨w', stack', htell⟩ := h.told_of_subscribe rest whole hsubscribe ho
  have free : w'.Free w.cells.size :=
    attached.untouched _ (mem_of_busy rest htell rfl) (beq_self_eq_true _)
  have hnext := h.sequel rest htell rfl
  -- If a stage runs, it computes what the law says, and the result carries that.
  have runs {s : Stage} (on : Stage.on onSuccess onError o = some s)
      (hstage : ⟨w', .call (.stage s o), .adopting w.cells.size :: stack'⟩ ∈ m :: past) :
      (m.world.cell w.cells.size).peek = some (law.apply o) := by
    obtain ⟨a, ha, answers⟩ := attached.computes _ (mem_of_busy rest hstage rfl)
      (beq_self_eq_true _) s o rfl on
    rw [Law.apply, ha]
    exact h.carries_of_stage rest hstage free answers
  cases o with
  | ok v => exact runs rfl hnext
  | error e =>
    cases onError with
    | some recover => exact runs rfl hnext
    -- Without a stage for errors the error is passed on as it is.
    | none =>
      have unchanged : law.apply (.error e) = .error e := by
        rw [Law.apply, Law.answer?, attached.passes rfl]
        rfl
      rw [unchanged]
      exact h.carries_of_complete rest hnext free

/-- **Pipelines mean the same whenever they are attached.** -/
theorem pipelines_mean (whole : ∀ x ∈ past, x.lost = []) (p : Pipelines) (built : p.Built past source)
    (ho : (m.world.cell source).peek = some o) :
    ∀ r ∈ p.meaning o, (m.world.cell r.1).peek = some r.2 := by
  -- By induction on the tree: the outcome of a stage is that of the source of the next ones.
  induction p generalizing source o with
  | none => exact fun r hr => nomatch hr
  | stage c law next others next_ih others_ih =>
    obtain ⟨⟨onSuccess, onError, attached⟩, hnext, hothers⟩ := built
    have hc := h.carries_of_attached rest whole attached ho
    intro r hr
    rcases List.mem_cons.mp hr with rfl | hr
    · exact hc
    · rcases List.mem_append.mp hr with hr | hr
      · exact next_ih hnext hc r hr
      · exact others_ih hothers ho r hr

end Rest

end History

/-- A run in which two stages are built before the source is completed and two after that. The first one
breaks off, and the second one recovers with a cell that has succeeded. -/
theorem pipelines_mean_of_panic : ∃ m past p, History 8 m past ∧ Pipelines.Built past 0 p ∧
    p.meaning (.ok (.number 7)) = [(2, .error (.ofPanic .foreign)), (3, .ok (.number 5)),
      (4, .ok (.number 6)), (5, .error (.ofPanic .foreign))] ∧
    ∀ r ∈ p.meaning (.ok (.number 7)), (m.world.cell r.1).peek = some r.2 := by
  have empty : History 8 _ _ := .start
  have source := (empty.enter rfl {} [] (.operate (.cell (.create "s")))).step rfl
  have done := (source.enter rfl {} []
    (.operate (.cell (.createRealized "done" (.ok (.constant 5)))))).step rfl
  have first := (done.enter rfl {} []
    (.operate (.cell (.map "s" (.panic .foreign) "a")))).steps 5 (by decide +kernel)
  have second := (first.enter (by decide +kernel) {} [] (.operate (.cell
    (.bind "a" ⟨[], .apply (.add 1)⟩ (some ⟨[], .source (.cell "done")⟩) "b")))).steps 5
      (by decide +kernel)
  have completed := (second.enter (by decide +kernel) {} []
    (.operate (.cell (.complete "s" (.ok (.constant 7)))))).steps 32 (by decide +kernel)
  have third := (completed.enter (by decide +kernel) {} []
    (.operate (.cell (.map "b" (.add 1) "c")))).steps 13 (by decide +kernel)
  have fourth := (third.enter (by decide +kernel) {} []
    (.operate (.cell (.map "a" (.add 1) "d")))).steps 10 (by decide +kernel)
  let p : Pipelines := .stage 2 (.map (.panic .foreign))
    (.stage 3 ⟨fun v => .ofNumber (NumberFunction.add 1 v.toNumber), some fun _ => .cell 1 (.ok (.number 5))⟩
      (.stage 4 (.map (.add 1)) .none .none)
      (.stage 5 (.map (.add 1)) .none .none)) .none
  refine ⟨_, _, p, fourth, ?built, rfl, fourth.pipelines_mean (by decide +kernel) (by decide +kernel) p
    ?built (Cell.peek_of_value? (by decide +kernel))⟩
  exact ⟨⟨_, _, .map ⟨_, List.mem_of_getElem? (i := 67) rfl, rfl, by decide +kernel⟩ (by decide +kernel)⟩,
    ⟨⟨_, _, .recover ⟨_, List.mem_of_getElem? (i := 61) rfl, rfl, by decide +kernel⟩
        (by decide +kernel) (by decide +kernel)⟩,
      ⟨⟨_, _, .map ⟨_, List.mem_of_getElem? (i := 22) rfl, rfl, by decide +kernel⟩
        (by decide +kernel)⟩, trivial, trivial⟩,
      ⟨_, _, .map ⟨_, List.mem_of_getElem? (i := 8) rfl, rfl, by decide +kernel⟩
        (by decide +kernel)⟩, trivial, trivial⟩, trivial⟩

/-- Where the sink breaks off on the report for another listener of the source, a stage is not told. -/
theorem not_pipelines_mean_of_sink : ¬∀ m past source o (p : Pipelines), History 8 m past →
    m.atRest = true → p.Built past source → (m.world.cell source).peek = some o →
      ∀ r ∈ p.meaning o, (m.world.cell r.1).peek = some r.2 := by
  intro means
  have empty : History 8 _ _ := .start
  have source := (empty.enter rfl {} [] (.operate (.cell (.create "s")))).step rfl
  have listened := (source.enter rfl {} []
    (.operate (.cell (.listen "s" "heard" [.fault (.panic .foreign)] [])))).steps 3 (by decide +kernel)
  have mapped := (listened.enter (by decide +kernel) {} []
    (.operate (.cell (.map "s" (.add 1) "r")))).steps 5 (by decide +kernel)
  have failing := (mapped.enter (by decide +kernel) {} []
    (.operate (.fault (.sink .panic)))).step (by decide +kernel)
  have completed := (failing.enter (by decide +kernel) {} []
    (.operate (.cell (.complete "s" (.ok (.constant 7)))))).steps 12 (by decide +kernel)
  have result := means _ _ 0 (.ok (.number 7)) (.stage 1 (.map (.add 1)) .none .none) completed
    (by decide +kernel)
    ⟨⟨_, _, .map ⟨_, List.mem_of_getElem? (i := 18) rfl, rfl, by decide +kernel⟩ (by decide +kernel)⟩,
      trivial, trivial⟩
    (Cell.peek_of_value? (by decide +kernel)) (1, .ok (.number 8)) (List.mem_singleton.mpr rfl)
  exact absurd (Cell.isRealized_of_peek result) (by decide +kernel)

end RequestGraph
