import RequestGraph.Proofs.Cell.Lifetime
import RequestGraph.Proofs.Delivery.Order
import RequestGraph.Proofs.Request.Gathering
import RequestGraph.Proofs.Request.Jobs
import RequestGraph.Proofs.Request.Placement
import RequestGraph.Proofs.Request.Providers

/-!
# One cell for each key

A context gives every key one cell, and starts the node of a key at most once. Three things work together:
the slot of the key takes one cell only, the ledger turns it away when the context is closed, and the job of
the node does not start without a claim. Scripts may ask for keys wherever they run, in nodes, listeners and
queued jobs; jobs may be run in any order, late, or never.
-/

namespace RequestGraph

/-! ## Fetches and nodes

What is promised is about events of a run: a key is asked for, a node starts, a node runs, a claim is used.
Each is read off a machine.
-/

/-- A call asks a context for the cell of a key, by the key or by its index. -/
inductive Call.AsksFor (k : ContextId) (key : String) : Call → Prop
  | byKey : AsksFor k key (.fetchKey k key)
  | byIndex (index : KeyIndex) : AsksFor k key (.fetch k index key)

namespace Machine

/-- A context is asked for the cell of a key next, and that comes back with a result. -/
def Fetches (x : Machine) (k : ContextId) (key : String) (r : Result) : Prop :=
  ∃ call w, call.AsksFor k key ∧ x.control = .call call ∧ x.world.Performs call w (.ret r)

/-- A context is asked for the cell of a key next, for the first time. -/
structure FetchesFirst (x : Machine) (k : ContextId) (index : KeyIndex) (key : String) : Prop where
  call : x.control = .call (.fetch k index key)
  empty : (x.world.context k).slots.lookup index.toUInt64 = none

/-- The next step starts a node, with a claim on the cell that it is to complete. -/
structure StartsNode (x : Machine) (k : ContextId) (claim : Claim) (node : Node) : Prop where
  job : x.control = .call (.job (.node k claim.cell node))
  script : x.step.control =
    .call (.script node.body { context := some k, claim := some claim })
  guarded : x.step.stack = .guarding claim :: x.stack

/-- The next step starts the node of a key. -/
def StartsKey (x : Machine) (k : ContextId) (key : String) : Prop :=
  ∃ claim node, x.StartsNode k claim node ∧ x.world.Holds k key claim.cell

/-- A node is running under a claim: its guard is on the stack. -/
def Runs (x : Machine) (claim : Claim) : Prop := .guarding claim ∈ x.stack

/-- A claim completes its cell next. -/
def ClaimCompletes (x : Machine) (claim : Claim) : Prop :=
  x.Completes claim.cell ∧
    ∃ o, x.control = .call (.complete claim.cell o (.presenting (some claim.token)))

end Machine

/-- What a context does for its keys, at all machines of a run. -/
structure Memoizes (ms : List Machine) (k : ContextId) : Prop where
  /-- Fetches come back with cells, which are the same exactly if the keys are. -/
  cells : ∀ x ∈ ms, ∀ y ∈ ms, ∀ key key' r r', x.Fetches k key r → y.Fetches k key' r' →
    ∃ c d, r = .cell c ∧ r' = .cell d ∧ (c = d ↔ key = key')
  /-- Whoever asks again for a key is given its cell at once. -/
  again : ∀ x ∈ ms, ∀ index key c, x.control = .call (.fetch k index key) →
    (x.world.context k).slots.lookup index.toUInt64 = some c →
      x.step = ⟨x.world, .ret (.cell c), x.stack⟩
  /-- The node of a key is started at most once. -/
  once : ms.Pairwise fun y x => ∀ key, ¬(y.StartsKey k key ∧ x.StartsKey k key)
  /-- Whatever is started is the node that the provider has for a key, on the cell of that key. -/
  own : ∀ y ∈ ms, ∀ claim node, y.StartsNode k claim node → ∃ key, y.world.Holds k key claim.cell ∧
    ∃ x ∈ ms, (∃ index, x.FetchesFirst k index key) ∧
      (x.world.provider k).nodes.get? key = some node
  /-- It is dispatched by the first fetch of the key, if the context is open and has no input for the key. -/
  dispatched : ∀ x ∈ ms, ∀ index key node, x.FetchesFirst k index key →
    (x.world.context k).isFrozen = false → (x.world.context k).inputs.get? key = none →
      (x.world.provider k).nodes.get? key = some node →
        x.Dispatches k index key x.world.cells.size node
  /-- It is started by its job, if the cell is pending and not claimed. -/
  started : ∀ y ∈ ms, ∀ c node, y.control = .call (.job (.node k c node)) →
    (y.world.cell c).isRealized = false → (y.world.cell c).owner = none →
      ∃ t, y.StartsNode k ⟨c, t⟩ node
  /-- The node of a key that has an input is never started. -/
  input : ∀ x ∈ ms, k < x.world.contexts.size → ∀ key source,
    (x.world.context k).inputs.get? key = some source → ∀ y ∈ ms, ¬y.StartsKey k key
  /-- Nor is it if the context was closed when the key was first asked for. -/
  late : ∀ x ∈ ms, ∀ index key, x.FetchesFirst k index key →
    (x.world.context k).isFrozen = true → ∀ y ∈ ms, ¬y.StartsKey k key
  /-- Nor is it if the cell is completed or claimed when the job of the node begins. -/
  taken : ∀ y ∈ ms, ∀ c node, y.control = .call (.job (.node k c node)) →
    (y.world.cell c).isRealized = true ∨ (y.world.cell c).owner ≠ none →
      y.step = ⟨y.world, .ret .unit, y.stack⟩
  /-- While a node runs its cell is owned by its claim, and completed by nobody else. -/
  owned : ∀ y ∈ ms, ∀ claim, y.Runs claim →
    (y.world.cell claim.cell).owner = some claim.token ∧
      ((y.world.cell claim.cell).isRealized = true → ∃ z ∈ ms, z.ClaimCompletes claim)
  /-- The first fetch of a key in a closed context fails its cell. -/
  finished : ∀ x ∈ ms, ∀ index key, x.FetchesFirst k index key →
    (x.world.context k).isFrozen = true →
      x.world.Fails (.fetch k index key) x.world.cells.size .contextFinished
  /-- So does that of a key with neither an input nor a node. -/
  unknown : ∀ x ∈ ms, ∀ index key, x.FetchesFirst k index key →
    (x.world.context k).isFrozen = false → (x.world.context k).inputs.get? key = none →
      (x.world.provider k).nodes.get? key = none →
        x.world.Fails (.fetch k index key) x.world.cells.size (.unknownNode (Text.quoted key))

/-! ## Cells

A slot keeps its cell, and no cell is in two slots. So the cell of a key may be spoken of without saying
when.
-/

namespace World

variable {w : World} {k : ContextId} {key : String} {c : CellId}

/-- Different indices of a context have different cells. -/
def Apart (w : World) : Prop := ∀ k (i j : KeyIndex) c,
  (w.context k).slots.lookup i.toUInt64 = some c →
    (w.context k).slots.lookup j.toUInt64 = some c → i = j

/-- Different keys have different cells. -/
theorem Holds.inj (apart : w.Apart) {key' : String} (h : w.Holds k key c)
    (h' : w.Holds k key' c) : key = key' := by
  obtain ⟨i, hi, hslot⟩ := h
  obtain ⟨j, hj, hslot'⟩ := h'
  rw [apart k i j c hslot hslot'] at hi
  exact Option.some.inj (hi.symm.trans hj)

end World

namespace Machine

variable {m x : Machine} {k : ContextId} {index : KeyIndex} {key : String} {r : Result}

theorem step_apart (h : m.world.Apart) (placed : m.Placed) (sound : m.world.Sound)
    (tables : m.world.TablesSound) : m.step.world.Apart := by
  intro k i j c hi hj
  have hbecomes := step_context sound tables k
  generalize m.step.world.context k = context at hbecomes hi hj
  cases hbecomes with
  | kept => exact h k i j c hi hj
  | opened _ slots =>
      rw [slots, SlotTable.lookup_blank] at hi
      cases hi
  | froze =>
      rw [Context.slots_frozen] at hi hj
      exact h k i j c hi hj
  | @registered index key _ empty =>
      -- The new cell was in no slot before.
      have old {i : KeyIndex} (hi : (m.world.context k).slots.lookup i.toUInt64 = some
          m.world.cells.size) : False := Nat.lt_irrefl _ (placed.there k i _ hi)
      rw [(tables.contexts k).lookup_registered empty] at hi hj
      split at hi
      · next heq =>
          cases hi
          split at hj
          · next heq' => exact UInt32.toUInt64_inj.mp (heq.symm.trans heq')
          · exact (old hj).elim
      · split at hj
        · cases hj
          exact (old hi).elim
        · exact h k i j c hi hj

/-- From some time on the slot has the cell that the fetch comes back with. -/
theorem Fetches.holds (h : x.Fetches k key r) (sound : x.world.Sound)
    (tables : x.world.TablesSound) (proper : x.asksProperly = true) :
    ∃ c n, r = .cell c ∧ ∀ i, (x.iterate (n + i)).world.Holds k key c := by
  obtain ⟨call, w, asks, control, performs⟩ := h
  obtain ⟨v, _, stack⟩ := x
  obtain rfl := control
  obtain ⟨c, hr, holds⟩ : ∃ c, r = .cell c ∧ w.Holds k key c := by
    cases asks with
    | byIndex index =>
        obtain ⟨there, hkey⟩ : k < v.contexts.size ∧ v.keys.registry[index.toNat]? = some key := by
          simpa [asksProperly, Call.isProper] using proper
        exact World.fetch_holds sound tables there hkey performs
    | byKey =>
        have there : k < v.contexts.size := by simpa [asksProperly, Call.isProper] using proper
        exact World.fetchKey_holds sound tables there performs
  obtain ⟨n, hn⟩ := performs.reaches stack
  obtain ⟨sound', tables'⟩ := performs.sound sound tables
  refine ⟨c, n, hr, fun i => ?_⟩
  rw [iterate_add, hn]
  exact iterate_kept (P := fun w => w.Holds k key c) sound' tables' holds
    (fun sound tables hc => step_holds sound tables hc) i

/-! ## Dispatches and starts

A node is dispatched by the fetch that has made the cell, and by no other. What that fetch finds decides
whether it is dispatched at all.
-/

/-- The inputs of a context that is there stay the same. -/
theorem ContextBecomes.inputs {context : Context} (h : m.ContextBecomes k context)
    (there : k < m.world.contexts.size) : context.inputs = (m.world.context k).inputs := by
  cases h with
  | kept => rfl
  | opened fresh => exact absurd fresh (Nat.ne_of_lt there)
  | froze => exact Context.inputs_frozen _
  | registered => rfl

variable {c : CellId} {node : Node} {claim : Claim}

/-- A fetch that asks properly asks a context that is there, with the index of the key. -/
theorem proper_of_fetch (proper : x.asksProperly = true)
    (call : x.control = .call (.fetch k index key)) :
    k < x.world.contexts.size ∧ x.world.keys.registry[index.toNat]? = some key := by
  simpa [asksProperly, call, Call.isProper] using proper

/-- A fetch that dispatches a node is the first of its key, in a context that is open and has no input for
the key, and the node is the one that the provider has. -/
structure Launches (x : Machine) (k : ContextId) (index : KeyIndex) (key : String) (c : CellId)
    (node : Node) : Prop where
  first : x.FetchesFirst k index key
  there : k < x.world.contexts.size
  unfrozen : (x.world.context k).isFrozen = false
  input : (x.world.context k).inputs.get? key = none
  found : (x.world.provider k).nodes.get? key = some node
  holds : x.step.world.Holds k key c

theorem Dispatches.launches (h : x.Dispatches k index key c node) (sound : x.world.Sound)
    (tables : x.world.TablesSound) (proper : x.asksProperly = true)
    (remembers : x.world.Remembers) : x.Launches k index key c node := by
  obtain ⟨call, pool, dispatches⟩ := h
  obtain ⟨there, hkey⟩ := proper_of_fetch proper call
  have faithful : (x.world.provider k).Faithful x.world.keys.registry := remembers _
  -- Of all the ways in which a fetch may go on, only one dispatches a node.
  cases hslot : (x.world.context k).slots.lookup index.toUInt64 with
  | some d =>
      rw [World.fetch_of_filled hslot] at dispatches
      cases dispatches
  | none => cases hfrozen : (x.world.context k).isFrozen with
    | true =>
        rw [World.fetch_of_frozen tables hslot hfrozen] at dispatches
        cases dispatches
    | false => cases hinput : (x.world.context k).inputs.get? key with
      | some source =>
          rw [World.fetch_of_input tables there hslot hfrozen hinput] at dispatches
          cases dispatches
      | none => cases hfound : (x.world.provider k).nodes.get? key with
        | none =>
            rw [World.fetch_of_unknown tables there hslot hfrozen hinput faithful hkey hfound]
              at dispatches
            cases dispatches
        | some node' =>
            have hfetch :=
              World.fetch_of_node tables there hslot hfrozen hinput faithful hkey hfound
            have hstep := step_call call
            rw [hfetch] at dispatches hstep
            cases dispatches
            refine ⟨⟨call, hslot⟩, there, hfrozen, hinput, hfound, index, ?_, ?_⟩
            · exact step_registry sound tables hkey
            · rw [hstep]
              show (((x.world.registering k index).context k).slots.lookup _) = _
              rw [World.context_registering there,
                (tables.contexts k).lookup_registered hslot, if_pos rfl]

/-! ## Guards

While a node runs, the frame that guards it is on the stack, and names its cell and claim. To start, the
node has claimed the cell, so no other start succeeds.
-/

theorem not_guarding_of_isOuter {frames : List Frame} (h : frames.all Frame.isOuter = true) :
    .guarding claim ∉ frames := fun hmem => nomatch List.all_eq_true.mp h _ hmem

theorem not_guarding_of_operated {w : World} {scope : Scope} {op : Op} {mv : Move}
    (h : Operated w scope op mv) : .guarding claim ∉ mv.frames := by
  cases h with
  | answered _ _ outer | entered _ _ outer | presented _ _ _ outer | latched _ _ outer
  | fetching _ outer => exact not_guarding_of_isOuter outer
  | _ => exact List.not_mem_nil

/-- A node that starts is on its way. -/
theorem StartsNode.plans {claim : Claim} (h : x.StartsNode k claim node) :
    x.Plans (.node k claim.cell node) := by
  left
  rw [h.job]
  rfl

/-- A node starts if its cell is pending and nobody owns it, and not otherwise. -/
theorem starts_of_free (sound : x.world.Sound) (job : x.control = .call (.job (.node k c node)))
    (pending : (x.world.cell c).isRealized = false) (unowned : (x.world.cell c).owner = none) :
    x.StartsNode k ⟨c, x.world.freshToken⟩ node := by
  have hstep := step_call job
  rw [World.job_of_free sound pending unowned] at hstep
  exact ⟨job, congrArg control hstep, congrArg stack hstep⟩

/-- The node that may start next, by its context, its cell and its key. -/
def nextNode? (x : Machine) : Option (ContextId × CellId × String) :=
  match x.control with
  | .call (.job (.node k c node)) => some (k, c, node.key)
  | _ => none

theorem startsKey_of_free (sound : x.world.Sound) (next : x.nextNode? = some (k, c, key))
    (pending : (x.world.cell c).isRealized = false) (unowned : (x.world.cell c).owner = none)
    (holds : x.world.Holds k key c) : x.StartsKey k key := by
  unfold nextNode? at next
  split at next
  · next job =>
    cases next
    exact ⟨_, _, starts_of_free sound job pending unowned, holds⟩
  · cases next

theorem step_of_taken (sound : x.world.Sound) (job : x.control = .call (.job (.node k c node)))
    (taken : (x.world.cell c).isRealized = true ∨ (x.world.cell c).owner ≠ none) :
    x.step = ⟨x.world, .ret .unit, x.stack⟩ := by
  rw [step_call job, World.job_of_taken sound taken]
  rfl

theorem StartsNode.free (h : x.StartsNode k claim node) (sound : x.world.Sound) :
    (x.world.cell claim.cell).isRealized = false ∧ (x.world.cell claim.cell).owner = none := by
  by_contra hfree
  have taken : (x.world.cell claim.cell).isRealized = true ∨
      (x.world.cell claim.cell).owner ≠ none := by
    rwa [not_and_or, Bool.not_eq_false] at hfree
  have hscript := h.script
  rw [step_of_taken sound h.job taken] at hscript
  cases hscript

/-- A node that starts owns its cell from then on. -/
theorem StartsNode.owner (h : x.StartsNode k claim node) (sound : x.world.Sound)
    (there : claim.cell < x.world.cells.size) :
    (x.step.world.cell claim.cell).owner = some claim.token ∧
      (x.step.world.cell claim.cell).isRealized = false := by
  obtain ⟨pending, unowned⟩ := h.free sound
  have hstep := step_call h.job
  rw [World.job_of_free sound pending unowned] at hstep
  have hscript := h.script
  rw [hstep] at hscript
  have htoken : claim = ⟨claim.cell, x.world.freshToken⟩ := by
    have hscope := (Call.script.inj (Control.call.inj hscript)).2
    exact (Option.some.inj (congrArg Scope.claim hscope)).symm
  have hcell : x.step.world.cell claim.cell =
      { x.world.cell claim.cell with phase := .listening, owner := some x.world.freshToken } := by
    rw [hstep]
    show ((x.world.setCell claim.cell _).cell claim.cell) = _
    rw [World.cell_setCell_self there]
  rw [hcell, htoken]
  exact ⟨rfl, rfl⟩

/-- A guard comes onto the stack when its node starts. -/
theorem Runs.of_step (h : m.step.Runs claim) (sound : m.world.Sound) :
    m.Runs claim ∨ ∃ k node, m.StartsNode k claim node := by
  obtain ⟨w, control, stack⟩ := m
  have below {mv : Move} (h : .guarding claim ∈ mv.frames ++ stack) :
      .guarding claim ∈ mv.frames ∨ .guarding claim ∈ stack := List.mem_append.mp h
  cases control with
  | call call =>
      refine (below h).symm.imp_right fun hmem => ?_
      -- The only call that leaves a guard is the start of a node.
      have hspec := World.invoke_spec sound call
      generalize hmv : w.invoke call = mv at hspec hmem
      cases hspec with
      | operated hop => exact absurd hmem (not_guarding_of_operated hop)
      | @nodeStarted k c node _ pending unowned =>
          obtain rfl := Frame.guarding.inj (List.mem_singleton.mp hmem)
          exact ⟨k, node, starts_of_free sound rfl pending unowned⟩
      | _ => simp at hmem
  | ret r => cases stack with
    | nil => exact .inl h
    | cons frame stack =>
        have h : .guarding claim ∈ (w.resume frame r).frames ++ stack := h
        rcases World.frames_resume (w := w) frame r with hframes | ⟨_, -, hstays⟩
        · rw [hframes] at h
          exact .inl (List.mem_cons_of_mem _ h)
        · rw [hstays] at h
          exact .inl h
  | raise p => cases stack with
    | nil => exact .inl h
    | cons frame stack =>
        have h : .guarding claim ∈ (w.unwind frame p).frames ++ stack := h
        left
        rcases List.mem_append.mp h with h | h
        · cases frame <;> simp [World.unwind, World.raise, World.call] at h
        · exact List.mem_cons_of_mem _ h

end Machine

/-! ## Whole runs

Of two fetches or starts in a run one comes first. The later one finds what the earlier one has left behind.
-/

namespace History

variable {capacity : Nat} {m x y : Machine} {past : List Machine} {k : ContextId}
  {index : KeyIndex} {key : String} {c : CellId} {node : Node} {claim : Claim}

/-- The cell of a key stays the same. -/
theorem holds (h : History capacity m past) (hx : x ∈ past) (hc : x.world.Holds k key c) :
    m.world.Holds k key c :=
  h.kept (P := fun w => w.Holds k key c) hx hc
    (fun sound tables hc => Machine.step_holds sound tables hc) fun _ _ hc => hc

theorem holds_of_step (h : History capacity m past) (hx : x ∈ past) (busy : x.atRest = false)
    (hc : x.step.world.Holds k key c) : m.world.Holds k key c := by
  rcases h.step_of_mem hx busy with rfl | hmem
  · exact hc
  · exact h.holds hmem hc

/-- The cell that a key has so many steps after a machine, it has so many steps after a later one. -/
theorem holds_iterate (h : History capacity m past) (hx : x ∈ m :: past) (n : ℕ)
    (hc : (x.iterate n).world.Holds k key c) : (m.iterate n).world.Holds k key c := by
  induction h with
  | start =>
      obtain rfl := List.mem_singleton.mp hx
      exact hc
  | @step m past before _ ih =>
      rcases List.mem_cons.mp hx with rfl | hx
      · exact hc
      · show (m.iterate (n + 1)).world.Holds k key c
        rw [Machine.iterate_succ]
        obtain ⟨sound, tables⟩ := Machine.iterate_sound before.sound before.tablesSound n
        exact Machine.step_holds sound tables (ih hx)
  | @enter m past before rest thread log call outside ih =>
      rcases List.mem_cons.mp hx with rfl | hx
      · exact hc
      · have hm := ih hx
        rw [Machine.iterate_of_atRest rest] at hm
        have entered := before.enter rest thread log outside
        exact Machine.iterate_kept (P := fun w => w.Holds k key c) entered.sound entered.tablesSound
          hm (fun sound tables hc => Machine.step_holds sound tables hc) n

theorem apart (h : History capacity m past) : m.world.Apart := by
  induction h with
  | start clock =>
      intro k i j c hi
      rw [World.lookup_start] at hi
      cases hi
  | step before _ ih => exact Machine.step_apart ih before.placed before.sound before.tablesSound
  | enter _ _ _ _ _ ih => exact ih

/-- Of two machines of a run that are not the same, one comes before the other. -/
theorem order (h : History capacity m past) (hx : x ∈ m :: past) (hy : y ∈ m :: past) :
    x = y ∨ (∃ earlier, History capacity y earlier ∧ x ∈ earlier) ∨
      ∃ earlier, History capacity x earlier ∧ y ∈ earlier := by
  have extend {last : Machine} {ms : List Machine} (h : History capacity last ms)
      (ih : x ∈ ms → y ∈ ms → x = y ∨ (∃ earlier, History capacity y earlier ∧ x ∈ earlier) ∨
        ∃ earlier, History capacity x earlier ∧ y ∈ earlier)
      (hx : x ∈ last :: ms) (hy : y ∈ last :: ms) :
      x = y ∨ (∃ earlier, History capacity y earlier ∧ x ∈ earlier) ∨
        ∃ earlier, History capacity x earlier ∧ y ∈ earlier := by
    rcases List.mem_cons.mp hx with hx' | hx' <;> rcases List.mem_cons.mp hy with hy' | hy'
    · exact .inl (hx'.trans hy'.symm)
    · exact .inr (.inr ⟨ms, hx' ▸ h, hy'⟩)
    · exact .inr (.inl ⟨ms, hy' ▸ h, hx'⟩)
    · exact ih hx' hy'
  induction h with
  | start =>
      rw [List.mem_singleton] at hx hy
      exact .inl (hx.trans hy.symm)
  | step before busy ih => exact extend (before.step busy) ih hx hy
  | enter before rest thread log outside ih =>
      exact extend (before.enter rest thread log outside) ih hx hy

/-- A node that starts was dispatched by the first fetch of the key whose cell it is to complete. -/
theorem launched (h : History capacity m past) (proper : ∀ x ∈ past, x.asksProperly = true)
    (starts : m.StartsNode k claim node) : ∃ x ∈ past, ∃ index key,
      x.Launches k index key claim.cell node ∧ m.world.Holds k key claim.cell := by
  obtain ⟨x, hx, index, key, dispatches⟩ := h.dispatched_of_plans starts.plans
  obtain ⟨earlier, hearlier, suffix⟩ := h.of_mem hx
  have remembers := hearlier.remembers fun z hz =>
    proper z (suffix.subset (List.mem_cons_of_mem _ hz))
  have launches := dispatches.launches hearlier.sound hearlier.tablesSound (proper x hx) remembers
  have busy := Machine.busy_of_call dispatches.1
  exact ⟨x, hx, index, key, launches, h.holds_of_step hx busy launches.holds⟩

/-- The cell of a node that starts is there. -/
theorem there_of_starts (h : History capacity m past) (starts : m.StartsNode k claim node) :
    claim.cell < m.world.cells.size :=
  (h.grounded.call starts.job).2

/-- The node of a key does not start again. -/
theorem not_restarted (h : History capacity m past) (hx : x ∈ past) :
    ¬(m.StartsKey k key ∧ x.StartsKey k key) := by
  rintro ⟨⟨claim', node', starts', holds'⟩, claim, node, starts, holds⟩
  obtain ⟨earlier, hearlier, -⟩ := h.of_mem hx
  have there := hearlier.there_of_starts starts
  have busy : x.atRest = false := by
    rw [Machine.atRest, starts.job]
  -- The cell of the key has had an owner since the node was started first.
  have howner := (starts.owner hearlier.sound there).1
  have hsame : claim.cell = claim'.cell := (h.holds hx holds).unique h.tablesSound holds'
  have hlater : (m.world.cell claim.cell).owner = some claim.token := by
    rcases h.step_of_mem hx busy with rfl | hmem
    · exact howner
    · exact (h.later hmem claim.cell).owner _ howner
  rw [hsame, (starts'.free h.sound).2] at hlater
  cases hlater

/-- While a node runs its cell is owned by its claim. -/
theorem owner_of_runs (h : History capacity m past) (runs : m.Runs claim) :
    claim.cell < m.world.cells.size ∧ (m.world.cell claim.cell).owner = some claim.token := by
  induction h with
  | start => cases runs
  | enter => cases runs
  | @step m past before _ ih =>
    rcases runs.of_step before.sound with runs | ⟨k, node, starts⟩
    · obtain ⟨there, howner⟩ := ih runs
      exact ⟨there.trans_le (Machine.size_step before.sound),
        (Machine.step_cell before.sound claim.cell).owner howner⟩
    · have there := before.there_of_starts starts
      exact ⟨there.trans_le (Machine.size_step before.sound), (starts.owner before.sound there).1⟩

/-- A cell that is completed while its node runs is completed with its claim. -/
theorem completed_by_claim (h : History capacity m past) (runs : m.Runs claim)
    (realized : (m.world.cell claim.cell).isRealized = true) :
    ∃ z ∈ past, z.ClaimCompletes claim := by
  induction h with
  | start => cases runs
  | enter => cases runs
  | @step m past before _ ih =>
    cases hpending : (m.world.cell claim.cell).isRealized with
    | true =>
      rcases runs.of_step before.sound with runs | ⟨k, node, starts⟩
      · obtain ⟨z, hz, completes⟩ := ih runs hpending
        exact ⟨z, List.mem_cons_of_mem _ hz, completes⟩
      · exact nomatch (starts.free before.sound).1.symm.trans hpending
    | false =>
      rcases runs.of_step before.sound with runs | ⟨k, node, starts⟩
      · obtain ⟨there, howner⟩ := before.owner_of_runs runs
        -- The cell has an owner, so a completion is accepted from the owner only.
        obtain ⟨o, a, call, accepted, -⟩ :=
          (Machine.step_cell before.sound claim.cell).call_of_isRealized there hpending realized
        have accepted' := accepted
        rw [howner] at accepted'
        obtain rfl := violation?_owned accepted'
        exact ⟨m, List.mem_cons_self, ⟨o, _, call, hpending, accepted⟩, o, call⟩
      · have there := before.there_of_starts starts
        exact nomatch (starts.owner before.sound there).2.symm.trans realized

/-- The first fetch of a key that dispatches a node is not one in a closed context. -/
theorem not_late (h : History capacity m past) (proper : ∀ x ∈ m :: past, x.asksProperly = true)
    (hx : x ∈ m :: past) (hy : y ∈ m :: past) (first : x.FetchesFirst k index key)
    (frozen : (x.world.context k).isFrozen = true) {i : KeyIndex}
    (launches : y.Launches k i key c node) : False := by
  obtain ⟨there, hkey⟩ := Machine.proper_of_fetch (proper x hx) first.call
  rcases h.order hx hy with rfl | ⟨earlier, hearlier, hmem⟩ | ⟨earlier, hearlier, hmem⟩
  · exact nomatch frozen.symm.trans launches.unfrozen
  · -- A context that was closed before is closed.
    have closed := hearlier.kept
      (P := fun w => k < w.contexts.size ∧ (w.context k).isFrozen = true) hmem ⟨there, frozen⟩
      (fun {z} sound tables hz => ⟨hz.1.trans_le (Machine.size_contexts_step sound tables),
        ((Machine.step_context sound tables k).isFrozen (tables.contexts k) hz.2).1⟩)
      fun _ _ hz => hz
    exact nomatch closed.2.symm.trans launches.unfrozen
  · -- A slot that was filled before is filled.
    have busy := Machine.busy_of_call launches.first.call
    obtain ⟨j, hkey', hslot⟩ := hearlier.holds_of_step hmem busy launches.holds
    rw [hearlier.tablesSound.keys.index_inj hkey' hkey, first.empty] at hslot
    cases hslot

/-- The inputs of a context that is there are the same at all machines. -/
theorem inputs_eq (h : History capacity m past) (hx : x ∈ m :: past)
    (there : k < x.world.contexts.size) :
    (m.world.context k).inputs = (x.world.context k).inputs := by
  rcases List.mem_cons.mp hx with rfl | hx
  · rfl
  · refine (h.kept (P := fun w => k < w.contexts.size ∧
      (w.context k).inputs = (x.world.context k).inputs) hx ⟨there, rfl⟩ ?_ fun _ _ hz => hz).2
    intro z sound tables hz
    refine ⟨hz.1.trans_le (Machine.size_contexts_step sound tables), ?_⟩
    exact ((Machine.step_context sound tables k).inputs hz.1).trans hz.2

/-- The node of a key is started at most once. -/
theorem started_once (h : History capacity m past) :
    (m :: past).Pairwise fun y x => ∀ key, ¬(y.StartsKey k key ∧ x.StartsKey k key) := by
  induction h with
  | start => exact List.pairwise_singleton _ _
  | step before busy ih =>
      exact List.pairwise_cons.mpr ⟨fun x hx key => (before.step busy).not_restarted hx, ih⟩
  | enter before rest thread log outside ih =>
      exact List.pairwise_cons.mpr
        ⟨fun x hx key => (before.enter rest thread log outside).not_restarted hx, ih⟩

/-- **Contexts memoize**: along every run in which keys are asked for properly, a context gives every key one
cell, and starts the node of a key at most once. -/
theorem memoizes (h : History capacity m past) (proper : ∀ x ∈ m :: past, x.asksProperly = true)
    (k : ContextId) : Memoizes (m :: past) k := by
  have launched {y : Machine} (hy : y ∈ m :: past) {claim : Claim} {node : Node}
      (starts : y.StartsNode k claim node) : ∃ x ∈ m :: past, ∃ index key,
        x.Launches k index key claim.cell node ∧ y.world.Holds k key claim.cell := by
    obtain ⟨earlier, hearlier, within⟩ := h.of_mem_cons hy
    obtain ⟨x, hx, launches⟩ := hearlier.launched
      (fun z hz => proper z (within z (List.mem_cons_of_mem _ hz))) starts
    exact ⟨x, within x (List.mem_cons_of_mem _ hx), launches⟩
  -- The node of a key was launched by a fetch of that same key.
  have launchedFor {y : Machine} (hy : y ∈ m :: past) {key : String} (starts : y.StartsKey k key) :
      ∃ x ∈ m :: past, ∃ index c node, x.Launches k index key c node := by
    obtain ⟨claim, node, starts, holds⟩ := starts
    obtain ⟨x, hx, index, key', launches, holds'⟩ := launched hy starts
    obtain ⟨earlier, hearlier, -⟩ := h.of_mem_cons hy
    rw [holds'.inj hearlier.apart holds] at launches
    exact ⟨x, hx, index, _, node, launches⟩
  constructor
  case cells =>
    intro x hx y hy key key' r r' fetches fetches'
    have found {x : Machine} (hx : x ∈ m :: past) {key : String} {r : Result}
        (fetches : x.Fetches k key r) :
        ∃ c n, r = .cell c ∧ ∀ i, (m.iterate (n + i)).world.Holds k key c := by
      obtain ⟨earlier, hearlier, -⟩ := h.of_mem_cons hx
      obtain ⟨c, n, hr, holds⟩ :=
        fetches.holds hearlier.sound hearlier.tablesSound (proper x hx)
      exact ⟨c, n, hr, fun i => h.holds_iterate hx (n + i) (holds i)⟩
    obtain ⟨c, n, rfl, holds⟩ := found hx fetches
    obtain ⟨d, n', rfl, holds'⟩ := found hy fetches'
    obtain ⟨later, hlater⟩ := h.iterate (n + n')
    have holds := holds n'
    have holds' := Nat.add_comm n' n ▸ holds' n
    refine ⟨c, d, rfl, rfl, fun heq => ?_, fun heq => ?_⟩
    · exact (heq ▸ holds).inj hlater.apart holds'
    · exact (heq ▸ holds).unique hlater.tablesSound holds'
  case again =>
    intro x hx index key c call found
    rw [Machine.step_call call, World.fetch_of_filled found]
    rfl
  case once => exact h.started_once
  case own =>
    intro y hy claim node starts
    obtain ⟨x, hx, index, key, launches, holds⟩ := launched hy starts
    exact ⟨key, holds, x, hx, ⟨index, launches.first⟩, launches.found⟩
  case dispatched =>
    intro x hx index key node first unfrozen input found
    obtain ⟨earlier, hearlier, within⟩ := h.of_mem_cons hx
    obtain ⟨there, hkey⟩ := Machine.proper_of_fetch (proper x hx) first.call
    have remembers := hearlier.remembers fun z hz =>
      proper z (within z (List.mem_cons_of_mem _ hz))
    have hfetch := World.fetch_of_node hearlier.tablesSound there first.empty unfrozen input
      (remembers _) hkey found
    exact ⟨first.call, _, congrArg Move.control hfetch⟩
  case started =>
    intro y hy c node job pending unowned
    obtain ⟨earlier, hearlier, -⟩ := h.of_mem_cons hy
    exact ⟨_, Machine.starts_of_free hearlier.sound job pending unowned⟩
  case input =>
    intro x hx there key source input y hy starts
    obtain ⟨z, hz, index, c, node, launches⟩ := launchedFor hy starts
    have hsame := (h.inputs_eq hx there).symm.trans (h.inputs_eq hz launches.there)
    rw [hsame, launches.input] at input
    cases input
  case late =>
    intro x hx index key first frozen y hy starts
    obtain ⟨z, hz, i, c, node, launches⟩ := launchedFor hy starts
    exact h.not_late proper hx hz first frozen launches
  case taken =>
    intro y hy c node job taken
    obtain ⟨earlier, hearlier, -⟩ := h.of_mem_cons hy
    exact Machine.step_of_taken hearlier.sound job taken
  case owned =>
    intro y hy claim runs
    obtain ⟨earlier, hearlier, within⟩ := h.of_mem_cons hy
    refine ⟨(hearlier.owner_of_runs runs).2, fun realized => ?_⟩
    obtain ⟨z, hz, completes⟩ := hearlier.completed_by_claim runs realized
    exact ⟨z, within z (List.mem_cons_of_mem _ hz), completes⟩
  case finished =>
    intro x hx index key first frozen
    obtain ⟨earlier, hearlier, -⟩ := h.of_mem_cons hx
    exact World.fails_of_frozen hearlier.sound hearlier.tablesSound first.empty frozen
  case unknown =>
    intro x hx index key first unfrozen input unknown
    obtain ⟨earlier, hearlier, within⟩ := h.of_mem_cons hx
    obtain ⟨there, hkey⟩ := Machine.proper_of_fetch (proper x hx) first.call
    have remembers := hearlier.remembers fun z hz =>
      proper z (within z (List.mem_cons_of_mem _ hz))
    exact World.fails_of_unknown hearlier.sound hearlier.tablesSound there first.empty unfrozen
      input (remembers _) hkey unknown

end History

/-- A run in which a node is started, and its key is asked for again. -/
theorem memoizes_of_started : ∃ m past, History 8 m past ∧
    (∀ x ∈ m :: past, x.asksProperly = true) ∧ (∃ x ∈ m :: past, x.StartsKey 0 "a") ∧
      Memoizes (m :: past) 0 := by
  let node : Script := [.claim (.complete none (.ok (.constant 7)))]
  have empty : History 8 _ _ := .start
  have provided := (empty.enter rfl {} []
    (.operate (.context (.createProvider "p" [("a", node)])))).step rfl
  have opened := (provided.enter rfl {} [] (.operate (.context (.create "k" [] "p" none)))).step rfl
  have asked := opened.enter rfl {} [] (.operate (.context (.fetch (some "k") "a" "first")))
  have starting := asked.steps 5 (by decide +kernel)
  have settled := starting.steps 13 (by decide +kernel)
  have again := settled.enter (by decide +kernel) {} []
    (.operate (.context (.fetch (some "k") "a" "second")))
  have answered := again.steps 4 (by decide +kernel)
  refine ⟨_, _, answered, ?proper, ⟨_, List.mem_cons_of_mem _ (List.mem_append_right _
    (List.mem_cons_of_mem _ (List.mem_append_left _ (List.mem_append_right _ List.mem_cons_self)))),
    Machine.startsKey_of_free (c := 0) starting.sound ?_ ?_ ?_ ⟨0, ?_, ?_⟩⟩, answered.memoizes ?proper 0⟩
  case proper => decide +kernel
  all_goals decide +kernel

end RequestGraph
