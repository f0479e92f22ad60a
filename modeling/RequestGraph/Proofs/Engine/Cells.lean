import RequestGraph.Proofs.Engine.Invocations
import RequestGraph.Proofs.Engine.Resumptions

/-!
# What one step does to the cells

Coming back and breaking off leave the core of a world alone, and most calls leave the cells alone. The
others change them in one of six ways, each tied to the call that makes it. So a cell is completed only by a
call of `complete`, takes a listener only by `subscribe`, and so on:

    m.step.world.cells = m.world.cells.set c ((m.world.cell c).completed o)
      →  m.control = .call (.complete c o a)   for an authority a that the cell accepts
-/

namespace RequestGraph

namespace Machine

theorem step_call {m : Machine} {c : Call} (call : m.control = .call c) :
    m.step = ofMove (m.world.invoke c) m.stack := by
  obtain ⟨w, control, stack⟩ := m
  obtain rfl : control = _ := call
  rfl

/-- What one step may do to the cells. -/
inductive CellChange (m : Machine) : Arena (Cell Subscription) → Prop
  | kept : CellChange m m.world.cells
  | allocated {cell : Cell Subscription} (new : cell.IsNew m.world.freshToken) :
      CellChange m (m.world.cells.push cell)
  | completed {c : CellId} {o : Outcome} {a : Authority} (call : m.control = .call (.complete c o a))
      (pending : (m.world.cell c).isRealized = false)
      (accepted : Cell.violation? (m.world.cell c).owner a = none) :
      CellChange m (m.world.cells.set c ((m.world.cell c).completed o))
  | claimed {c : CellId} (pending : (m.world.cell c).isRealized = false)
      (unowned : (m.world.cell c).owner = none) :
      CellChange m (m.world.cells.set c
        { m.world.cell c with phase := .listening, owner := some m.world.freshToken })
  | listened {c : CellId} {l : Listener} (call : m.control = .call (.subscribe c l))
      (pending : (m.world.cell c).isRealized = false) :
      CellChange m (m.world.cells.set c ((m.world.cell c).listened ⟨m.world.freshTicket, l⟩))
  | linked {c d : CellId} (call : m.control = .call (.link c d))
      (pending : (m.world.cell c).isRealized = false) :
      CellChange m (m.world.cells.set c { m.world.cell c with revokee := some d })
  | marked {c : CellId} {label : Option String} {latch : Latch} :
      CellChange m (m.world.cells.set c { m.world.cell c with label, latch })

theorem CellChange.of_core {m : Machine} {w : World} (h : w.core = m.world.core) :
    m.CellChange w.cells := by
  have hcells : w.cells = m.world.cells := congrArg Core.cells h
  rw [hcells]
  exact .kept

theorem cells_operate {m : Machine} {scope : Scope} {op : Op} {mv : Move}
    (h : Operated m.world scope op mv) :
    m.CellChange mv.world.cells := by
  have lift {w : World} {core : Core} (hcore : w.core = core) (hc : m.CellChange core.cells) :
      m.CellChange w.cells := by
    have hcells : w.cells = core.cells := congrArg Core.cells hcore
    rw [hcells]
    exact hc
  cases h with
  | answered core => exact lift core .kept
  | entered core => exact lift core .kept
  | presented core => exact lift core .kept
  | allocated new core => exact lift core (.allocated new)
  | claimed pending unowned core => exact lift core (.claimed pending unowned)
  | labelled core => exact lift core .marked
  | latched absent core => exact lift core .marked
  | interned core => exact lift core .kept
  | resolved core => exact lift core .kept
  | fetching core => exact lift core .kept
  | opened _ _ core => exact lift core .kept
  | froze _ _ core => exact lift core .kept

theorem cells_invoke {m : Machine} (h : m.world.Sound) {c : Call} (call : m.control = .call c) :
    m.CellChange (m.world.invoke c).world.cells := by
  have hspec := World.invoke_spec h c
  have lift {w : World} {core : Core} (hcore : w.core = core) (hc : m.CellChange core.cells) :
      m.CellChange w.cells := by
    have hcells : w.cells = core.cells := congrArg Core.cells hcore
    rw [hcells]
    exact hc
  generalize m.world.invoke c = mv at hspec
  cases hspec with
  | operated hop => exact cells_operate hop
  | completed pending accepted => exact .completed call pending accepted
  | registered pending => exact .listened call pending
  | linked pending => exact .linked call pending
  | unlatched => exact .marked
  | transformed => exact .allocated .blank
  | gathered => exact .allocated .blank
  | nodeStarted pending unowned core => exact lift core (.claimed pending unowned)
  | fetchedNew _ _ _ _ core => exact lift core (.allocated .blank)
  | fetchedLate => exact .allocated .blank
  | returned _ core | heard core | sunk _ core | joined core | performed core
  | performedQueued core | jobStarted core | drained core | worked core => exact .of_core core
  | _ => exact .kept

/-- What one step does to the cells. -/
theorem step_cells {m : Machine} (h : m.world.Sound) : m.CellChange m.step.world.cells := by
  obtain ⟨w, control, stack⟩ := m
  cases control with
  | call c => exact cells_invoke h rfl
  | ret r => cases stack with
    | nil => exact .kept
    | cons frame stack => exact .of_core (World.core_resume w frame r)
  | raise p => cases stack with
    | nil => exact .kept
    | cons frame stack => exact .of_core (World.core_unwind w frame p)

/-! ## What one step does to one cell

The same for one cell. Every invariant of cells is derived from this list, and not from the moves
themselves.
-/

/-- What the cell of a number may be after one step. -/
inductive Becomes (m : Machine) (c : CellId) : Cell Subscription → Prop
  | kept : Becomes m c (m.world.cell c)
  | allocated {cell : Cell Subscription} (fresh : c = m.world.cells.size)
      (new : cell.IsNew m.world.freshToken) : Becomes m c cell
  | completed {o : Outcome} {a : Authority} (call : m.control = .call (.complete c o a))
      (there : c < m.world.cells.size) (pending : (m.world.cell c).isRealized = false)
      (accepted : Cell.violation? (m.world.cell c).owner a = none) :
      Becomes m c ((m.world.cell c).completed o)
  | claimed (pending : (m.world.cell c).isRealized = false)
      (unowned : (m.world.cell c).owner = none) :
      Becomes m c { m.world.cell c with phase := .listening, owner := some m.world.freshToken }
  | listened {l : Listener} (call : m.control = .call (.subscribe c l))
      (there : c < m.world.cells.size) (pending : (m.world.cell c).isRealized = false) :
      Becomes m c ((m.world.cell c).listened ⟨m.world.freshTicket, l⟩)
  | linked {d : CellId} (call : m.control = .call (.link c d)) (there : c < m.world.cells.size)
      (pending : (m.world.cell c).isRealized = false) :
      Becomes m c { m.world.cell c with revokee := some d }
  | marked {label : Option String} {latch : Latch} :
      Becomes m c { m.world.cell c with label, latch }

theorem becomes_set {m : Machine} {c d : CellId} {cell : Cell Subscription}
    (h : d = c → c < m.world.cells.size → m.Becomes c cell) :
    m.Becomes c ((m.world.cells.set d cell).get c) := by
  rw [Arena.get_set]
  split
  · next hd => exact h hd.1 (hd.1 ▸ hd.2)
  · exact .kept

theorem CellChange.becomes {m : Machine} {cells : Arena (Cell Subscription)}
    (h : m.CellChange cells) (c : CellId) : m.Becomes c (cells.get c) := by
  cases h with
  | kept => exact .kept
  -- A new cell is the one that is looked at, or it comes after it.
  | allocated new =>
    rw [Arena.get_push]
    split
    · next hc => exact .allocated hc new
    · exact .kept
  | completed call pending accepted =>
    apply becomes_set
    intro hd there
    subst hd
    exact .completed call there pending accepted
  | claimed pending unowned =>
    apply becomes_set
    intro hd _
    subst hd
    exact .claimed pending unowned
  | listened call pending =>
    apply becomes_set
    intro hd there
    subst hd
    exact .listened call there pending
  | linked call pending =>
    apply becomes_set
    intro hd there
    subst hd
    exact .linked call there pending
  | marked =>
    apply becomes_set
    intro hd _
    subst hd
    exact .marked

/-- What one step does to one cell. -/
theorem step_cell {m : Machine} (h : m.world.Sound) (c : CellId) :
    m.Becomes c (m.step.world.cell c) := (step_cells h).becomes c

theorem Becomes.sound {m : Machine} {c : CellId} {cell : Cell Subscription}
    (h : m.Becomes c cell) (hs : (m.world.cell c).Sound) : cell.Sound := by
  cases h with
  | kept => exact hs
  | allocated _ new => exact new.sound
  | completed => exact Cell.sound_completed _ _
  | claimed pending => exact hs.claimed pending _
  | listened _ _ pending => exact hs.listened pending _
  | linked _ _ pending => exact hs.linked pending _
  | marked => exact hs.marked _ _

/-- An outcome stays. -/
theorem Becomes.peek {m : Machine} {c : CellId} {cell : Cell Subscription}
    (h : m.Becomes c cell) {o : Outcome} (ho : (m.world.cell c).peek = some o) :
    cell.peek = some o := by
  have settled (hp : (m.world.cell c).isRealized = false) : False := by
    rw [Cell.peek_of_pending hp] at ho
    cases ho
  cases h with
  | kept => exact ho
  | allocated fresh =>
    rw [World.cell_of_size_le (Nat.le_of_eq fresh.symm)] at ho
    cases ho
  | completed _ _ pending => exact (settled pending).elim
  | claimed pending => exact (settled pending).elim
  | listened _ _ pending => exact (settled pending).elim
  | linked => exact ho
  | marked => exact ho

/-- A realized cell stays realized. -/
theorem isRealized_step {m : Machine} (h : m.world.Sound) {c : CellId}
    (hr : (m.world.cell c).isRealized = true) : (m.step.world.cell c).isRealized = true := by
  obtain ⟨o, ho⟩ := World.peek_of_isRealized h hr
  exact Cell.isRealized_of_peek ((step_cell h c).peek ho)

/-- A pending cell was pending before. -/
theorem pending_of_step {m : Machine} (h : m.world.Sound) {c : CellId}
    (hp : (m.step.world.cell c).isRealized = false) : (m.world.cell c).isRealized = false := by
  by_contra hr
  exact nomatch hp.symm.trans (isRealized_step h (Bool.not_eq_false _ ▸ hr))

/-- An owner stays. -/
theorem Becomes.owner {m : Machine} {c : CellId} {cell : Cell Subscription}
    (h : m.Becomes c cell) {t : Token} (ht : (m.world.cell c).owner = some t) :
    cell.owner = some t := by
  cases h with
  | allocated fresh =>
    rw [World.cell_of_size_le (Nat.le_of_eq fresh.symm)] at ht
    cases ht
  | claimed _ unowned =>
    rw [unowned] at ht
    cases ht
  | _ => exact ht

/-- Only a completion realizes a cell that is there. -/
theorem Becomes.call_of_isRealized {m : Machine} {c : CellId} {cell : Cell Subscription}
    (h : m.Becomes c cell) (there : c < m.world.cells.size)
    (hp : (m.world.cell c).isRealized = false) (hr : cell.isRealized = true) :
    ∃ o a, m.control = .call (.complete c o a) ∧
      Cell.violation? (m.world.cell c).owner a = none ∧ cell = (m.world.cell c).completed o := by
  have pending (h : cell.isRealized = false) : False := Bool.false_ne_true (h.symm.trans hr)
  cases h with
  | allocated fresh => exact absurd fresh (Nat.ne_of_lt there)
  | completed call _ _ accepted => exact ⟨_, _, call, accepted, rfl⟩
  | kept => exact (pending hp).elim
  | claimed => exact (pending rfl).elim
  | listened => exact (pending rfl).elim
  | linked => exact (pending hp).elim
  | marked => exact (pending hp).elim

theorem step_sound {m : Machine} (h : m.world.Sound) : m.step.world.Sound :=
  fun c => (step_cell h c).sound (h c)

theorem size_step {m : Machine} (h : m.world.Sound) :
    m.world.cells.size ≤ m.step.world.cells.size := by
  generalize hcells : m.step.world.cells = cells
  have change : m.CellChange cells := hcells ▸ step_cells h
  cases change with
  | kept => exact Nat.le_refl _
  | allocated =>
    rw [Arena.size_push]
    omega
  | _ => rw [Arena.size_set]

/-- A pending cell that nobody owns takes the outcome of its completion. -/
theorem peek_of_complete {m : Machine} {c : CellId} {o : Outcome} (sound : m.world.Sound)
    (call : m.control = .call (.complete c o .unowned)) (there : c < m.world.cells.size)
    (pending : (m.world.cell c).isRealized = false) (unowned : (m.world.cell c).owner = none) :
    (m.step.world.cell c).peek = some o := by
  have accepted : m.world.refusal? c .unowned = none := by
    simp [World.refusal?, pending, unowned, Cell.violation?]
  obtain ⟨w, control, stack⟩ := m
  subst call
  show ((w.invoke (.complete c _ .unowned)).world.cell c).peek = _
  rw [World.complete_of_accepted sound accepted]
  show ((w.setCell c _).cell c).peek = _
  rw [World.cell_setCell_self there, Cell.peek_completed]

end Machine

end RequestGraph
