import RequestGraph.Proofs.Engine.History
import RequestGraph.Proofs.FanIn.Standing

/-!
# Setting up a fan-in

If no cell has failed and not all have succeeded, a fan-in is registered with each cell that is pending, from
the last to the first, once for each time that the cell occurs. Nothing else happens meanwhile, so no cell is
completed before the set-up has ended, and the continuation does not run.
-/

namespace RequestGraph

variable {w w' : World} {c d : CellId} {f f' : FanInId} {cells : List CellId} {k : Continuation}

/-- The world after a fan-in was registered with a cell. -/
def World.relayed (w : World) (c : CellId) (f : FanInId) : World :=
  { w with
    fanIns := w.fanIns.set f (w.fanIn f).await
    freshTicket := w.freshTicket + 1
    cells := w.cells.set c ((w.cell c).listened ⟨w.freshTicket, .relay f⟩) }

namespace World

/-- Registering adds one to what the fan-in waits for. -/
theorem fanIn_relayed : (w.relayed c f).fanIn f' =
    if f = f' ∧ f < w.fanIns.size then (w.fanIn f).await else w.fanIn f' :=
  Arena.get_set w.fanIns f f' _

/-- Registering adds one listener to the cell. -/
theorem cell_relayed (c' : CellId) : (w.relayed c f).cell c' =
    if c = c' ∧ c < w.cells.size then (w.cell c).listened ⟨w.freshTicket, .relay f⟩
    else w.cell c' := Arena.get_set w.cells c c' _

theorem failed_relayed : ((w.relayed c f).fanIn f').failed = (w.fanIn f').failed := by
  rw [fanIn_relayed]
  split
  · next heq =>
      rw [← heq.1]
      rfl
  · rfl

/-- No cell is realized by being listened to. -/
theorem isRealized_relayed (pending : (w.cell c).isRealized = false) :
    ((w.relayed c f).cell d).isRealized = (w.cell d).isRealized := by
  rw [cell_relayed]
  split
  · next heq =>
      rw [← heq.1, pending]
      rfl
  · rfl

/-- No cell shows anything else by being listened to. -/
theorem peek_relayed (pending : (w.cell c).isRealized = false) :
    ((w.relayed c f).cell d).peek = (w.cell d).peek := by
  rw [cell_relayed]
  split
  · next heq =>
      rw [← heq.1, Cell.peek_of_pending pending]
      rfl
  · rfl

/-- What has succeeded is the same after a registration, so the next cell is tested against the same
cells. -/
theorem hasSucceeded_relayed (pending : (w.cell c).isRealized = false) :
    (w.relayed c f).hasSucceeded d = w.hasSucceeded d := by
  rw [hasSucceeded, Cell.value?, peek_relayed pending, hasSucceeded, Cell.value?]

/-- A registration with a pending cell keeps the world sound. -/
theorem Sound.relayed (h : w.Sound) (pending : (w.cell c).isRealized = false) (f : FanInId) :
    (w.relayed c f).Sound := by
  intro d
  rw [cell_relayed]
  split
  · exact (h c).listened pending _
  · exact h d

/-- Whether a cell is pending. -/
def isPending (w : World) (c : CellId) : Bool := !(w.cell c).isRealized

/-- Pending is what is not realized. -/
theorem isPending_iff : w.isPending c = true ↔ (w.cell c).isRealized = false := by
  rw [isPending, Bool.not_eq_true']

/-- The world after a fan-in was registered with some cells, one after another. -/
def relaying (w : World) (f : FanInId) (cells : List CellId) : World :=
  cells.foldl (fun w c => w.relayed c f) w

/-- The listeners that one of some cells gets when a fan-in is registered with all of them. -/
def relays (w : World) (f : FanInId) (cells : List CellId) (c : CellId) : List Subscription :=
  ((cells.zipIdx w.freshTicket).filter (·.1 = c)).map fun p => ⟨p.2, .relay f⟩

/-- After a set-up a cell has the listeners that it had, and one for each time that it occurs. -/
theorem cell_relaying (there : ∀ c ∈ cells, c < w.cells.size) (d : CellId) :
    (w.relaying f cells).cell d = (w.relays f cells d).foldl Cell.listened (w.cell d) := by
  induction cells generalizing w with
  | nil => rfl
  | cons c rest ih =>
      have there' : ∀ d ∈ rest, d < (w.relayed c f).cells.size := by
        intro d hd
        rw [relayed, Arena.size_set]
        exact there d (List.mem_cons_of_mem _ hd)
      show ((w.relayed c f).relaying f rest).cell d = _
      rw [ih there', cell_relayed, relays, relays, List.zipIdx_cons]
      by_cases hc : c = d
      · subst hc
        rw [if_pos ⟨rfl, there c List.mem_cons_self⟩]
        simp [relayed]
      · rw [if_neg fun h => hc h.1]
        simp [relayed, hc]

/-- After a set-up the fan-in waits for as many signals as it has registrations. -/
theorem fanIns_relaying : (w.relaying f cells).fanIns = w.fanIns.set f
    { w.fanIn f with remaining := (w.fanIn f).remaining + cells.length } := by
  induction cells generalizing w with
  | nil => exact (Arena.set_get_self w.fanIns f).symm
  | cons c rest ih =>
      show ((w.relayed c f).relaying f rest).fanIns = _
      rw [ih]
      by_cases there : f < w.fanIns.size
      · rw [fanIn_relayed, if_pos ⟨rfl, there⟩, relayed, Arena.set_set, FanIn.await,
          List.length_cons, Nat.add_assoc, Nat.add_comm 1]
      · have hsize := Nat.le_of_not_lt there
        rw [Arena.set_of_size_le _ hsize, relayed, Arena.set_of_size_le _ hsize,
          Arena.set_of_size_le _ hsize]

/-- A set-up touches cells, fan-ins and the number of the next registration only. -/
theorem relaying_eq (w : World) (f : FanInId) (cells : List CellId) : w.relaying f cells =
    { w with
      cells := (w.relaying f cells).cells
      fanIns := (w.relaying f cells).fanIns
      freshTicket := (w.relaying f cells).freshTicket } := by
  induction cells generalizing w with
  | nil => rfl
  | cons c rest ih =>
      show (w.relayed c f).relaying f rest = _
      rw [ih]
      rfl

/-- What the set-up of a fan-in makes of a world. -/
structure SetUp (w : World) (cells : List CellId) (k : Continuation) (w' : World) : Prop where
  /-- Each cell that is pending gets a listener for each time that it occurs; no other cell changes. -/
  listeners : ∀ c, w'.cell c =
    (w.relays w.fanIns.size (cells.reverse.filter w.isPending) c).foldl Cell.listened (w.cell c)
  /-- The fan-in counts these listeners. -/
  fanIns : w'.fanIns = w.fanIns.push ⟨(cells.filter w.isPending).length, false, some k⟩
  /-- All else stays as it is. -/
  others : w' = { w with
    cells := w'.cells, fanIns := w'.fanIns, freshTicket := w'.freshTicket }

/-- Any number of listeners leaves a cell pending. -/
theorem isRealized_foldl_listened {cell : Cell Subscription} (pending : cell.isRealized = false)
    (ls : List Subscription) : (ls.foldl Cell.listened cell).isRealized = false := by
  induction ls generalizing cell with
  | nil => exact pending
  | cons s rest ih =>
      have still : (cell.listened s).isRealized = false := rfl
      exact ih still

/-- No cell is completed in a set-up. -/
theorem SetUp.pending (h : w.SetUp cells k w') (pending : (w.cell c).isRealized = false) :
    (w'.cell c).isRealized = false := by
  rw [h.listeners c]
  exact isRealized_foldl_listened pending _

end World

/-! ## The run of a set-up

The induction is on the cells that are still to be watched. Each is registered with in one step, or skipped
because it has succeeded, and the others are found as they were.
-/

namespace Machine

variable {m m' : Machine} {n : ℕ} {ls : List (CellId × Listener)}

/-- The registration that is done next. -/
def subscribes (m : Machine) : List (CellId × Listener) :=
  match m.control with
  | .call (.subscribe c l) => [(c, l)]
  | _ => []

/-- A run of so many steps that registers the given listeners, in this order, and in which no continuation
runs. -/
structure Registers (m : Machine) (n : ℕ) (ls : List (CellId × Listener)) (m' : Machine) : Prop where
  ends : m.iterate n = m'
  listeners : (m.trail n).reverse.flatMap subscribes = ls
  busy : ∀ x ∈ m.trail n, x.atRest = false
  quiet : ∀ x ∈ m.trail n, ∀ k failure, x.control ≠ .call (.conclude k failure)

theorem Registers.refl (m : Machine) : m.Registers 0 [] m where
  ends := rfl
  listeners := rfl
  busy _ hx := absurd hx List.not_mem_nil
  quiet _ hx := absurd hx List.not_mem_nil

/-- A set-up that may go on from the next step may go on from here, if this step runs no continuation. -/
theorem Registers.step (h : m.step.Registers n ls m') (busy : m.atRest = false)
    (quiet : (m.control matches .call (.conclude _ _)) = false) :
    m.Registers (n + 1) (m.subscribes ++ ls) m' where
  ends := h.ends
  listeners := by
    rw [trail, List.reverse_append, List.reverse_singleton, List.singleton_append,
      List.flatMap_cons, h.listeners]
  busy x hx := by
    rcases List.mem_append.mp hx with hx | hx
    · exact h.busy x hx
    · exact List.mem_singleton.mp hx ▸ busy
  quiet x hx := by
    rcases List.mem_append.mp hx with hx | hx
    · exact h.quiet x hx
    · intro k failure conclude
      rw [List.mem_singleton.mp hx] at conclude
      rw [conclude] at quiet
      cases quiet

/-- A fan-in is registered with the cells that are pending, one after another. -/
theorem watch_registers (sound : w.Sound) (calm : (w.fanIn f).failed = false)
    (unfailed : ∀ c ∈ cells, w.hasSucceeded c = true ∨ (w.cell c).isRealized = false)
    (stack : List Frame) (last : Registers ⟨w.relaying f (cells.filter w.isPending),
      .call (.watch f []), stack⟩ n [] m') :
    ∃ n, Registers ⟨w, .call (.watch f cells), stack⟩ n
      ((cells.filter w.isPending).map fun c => (c, .relay f)) m' := by
  induction cells generalizing w with
  | nil => exact ⟨n, last⟩
  | cons c rest ih =>
      have unfailed' (d : CellId) (hd : d ∈ rest) := unfailed d (List.mem_cons_of_mem _ hd)
      by_cases succeeded : w.hasSucceeded c = true
      · have hfilter : (c :: rest).filter w.isPending = rest.filter w.isPending := by
          refine List.filter_cons_of_neg fun pending => ?_
          rw [World.hasSucceeded, Cell.value?, Cell.peek_of_pending (World.isPending_iff.mp pending)]
            at succeeded
          cases succeeded
        rw [hfilter] at last ⊢
        obtain ⟨n', hrest⟩ := ih sound calm unfailed' last
        have hstep : (⟨w, .call (.watch f (c :: rest)), stack⟩ : Machine).step =
            ⟨w, .call (.watch f rest), stack⟩ := by
          show ofMove (w.watch f (c :: rest)) stack = _
          rw [World.watch, if_pos succeeded]
          rfl
        exact ⟨n' + 1, Registers.step (hstep ▸ hrest) rfl rfl⟩
      · have pending := (unfailed c List.mem_cons_self).resolve_left succeeded
        have hsame : (w.relayed c f).isPending = w.isPending := by
          funext d
          rw [World.isPending, World.isRealized_relayed pending, World.isPending]
        have hfilter : (c :: rest).filter w.isPending = c :: rest.filter w.isPending :=
          List.filter_cons_of_pos (World.isPending_iff.mpr pending)
        rw [hfilter] at last ⊢
        obtain ⟨n', hrest⟩ := ih (w := w.relayed c f) (sound.relayed pending f)
          (World.failed_relayed.trans calm)
          (fun d hd => by
            rw [World.hasSucceeded_relayed pending, World.isRealized_relayed pending]
            exact unfailed' d hd)
          (by rw [hsame]; exact last)
        rw [hsame] at hrest
        -- The cell is looked at, the fan-in is registered with it, and the rest is looked at.
        have hwatch : (⟨w, .call (.watch f (c :: rest)), stack⟩ : Machine).step =
            ⟨w.setFanIn f (w.fanIn f).await, .call (.subscribe c (.relay f)),
              .watching f rest :: stack⟩ := by
          show ofMove (w.watch f (c :: rest)) stack = _
          rw [World.watch, if_neg succeeded, calm]
          rfl
        have hsubscribe : (⟨w.setFanIn f (w.fanIn f).await, .call (.subscribe c (.relay f)),
              .watching f rest :: stack⟩ : Machine).step =
            ⟨w.relayed c f, .ret .unit, .watching f rest :: stack⟩ := by
          have sound' : (w.setFanIn f (w.fanIn f).await).Sound := sound
          have hpeek : ((w.setFanIn f (w.fanIn f).await).cell c).peek = none :=
            Cell.peek_of_pending pending
          show ofMove ((w.setFanIn f (w.fanIn f).await).subscribe c (.relay f)) _ = _
          rw [World.subscribe_eq sound', hpeek]
          rfl
        have hregisters : Registers ⟨w.relayed c f, .ret .unit, .watching f rest :: stack⟩ (n' + 1)
            ([] ++ (rest.filter w.isPending).map fun c => (c, .relay f)) m' :=
          Registers.step hrest rfl rfl
        exact ⟨n' + 3, Registers.step (hwatch ▸ Registers.step (hsubscribe ▸ hregisters) rfl rfl)
          rfl rfl⟩

/-- A fan-in is set up before the call that made it comes back. -/
theorem Starts.sets_up (starts : m.Starts cells k) (sound : m.world.Sound)
    (there : ∀ c ∈ cells, c < m.world.cells.size) :
    ∃ n w', m.Registers n ((cells.reverse.filter m.world.isPending).map
        fun c => (c, .relay m.world.fanIns.size)) ⟨w', .ret .unit, m.stack⟩ ∧
      m.world.SetUp cells k w' ∧ ∃ c ∈ cells, (m.world.cell c).isRealized = false := by
  obtain ⟨w, control, stack⟩ := m
  obtain ⟨rfl, unfailing, left⟩ := starts
  have unfailed (c : CellId) (hc : c ∈ cells) :
      w.hasSucceeded c = true ∨ (w.cell c).isRealized = false := by
    cases hr : (w.cell c).isRealized with
    | false => exact .inr rfl
    | true =>
        left
        obtain ⟨o, ho⟩ := World.peek_of_isRealized sound hr
        have calm := List.findSome?_eq_none_iff.mp unfailing c (List.mem_reverse.mpr hc)
        cases o with
        | ok v => simp [World.hasSucceeded, Cell.value?, ho]
        | error e =>
            rw [Cell.error?, ho] at calm
            cases calm
  obtain ⟨c, hc, hpending⟩ : ∃ c ∈ cells, (w.cell c).isRealized = false := by
    by_contra hnone
    refine Bool.false_ne_true (left.symm.trans (List.all_eq_true.mpr fun c hc => ?_))
    exact (unfailed c hc).resolve_right fun hpending => hnone ⟨c, hc, hpending⟩
  generalize hf : w.fanIns.size = f
  generalize hpendings : cells.reverse.filter w.isPending = pendings
  have hlength : (cells.filter w.isPending).length = pendings.length := by
    rw [← hpendings, List.filter_reverse, List.length_reverse]
  have hpositive : 0 < pendings.length := by
    rw [← hlength]
    exact List.length_pos_of_mem (List.mem_filter.mpr ⟨hc, World.isPending_iff.mpr hpending⟩)
  let made : World := { w with fanIns := w.fanIns.push (.start k) }
  have hmade : made.fanIn f = .start k := by
    rw [← hf]
    exact Arena.get_push_size _ _
  have hcounted : (made.relaying f pendings).fanIn f = ⟨pendings.length + 1, false, some k⟩ := by
    rw [World.fanIn, World.fanIns_relaying, Arena.get_set, if_pos, hmade]
    · rw [FanIn.start, Nat.add_comm]
    · refine ⟨rfl, ?_⟩
      show f < (w.fanIns.push _).size
      rw [Arena.size_push, hf]
      exact Nat.lt_succ_self f
  -- The end of the set-up does not settle the fan-in, because a cell is pending.
  have hlast : Registers ⟨made.relaying f pendings, .call (.watch f []), stack⟩ 2 []
      ⟨(made.relaying f pendings).setFanIn f ⟨pendings.length, false, some k⟩, .ret .unit, stack⟩ := by
    have hsignal : (⟨made.relaying f pendings, .call (.signal f none), stack⟩ : Machine).step =
        ⟨(made.relaying f pendings).setFanIn f ⟨pendings.length, false, some k⟩, .ret .unit,
          stack⟩ := by
      have hearly : (⟨pendings.length + 1, false, some k⟩ : FanIn Continuation).succeed =
          .counted ⟨pendings.length, false, some k⟩ := by
        refine if_neg fun h => ?_
        have : pendings.length + 1 = 1 := h.1
        omega
      show ofMove ((made.relaying f pendings).signal f none) stack = _
      simp only [World.signal, hcounted, hearly]
      rfl
    exact Registers.step (Registers.step (hsignal ▸ Registers.refl _) rfl rfl) rfl rfl
  have sound' : made.Sound := sound
  have unfailed' (c : CellId) (hc : c ∈ cells.reverse) := unfailed c (List.mem_reverse.mp hc)
  have calm : (made.fanIn f).failed = false := by
    rw [hmade]
    rfl
  obtain ⟨n, hregisters⟩ := watch_registers (w := made) sound' calm unfailed' stack
    (by rw [show made.isPending = w.isPending from rfl, hpendings]; exact hlast)
  have hawait : (⟨w, .call (.await cells k), stack⟩ : Machine).step =
      ⟨made, .call (.watch f cells.reverse), stack⟩ := by
    show ofMove (w.await cells k) stack = _
    rw [World.await, unfailing, left, hf]
    rfl
  rw [show made.isPending = w.isPending from rfl, hpendings] at hregisters
  refine ⟨n + 1, _, Registers.step (hawait ▸ hregisters) rfl rfl, ⟨?_, ?_, ?_⟩, c, hc, hpending⟩
  · intro d
    have there' : ∀ c ∈ pendings, c < made.cells.size := by
      rw [← hpendings]
      exact fun c hc => there c (List.mem_reverse.mp (List.mem_filter.mp hc).1)
    rw [hpendings, hf]
    exact World.cell_relaying there' d
  · show (made.relaying f pendings).fanIns.set f _ = _
    rw [World.fanIns_relaying, Arena.set_set, hlength, ← hf]
    exact Arena.set_push _ _ _
  · have hsame := World.relaying_eq made f pendings
    show (World.setFanIn _ f _) = _
    rw [World.setFanIn, hsame]

end Machine

end RequestGraph
