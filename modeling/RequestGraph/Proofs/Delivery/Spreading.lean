import Mathlib.Data.Finset.Card
import RequestGraph.Proofs.Cell.Lifetime
import RequestGraph.Proofs.Delivery.Order
import RequestGraph.Proofs.Engine.Returning

/-!
# How a completion spreads

In a network of cells that only forward what they come to, or revoke each other, the completion of a cell
completes all cells that are reached from it, and no others, whatever the shape of the network. Fewer cells
are pending after each of them, so the cascade comes to an end:

    w.Reaches c d     →   w'.cell d = (w.cell d).completed (out d)
    ¬ w.Reaches c d   →   w'.cell d = w.cell d

The order in which the cells are visited decides which outcome a cell gets that several others lead to, but
not whether it gets one.
-/

namespace RequestGraph

/-- The authority of a forward that was registered with a token, or without. -/
def Authority.ofToken : Option Token → Authority
  | none => .unowned
  | some t => .presenting (some t)

/-- A forward is accepted if its token is that of the owner, or if there is neither. -/
theorem violation?_ofToken {owner t : Option Token} :
    Cell.violation? owner (.ofToken t) = none ↔ t = owner := by
  cases t with
  | none => cases owner <;> simp [Authority.ofToken, Cell.violation?]
  | some t => cases owner <;> simp [Authority.ofToken, Cell.violation?, eq_comm]

namespace World

/-- All listeners forward to cells that are there, and all revokees are there. -/
structure IsNetwork (w : World) : Prop where
  forwards : ∀ x, ∀ s ∈ (w.cell x).listeners.toList, ∃ y t, s.listener = .forward y t ∧ y < w.cells.size
  revokees : ∀ x y, (w.cell x).revokee = some y → y < w.cells.size

/-- A cell has a forward to another one that is pending and accepts it: without a token if nobody owns the
other cell, and with the token of its owner otherwise. -/
structure Forwards (w : World) (x y : CellId) : Prop where
  pending : (w.cell y).isRealized = false
  listener : ∃ s ∈ (w.cell x).listeners.toList, s.listener = .forward y (w.cell y).owner

/-- The revokee of a cell is pending, and nobody owns it. -/
structure Revokes (w : World) (x y : CellId) : Prop where
  pending : (w.cell y).isRealized = false
  unowned : (w.cell y).owner = none
  revokee : (w.cell x).revokee = some y

/-- The cells that the completion of a cell leads to: the least set that has this cell, and with every cell
those that it forwards to or revokes. -/
inductive Reaches (w : World) (c : CellId) : CellId → Prop
  | start : Reaches w c c
  | forward {x y : CellId} (source : Reaches w c x) (link : w.Forwards x y) : Reaches w c y
  | revoke {x y : CellId} (source : Reaches w c x) (link : w.Revokes x y) : Reaches w c y

/-- How an outcome has come from the one that `c` was completed with, where the cells on the way have the
outcomes that are given. -/
inductive Traces (w : World) (c : CellId) (o : Outcome) (out : CellId → Option Outcome) :
    CellId → Outcome → Prop
  | start : Traces w c o out c o
  | forward {x y : CellId} {o' : Outcome} (source : Traces w c o out x o') (seen : out x = some o')
      (link : w.Forwards x y) : Traces w c o out y o'
  | revoke {x y : CellId} {o' : Outcome} (source : Traces w c o out x o') (seen : out x = some o')
      (link : w.Revokes x y) : Traces w c o out y (.error (.revoked (Outcome.error? o')))

/-- The outcomes of the cells. -/
def peek (w : World) (c : CellId) : Option Outcome := (w.cell c).peek

variable {w w' w'' w₀ : World} {c d x y : CellId} {o o' : Outcome} {a : Authority}
  {out out' : CellId → Option Outcome}

/-- An outcome gets only where cells lead to. -/
theorem Traces.reaches (h : w.Traces c o out d o') : w.Reaches c d := by
  induction h with
  | start => exact .start
  | forward _ _ link ih => exact .forward ih link
  | revoke _ _ link ih => exact .revoke ih link

/-- The way of an outcome stays as it was while more cells are completed. -/
theorem Traces.mono (h : w.Traces c o out d o') (later : ∀ d o', out d = some o' → out' d = some o') :
    w.Traces c o out' d o' := by
  induction h with
  | start => exact .start
  | forward _ seen link ih => exact .forward ih (later _ _ seen) link
  | revoke _ seen link ih => exact .revoke ih (later _ _ seen) link

/-- Without revokees, only the outcome of the start gets around. -/
theorem Traces.alike (h : w.Traces c o out d o')
    (none : ∀ x y, w.Reaches c x → ¬ w.Revokes x y) : o' = o := by
  induction h with
  | start => rfl
  | forward _ _ _ ih => exact ih
  | revoke source _ link => exact (none _ _ source.reaches link).elim

/-- The last cell on the way, unless the way has just begun. -/
theorem Traces.last (h : w.Traces c o out d o') (hd : d ≠ c) :
    ∃ x ox, w.Reaches c x ∧ out x = some ox ∧
      (w.Forwards x d ∧ o' = ox ∨ w.Revokes x d ∧ o' = .error (.revoked (Outcome.error? ox))) := by
  cases h with
  | start => exact (hd rfl).elim
  | forward source seen link => exact ⟨_, _, source.reaches, seen, .inl ⟨link, rfl⟩⟩
  | revoke source seen link => exact ⟨_, _, source.reaches, seen, .inr ⟨link, rfl⟩⟩

/-- What is reached is pending, as otherwise it would not take part. -/
theorem Reaches.pending (h : w.Reaches c d) (hc : (w.cell c).isRealized = false) :
    (w.cell d).isRealized = false := by
  cases h with
  | start => exact hc
  | forward _ link => exact link.pending
  | revoke _ link => exact link.pending

/-! ## How many cells are pending

The measure of the cascade. It goes down with each completion, on cycles too, since a cell that is realized
refuses.
-/

/-- The cells that are pending. -/
def pending (w : World) : Finset CellId :=
  (Finset.range w.cells.size).filter fun d => (w.cell d).isRealized = false

/-- Cells only go from pending to realized. -/
theorem pending_subset (size : w'.cells.size = w.cells.size)
    (kept : ∀ d, (w.cell d).isRealized = true → w'.cell d = w.cell d) : w'.pending ⊆ w.pending := by
  intro d hd
  obtain ⟨there, hp⟩ := Finset.mem_filter.mp hd
  refine Finset.mem_filter.mpr ⟨size ▸ there, ?_⟩
  by_contra hr
  have hr := Bool.not_eq_false _ ▸ hr
  rw [kept d hr, hr] at hp
  cases hp

/-- Fewer cells are pending after one of them was completed. -/
theorem card_pending_lt (size : w'.cells.size = w.cells.size)
    (kept : ∀ d, (w.cell d).isRealized = true → w'.cell d = w.cell d) (there : y < w.cells.size)
    (before : (w.cell y).isRealized = false) (after : (w'.cell y).isRealized = true) :
    w'.pending.card < w.pending.card := by
  apply Finset.card_lt_card
  refine (Finset.ssubset_iff_of_subset (pending_subset size kept)).mpr ⟨y, ?_, ?_⟩
  · exact Finset.mem_filter.mpr ⟨Finset.mem_range.mpr there, before⟩
  · intro hy
    rw [(Finset.mem_filter.mp hy).2] at after
    cases after

/-! ## The cascade in the middle

A completion is made inside a delivery, which is inside a completion, and so on. What holds in the middle of
all these is stated about two worlds: the one in which the first completion was made, and the one that it
has come to.
Each cell is either as it was at first, or has been completed with an outcome that has come to it along
forwards and revocations.
-/

/-- How far the completion of `c` in the world `w₀` has come: every cell is as it was, or was pending and
has the outcome that has come to it. -/
structure Spreading (w₀ : World) (c : CellId) (o : Outcome) (w : World) : Prop where
  sink : w.sink ≠ .panic
  size : w.cells.size = w₀.cells.size
  cell : ∀ d, w.cell d = w₀.cell d ∨
    (w₀.cell d).isRealized = false ∧ ∃ o', w.cell d = (w₀.cell d).completed o' ∧
      w₀.Traces c o w.peek d o'

/-- A cascade has gone on, and has not missed anybody who was to hear from the cells completed. -/
structure Onward (w₀ w w' : World) : Prop where
  kept : ∀ d, (w.cell d).isRealized = true → w'.cell d = w.cell d
  closed : ∀ x y, (w.cell x).isRealized = false → (w'.cell x).isRealized = true →
    w₀.Forwards x y ∨ w₀.Revokes x y → (w'.cell y).isRealized = true

theorem Onward.refl (w₀ w : World) : w₀.Onward w w where
  kept _ _ := rfl
  closed _ _ before after _ := nomatch before.symm.trans after

/-- What is realized stays realized. -/
theorem Onward.isRealized (h : w₀.Onward w w') (hd : (w.cell d).isRealized = true) :
    (w'.cell d).isRealized = true := by
  rw [h.kept d hd, hd]

/-- Two parts of a cascade make one. -/
theorem Onward.trans (h : w₀.Onward w w') (h' : w₀.Onward w' w'') : w₀.Onward w w'' where
  kept d hd := by rw [h'.kept d (h.isRealized hd), h.kept d hd]
  closed x y before after link := by
    cases hx : (w'.cell x).isRealized with
    | true => exact h'.isRealized (h.closed x y before hx link)
    | false => exact h'.closed x y hx after link

theorem Onward.congr (h : w₀.Onward w w') (cells : w''.cells = w'.cells) : w₀.Onward w w'' := by
  have hcell (d : CellId) : w''.cell d = w'.cell d := by rw [World.cell, cells, World.cell]
  constructor
  · intro d hd
    rw [hcell, h.kept d hd]
  · intro x y before after link
    rw [hcell] at after ⊢
    exact h.closed x y before after link

namespace Spreading

theorem congr (h : Spreading w₀ c o w) (cells : w'.cells = w.cells) (sink : w'.sink = w.sink) :
    Spreading w₀ c o w' := by
  have hcell (d : CellId) : w'.cell d = w.cell d := by rw [World.cell, cells, World.cell]
  have hpeek : w'.peek = w.peek := funext fun d => by rw [World.peek, hcell, World.peek]
  constructor
  · rw [sink]
    exact h.sink
  · rw [cells]
    exact h.size
  · intro d
    rw [hcell, hpeek]
    exact h.cell d

theorem refl (sink : w₀.sink ≠ .panic) : Spreading w₀ c o w₀ := ⟨sink, rfl, fun _ => .inl rfl⟩

theorem sound (h : Spreading w₀ c o w) (sound : w₀.Sound) : w.Sound := by
  intro d
  rcases h.cell d with hd | ⟨-, o', hd, -⟩
  · rw [hd]
    exact sound d
  · rw [hd]
    exact Cell.sound_completed _ _

/-- A cell that is still pending has not been touched. -/
theorem of_pending (h : Spreading w₀ c o w) (hd : (w.cell d).isRealized = false) :
    w.cell d = w₀.cell d := by
  rcases h.cell d with hd' | ⟨-, o', hd', -⟩
  · exact hd'
  · rw [hd', Cell.isRealized_completed] at hd
    cases hd

/-- A cell that has been completed has the outcome that has come to it. -/
theorem of_realized (h : Spreading w₀ c o w) (before : (w₀.cell d).isRealized = false)
    (after : w.peek d = some o') :
    w.cell d = (w₀.cell d).completed o' ∧ w₀.Traces c o w.peek d o' := by
  rcases h.cell d with hd | ⟨-, o'', hd, traces⟩
  · rw [peek, hd, Cell.peek_of_pending before] at after
    cases after
  · rw [peek, hd, Cell.peek_completed] at after
    cases after
    exact ⟨hd, traces⟩

/-- One more cell is completed. -/
theorem complete (h : Spreading w₀ c o w) (pending : (w.cell y).isRealized = false)
    (traces : w₀.Traces c o w.peek y o') :
    Spreading w₀ c o (w.setCell y ((w.cell y).completed o')) := by
  have later (d : CellId) (o'' : Outcome) (hd : w.peek d = some o'') :
      (w.setCell y ((w.cell y).completed o')).peek d = some o'' := by
    rw [peek, cell_setCell]
    split
    · next hy =>
        rw [← hy.1, peek, Cell.peek_of_pending pending] at hd
        cases hd
    · exact hd
  constructor
  · exact h.sink
  · rw [setCell, Arena.size_set, h.size]
  · intro d
    rw [cell_setCell]
    split
    · next hy =>
        obtain ⟨rfl, -⟩ := hy
        have hd := h.of_pending pending
        exact .inr ⟨hd ▸ pending, o', by rw [hd], traces.mono later⟩
    · rcases h.cell d with hd | ⟨hp, o'', hd, htraces⟩
      · exact .inl hd
      · exact .inr ⟨hp, o'', hd, htraces.mono later⟩

end Spreading

/-- While few cells are pending, all listeners of a completed cell can be told, and its revokee can be
revoked. -/
def Delivers (w₀ : World) (c : CellId) (o : Outcome) (n : ℕ) : Prop :=
  ∀ {w : World} {x : CellId} {ls : List Subscription} {ox : Outcome}, Spreading w₀ c o w →
    w.pending.card < n → (w₀.cell x).isRealized = false → w.peek x = some ox →
    (∀ s ∈ ls, s ∈ (w₀.cell x).listeners.toList) →
      ∃ w', w.Returns (.deliver ls (w₀.cell x).revokee ox) w' (.verdict (.ok true)) ∧
        Spreading w₀ c o w' ∧ w₀.Onward w w' ∧
        (∀ y, (w₀.cell y).isRealized = false →
          (∃ s ∈ ls, s.listener = .forward y (w₀.cell y).owner) → (w'.cell y).isRealized = true) ∧
        ∀ y, w₀.Revokes x y → (w'.cell y).isRealized = true

namespace Spreading

variable {n : ℕ} {t : Option Token} {ox : Outcome}

/-- A completion that its cell accepts is passed on to everybody whom it is to reach. -/
theorem complete_returns (h : Spreading w₀ c o w) (sound : w₀.Sound) (delivers : w₀.Delivers c o n)
    (few : w.pending.card ≤ n) (there : y < w₀.cells.size) (accepted : w.refusal? y a = none)
    (traces : w₀.Traces c o w.peek y o') :
    ∃ w', w.Returns (.complete y o' a) w' (.verdict (.ok true)) ∧ Spreading w₀ c o w' ∧
      w₀.Onward w w' ∧ w'.peek y = some o' := by
  have pending := Machine.pending_of_refusal? accepted
  have hy := h.of_pending pending
  have there : y < w.cells.size := h.size.symm ▸ there
  generalize hw₁ : w.setCell y ((w.cell y).completed o') = w₁
  have cell_y : w₁.cell y = (w.cell y).completed o' := by
    rw [← hw₁, cell_setCell_self there]
  have cell_ne (d : CellId) (hd : d ≠ y) : w₁.cell d = w.cell d := by
    rw [← hw₁, cell_setCell_of_ne hd.symm]
  have kept (d : CellId) (hd : (w.cell d).isRealized = true) : w₁.cell d = w.cell d := by
    refine cell_ne d ?_
    rintro rfl
    exact nomatch pending.symm.trans hd
  have spreading : Spreading w₀ c o w₁ := hw₁ ▸ h.complete pending traces
  -- One cell less is pending, which is what lets the listeners be told by the induction on how many are
  -- pending.
  have fewer : w₁.pending.card < w.pending.card := by
    refine card_pending_lt (spreading.size.trans h.size.symm) kept there pending ?_
    rw [cell_y, Cell.isRealized_completed]
  have after : w₁.peek y = some o' := by rw [peek, cell_y, Cell.peek_completed]
  have listeners : ∀ s ∈ (w₀.cell y).listeners.toList, s ∈ (w₀.cell y).listeners.toList :=
    fun _ hs => hs
  obtain ⟨w', hreturns, spreading', onward, forwarded, revoked⟩ :=
    delivers spreading (Nat.lt_of_lt_of_le fewer few) (hy ▸ pending) after listeners
  refine ⟨w', .of_move ?_, spreading', ?_, ?_⟩
  · rw [complete_of_accepted (h.sound sound) accepted, hw₁, hy]
    exact .call hreturns
  · constructor
    · intro d hd
      rw [onward.kept d (by rw [kept d hd, hd]), kept d hd]
    -- A cell that has been realized meanwhile is this one, whose listeners have been told, or one that the
    -- cascade came to.
    · intro x z before after link
      by_cases hx : x = y
      · subst hx
        rcases link with link | link
        · exact forwarded z link.pending link.listener
        · exact revoked z link
      · exact onward.closed x z (by rw [cell_ne x hx, before]) after link
  · rw [peek, onward.kept y (by rw [cell_y, Cell.isRealized_completed]), cell_y, Cell.peek_completed]

/-- A report returns, as the sink does not panic. -/
theorem report_returns (h : Spreading w₀ c o w) (e : Error) :
    ∃ w', w.Returns (.report e) w' .unit ∧ w'.cells = w.cells ∧ w'.sink = w.sink := by
  cases hsink : w.sink with
  | log =>
      refine ⟨w.note (.sunk (w.reportError e)), .of_move ?_, rfl, hsink⟩
      show (w.report e).Returns _ _
      simp only [World.report, hsink]
      exact .ret
  | panic => exact (h.sink hsink).elim
  | off =>
      refine ⟨w, .of_move ?_, rfl, hsink⟩
      show (w.report e).Returns _ _
      simp only [World.report, hsink]
      exact .ret

/-- A forward completes a cell that is pending and accepts it, and leaves others alone. -/
theorem settle_returns (h : Spreading w₀ c o w) (sound : w₀.Sound) (delivers : w₀.Delivers c o n)
    (few : w.pending.card ≤ n) (there : y < w₀.cells.size)
    (traces : (w.cell y).isRealized = false → t = (w.cell y).owner → w₀.Traces c o w.peek y ox) :
    ∃ w' r, w.Returns (.settle y ox t) w' r ∧ Spreading w₀ c o w' ∧ w₀.Onward w w' ∧
      ((w.cell y).isRealized = false → t = (w.cell y).owner → (w'.cell y).isRealized = true) := by
  cases hv : w.refusal? y (.ofToken t) with
  | none =>
      have pending := Machine.pending_of_refusal? hv
      have ht : t = (w.cell y).owner := violation?_ofToken.mp (refusal?_eq_none.mp hv).2
      obtain ⟨w', hreturns, spreading, onward, hy⟩ :=
        h.complete_returns sound delivers few there hv (traces pending ht)
      have hy := Cell.isRealized_of_peek hy
      cases t with
      | none => exact ⟨w', _, .of_move (.call hreturns), spreading, onward, fun _ _ => hy⟩
      | some t => exact ⟨w', _, .of_move (.above hreturns .ret), spreading, onward, fun _ _ => hy⟩
  -- A completion that is refused changes nothing. One that presents a token reports why, which returns.
  | some v =>
      have hreturns : w.Returns (.complete y ox (.ofToken t)) w (.verdict v) := by
        apply Returns.of_move
        rw [complete_of_refusal (h.sound sound) hv]
        exact .ret
      have refused (pending : (w.cell y).isRealized = false) (ht : t = (w.cell y).owner) : False :=
        nomatch hv.symm.trans (refusal?_eq_none.mpr ⟨pending, violation?_ofToken.mpr ht⟩)
      cases t with
      | none =>
          exact ⟨w, _, .of_move (.call hreturns), h, .refl w₀ w,
            fun pending ht => (refused pending ht).elim⟩
      | some t =>
          cases v with
          | ok b =>
              exact ⟨w, _, .of_move (.above hreturns .ret), h, .refl w₀ w,
                fun pending ht => (refused pending ht).elim⟩
          | error e =>
              obtain ⟨w', hreport, cells, sink⟩ := h.report_returns (.ofOwnership e)
              exact ⟨w', _, .of_move (.above hreturns (.call hreport)), h.congr cells sink,
                (Onward.refl w₀ w).congr cells, fun pending ht => (refused pending ht).elim⟩

/-- A revocation completes a cell that is pending and unowned, and leaves others alone. -/
theorem revoke_returns (h : Spreading w₀ c o w) (sound : w₀.Sound) (delivers : w₀.Delivers c o n)
    (few : w.pending.card ≤ n) (there : y < w₀.cells.size) {cause : Option Error}
    (traces : (w.cell y).isRealized = false → (w.cell y).owner = none →
      w₀.Traces c o w.peek y (.error (.revoked cause))) :
    ∃ w' r, w.Returns (.revoke y cause) w' r ∧ Spreading w₀ c o w' ∧ w₀.Onward w w' ∧
      ((w.cell y).isRealized = false → (w.cell y).owner = none → (w'.cell y).isRealized = true) := by
  cases hr : (w.cell y).isRealized with
  | true =>
      refine ⟨w, .verdict (.ok false), .of_move ?_, h, .refl w₀ w, nofun⟩
      show (w.revoke y cause).Returns _ _
      rw [revoke, if_pos hr]
      exact .ret
  | false =>
      obtain ⟨w', r, hreturns, hrest⟩ := h.settle_returns (t := none) sound delivers few there
        fun pending unowned => traces pending unowned.symm
      refine ⟨w', r, ?_, hrest.1, hrest.2.1, fun _ unowned => hrest.2.2 hr unowned.symm⟩
      -- A revocation of a pending cell does what a forward without a token does.
      intro frames
      obtain ⟨k, hk⟩ := hreturns frames
      refine ⟨k, ?_⟩
      cases k with
      | zero => cases hk
      | succ k =>
          rw [← hk]
          show (Machine.ofMove (w.revoke y cause) frames).iterate k = _
          rw [revoke, hr]
          rfl

/-- A listener of a completed cell is told: it forwards the outcome. -/
theorem notify_returns (h : Spreading w₀ c o w) (sound : w₀.Sound) (network : w₀.IsNetwork)
    (delivers : w₀.Delivers c o n) (few : w.pending.card ≤ n) (before : (w₀.cell x).isRealized = false)
    (after : w.peek x = some ox) {s : Subscription} (hs : s ∈ (w₀.cell x).listeners.toList) :
    ∃ w', w.Returns (.notify s ox) w' .unit ∧ Spreading w₀ c o w' ∧ w₀.Onward w w' ∧
      ∀ y, (w₀.cell y).isRealized = false → s.listener = .forward y (w₀.cell y).owner →
        (w'.cell y).isRealized = true := by
  obtain ⟨y, t, hlistener, there⟩ := network.forwards x s hs
  have traces : (w.cell y).isRealized = false → t = (w.cell y).owner →
      w₀.Traces c o w.peek y ox := by
    intro pending ht
    rw [h.of_pending pending] at ht
    have hy := h.of_pending pending ▸ pending
    exact .forward (h.of_realized before after).2 after ⟨hy, s, hs, by rw [hlistener, ht]⟩
  obtain ⟨w', r, hsettle, spreading, onward, hy⟩ := h.settle_returns sound delivers few there traces
  refine ⟨w', ?_, spreading, onward, ?_⟩
  · have htell : w.Returns (.tell s.listener ox) w' r := by
      apply Returns.of_move
      rw [hlistener]
      exact .call hsettle
    exact .of_move (.above htell .ret)
  · intro z pending hz
    obtain ⟨rfl, rfl⟩ := Listener.forward.inj (hlistener.symm.trans hz)
    cases hr : (w.cell y).isRealized with
    | true => exact onward.isRealized hr
    | false => exact hy hr (by rw [h.of_pending hr])

end Spreading

/-- The listeners of a completed cell are told, one after another, and its revokee is revoked. The induction
is on how many cells may be pending, and for each number on the listeners that are left. -/
theorem delivers (sound : w₀.Sound) (network : w₀.IsNetwork) (c : CellId) (o : Outcome) (n : ℕ) :
    w₀.Delivers c o n := by
  -- By induction on how many cells may be pending, and for each on the listeners that are still to be told.
  induction n with
  | zero => exact fun _ few => absurd few (Nat.not_lt_zero _)
  | succ n ih =>
      intro w x ls ox h few before after listeners
      replace few := Nat.le_of_lt_succ few
      induction ls generalizing w with
      | nil =>
          cases hrevokee : (w₀.cell x).revokee with
          | none =>
              refine ⟨w, .of_move .ret, h, .refl w₀ w, ?_, ?_⟩
              · rintro y - ⟨s, hs, -⟩
                cases hs
              · intro y link
                exact nomatch hrevokee.symm.trans link.revokee
          -- The revokee comes last. If it is pending and nobody owns it, the outcome has come to it.
          | some y =>
              have traces : (w.cell y).isRealized = false → (w.cell y).owner = none →
                  w₀.Traces c o w.peek y (.error (.revoked (Outcome.error? ox))) := by
                intro pending unowned
                rw [h.of_pending pending] at unowned
                have hy := h.of_pending pending ▸ pending
                exact .revoke (h.of_realized before after).2 after ⟨hy, unowned, hrevokee⟩
              obtain ⟨w', r, hreturns, spreading, onward, hy⟩ :=
                h.revoke_returns sound ih few (network.revokees x y hrevokee) traces
              refine ⟨w', .of_move (.above hreturns .ret), spreading, onward, ?_, ?_⟩
              · rintro y - ⟨s, hs, -⟩
                cases hs
              · intro z link
                obtain rfl := Option.some.inj (hrevokee.symm.trans link.revokee)
                cases hr : (w.cell y).isRealized with
                | true => exact onward.isRealized hr
                | false => exact hy hr (by rw [h.of_pending hr, link.unowned])
      | cons s rest ihrest =>
          obtain ⟨w₁, hnotify, spreading₁, onward₁, told⟩ :=
            h.notify_returns sound network ih few before after (listeners s List.mem_cons_self)
          have after₁ : w₁.peek x = some ox := by
            rw [peek, onward₁.kept x (Cell.isRealized_of_peek after)]
            exact after
          have few₁ : w₁.pending.card ≤ n :=
            Nat.le_trans (Finset.card_le_card
              (pending_subset (spreading₁.size.trans h.size.symm) onward₁.kept)) few
          -- The others are told in the world in which the first one has been.
          obtain ⟨w', hrest, spreading, onward, forwarded, revoked⟩ :=
            ihrest spreading₁ after₁ (fun s hs => listeners s (List.mem_cons_of_mem _ hs)) few₁
          refine ⟨w', .of_move (.above hnotify (.call hrest)), spreading, onward₁.trans onward, ?_,
            revoked⟩
          rintro y pending ⟨u, hu, hlistener⟩
          rcases List.mem_cons.mp hu with rfl | hu
          · exact onward.isRealized (told y pending hlistener)
          · exact forwarded y pending ⟨u, hu, hlistener⟩

end World

/-! ## Completions in a run

Whether a cell was completed in a run can be told from its two ends, as a realized cell stays what it is.
-/

namespace Machine

variable {m : Machine} {d : CellId} {n : ℕ}

/-- Only pending cells are completed. -/
theorem Completes.pending (h : m.Completes d) : (m.world.cell d).isRealized = false := by
  obtain ⟨o, a, -, pending, -⟩ := h
  exact pending

/-- A completion that is accepted realizes the cell at once. -/
theorem Completes.realized (h : m.Completes d) (sound : m.world.Sound) (there : d < m.world.cells.size) :
    (m.step.world.cell d).isRealized = true := by
  obtain ⟨o, a, call, accepted⟩ := h
  rw [step_call call, World.complete_of_accepted sound (World.refusal?_eq_none.mpr accepted)]
  show ((m.world.setCell d _).cell d).isRealized = true
  rw [World.cell_setCell_self there, Cell.isRealized_completed]

/-- A cell that becomes realized in a run is completed exactly once in it. -/
theorem completes_once (sound : m.world.Sound) (there : d < m.world.cells.size)
    (before : (m.world.cell d).isRealized = false)
    (after : ((m.iterate n).world.cell d).isRealized = true) :
    ∃! i, i < n ∧ (m.iterate i).Completes d := by
  induction n generalizing m with
  | zero => exact nomatch before.symm.trans after
  | succ n ih =>
      have there' := Nat.lt_of_lt_of_le there (size_step sound)
      cases hr : (m.step.world.cell d).isRealized with
      | true =>
          -- This step has completed it, and later ones find it realized.
          refine ⟨0, ⟨Nat.zero_lt_succ n, ?_⟩, ?_⟩
          · obtain ⟨o, a, call, accepted, -⟩ := (step_cell sound d).call_of_isRealized there before hr
            exact ⟨o, a, call, before, accepted⟩
          · rintro i ⟨-, hi⟩
            cases i with
            | zero => rfl
            | succ i => exact nomatch hr.symm.trans (pending_of_iterate (step_sound sound) hi.pending)
      | false =>
          obtain ⟨i, ⟨hi, completes⟩, unique⟩ := ih (step_sound sound) there' hr after
          refine ⟨i + 1, ⟨Nat.succ_lt_succ hi, completes⟩, ?_⟩
          rintro j ⟨hj, hcompletes⟩
          cases j with
          | zero => exact nomatch hr.symm.trans (Completes.realized hcompletes sound there)
          | succ j => rw [unique j ⟨Nat.lt_of_succ_lt_succ hj, hcompletes⟩]

/-- A cell that a run leaves pending, or that was realized from the start, is not completed in it. -/
theorem not_completes (sound : m.world.Sound) (there : d < m.world.cells.size)
    (same : ((m.iterate n).world.cell d).isRealized = (m.world.cell d).isRealized) :
    ∀ i < n, ¬ (m.iterate i).Completes d := by
  induction n generalizing m with
  | zero => exact nofun
  | succ n ih =>
      have there' := Nat.lt_of_lt_of_le there (size_step sound)
      have hstep : (m.step.world.cell d).isRealized = (m.world.cell d).isRealized := by
        cases before : (m.world.cell d).isRealized with
        | false => exact pending_of_iterate (n := n) (step_sound sound) (same.trans before)
        | true =>
            by_contra hr
            exact nomatch before.symm.trans (pending_of_step sound (Bool.not_eq_true _ ▸ hr))
      intro i hi hcompletes
      cases i with
      | zero =>
          have hpending := Completes.pending hcompletes
          exact nomatch (hstep.trans hpending).symm.trans (Completes.realized hcompletes sound there)
      | succ i =>
          exact ih (step_sound sound) there' (same.trans hstep.symm) i (Nat.lt_of_succ_lt_succ hi)
            hcompletes

end Machine

/-! ## The main result -/

/-- What the completion of the cell `c` with `o` makes of a network: the world after it, the outcomes that
the cells were completed with, and the run in between. -/
structure Spread (w : World) (c : CellId) (o : Outcome) (a : Authority) (w' : World)
    (out : CellId → Outcome) : Prop where
  /-- It comes back, above any frames, and says that the completion was accepted. -/
  returns : w.Returns (.complete c o a) w' (.verdict (.ok true))
  /-- The cells that are reached are completed; everything else about them, and all other cells, stay as
  they are. -/
  completed : ∀ d, w.Reaches c d → w'.cell d = (w.cell d).completed (out d)
  kept : ∀ d, ¬ w.Reaches c d → w'.cell d = w.cell d
  /-- Each of them is completed once on the way, and no other cell is. -/
  once : ∀ frames n, (⟨w, .call (.complete c o a), frames⟩ : Machine).iterate n =
      ⟨w', .ret (.verdict (.ok true)), frames⟩ →
    ∀ d < w.cells.size,
      (w.Reaches c d →
        ∃! i, i < n ∧ ((⟨w, .call (.complete c o a), frames⟩ : Machine).iterate i).Completes d) ∧
      (¬ w.Reaches c d →
        ∀ i < n, ¬ ((⟨w, .call (.complete c o a), frames⟩ : Machine).iterate i).Completes d)
  /-- The first has the outcome that was given. -/
  first : out c = o
  /-- Each of the others has the outcome of one that forwards to it, or was revoked by one. -/
  others : ∀ d, w.Reaches c d → d ≠ c → ∃ x, w.Reaches c x ∧
    (w.Forwards x d ∧ out d = out x ∨
      w.Revokes x d ∧ out d = .error (.revoked (Outcome.error? (out x))))
  /-- Where nobody is revoked, all have the same outcome. -/
  alike : (∀ x d, w.Reaches c x → ¬ w.Revokes x d) → ∀ d, w.Reaches c d → out d = o

/-- **A completion spreads to all that it reaches**, and to nothing else. -/
theorem World.complete_spreads {w : World} (sound : w.Sound) (network : w.IsNetwork)
    (sink : w.sink ≠ .panic) {c : CellId} (there : c < w.cells.size) {a : Authority}
    (accepted : w.refusal? c a = none) (o : Outcome) : ∃ w' out, Spread w c o a w' out := by
  have pending := Machine.pending_of_refusal? accepted
  obtain ⟨w', returns, spreading, onward, hc⟩ :=
    (Spreading.refl (c := c) (o := o) sink).complete_returns sound (w.delivers sound network c o _)
      (Nat.le_refl _) there accepted .start
  have reached (d : CellId) (hd : w.Reaches c d) : (w'.cell d).isRealized = true := by
    induction hd with
    | start => exact Cell.isRealized_of_peek hc
    | forward source link ih => exact onward.closed _ _ (source.pending pending) ih (.inl link)
    | revoke source link ih => exact onward.closed _ _ (source.pending pending) ih (.inr link)
  have peeks (d : CellId) (hd : w.Reaches c d) : ∃ o', w'.peek d = some o' :=
    peek_of_isRealized (spreading.sound sound) (reached d hd)
  have kept (d : CellId) (hd : ¬ w.Reaches c d) : w'.cell d = w.cell d := by
    rcases spreading.cell d with h | ⟨-, o', -, traces⟩
    · exact h
    · exact (hd traces.reaches).elim
  generalize hout : (fun d => (w'.peek d).getD o) = out
  have seen (d : CellId) (hd : w.Reaches c d) : w'.peek d = some (out d) := by
    obtain ⟨o', ho'⟩ := peeks d hd
    simp [← hout, ho']
  have traced (d : CellId) (hd : w.Reaches c d) :=
    spreading.of_realized (hd.pending pending) (seen d hd)
  refine ⟨w', out, returns, fun d hd => (traced d hd).1, kept, ?_, ?_, ?_, ?_⟩
  · intro frames n run d hd
    constructor
    · intro reaches
      refine Machine.completes_once sound hd (reaches.pending pending) ?_
      rw [run]
      exact reached d reaches
    · intro unreached
      refine Machine.not_completes sound hd ?_
      rw [run]
      exact congrArg Cell.isRealized (kept d unreached)
  · exact Option.some.inj ((seen c .start).symm.trans hc)
  · intro d hd hne
    obtain ⟨x, ox, hx, hox, hlink⟩ := (traced d hd).2.last hne
    obtain rfl := Option.some.inj ((seen x hx).symm.trans hox)
    exact ⟨x, hx, hlink⟩
  · intro none d hd
    exact (traced d hd).2.alike none

/-- A cell that forwards to another one, which forwards back and has a revokee. -/
theorem World.complete_spreads_round : ∃ w w' out, w.Reaches 0 1 ∧ w.Reaches 0 2 ∧
    w.refusal? 0 .unowned = none ∧ Spread w 0 (.ok (.number 7)) .unowned w' out := by
  let first : Cell Subscription := Cell.listened {} ⟨0, .forward 1 none⟩
  let second : Cell Subscription := { Cell.listened {} ⟨1, .forward 0 none⟩ with revokee := some 2 }
  let w := (((World.start 8).addCell first).addCell second).addCell {}
  have hfirst : first.Sound := Cell.sound_default.listened rfl _
  have hsecond : second.Sound := (Cell.sound_default.listened rfl _).linked rfl 2
  have sound : w.Sound :=
    (((History.sound_start 8).addCell hfirst).addCell hsecond).addCell Cell.sound_default
  have others (x : ℕ) : w.cell (x + 2) = {} := by
    cases x with
    | zero => rfl
    | succ x => exact World.cell_of_size_le (Nat.le_add_left 3 x)
  have network : w.IsNetwork := by
    constructor
    · intro x s hs
      match x with
      | 0 => exact ⟨1, none, by obtain rfl := List.mem_singleton.mp hs; rfl, by decide⟩
      | 1 => exact ⟨0, none, by obtain rfl := List.mem_singleton.mp hs; rfl, by decide⟩
      | x + 2 =>
          rw [others x] at hs
          cases hs
    · intro x y hy
      match x with
      | 0 => cases hy
      | 1 =>
          cases hy
          decide
      | x + 2 =>
          rw [others x] at hy
          cases hy
  have one : w.Reaches 0 1 := .forward .start ⟨rfl, _, List.mem_singleton_self _, rfl⟩
  obtain ⟨w', out, spread⟩ :=
    World.complete_spreads (c := 0) (a := .unowned) sound network nofun (by decide) rfl (.ok (.number 7))
  exact ⟨w, w', out, one, .revoke one ⟨rfl, rfl, rfl⟩, rfl, spread⟩

end RequestGraph
