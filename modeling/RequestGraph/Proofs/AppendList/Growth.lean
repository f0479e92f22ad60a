import RequestGraph.Proofs.AppendList.Shape

/-!
# How a chain of chunks grows

Two things hold of a chain whatever has become of the list. Offering an item raises each counter by one at
most, so that no counter is ahead of the number of items that were ever offered; and the chunks have 8, 16,
32, 64, 128 slots and then always 256, since a chunk is only ever added behind the last.
-/

namespace RequestGraph

variable {α : Type}

namespace Chunk

/-- Every reservation is counted, whatever comes of it. -/
theorem place_reserved (c : Chunk α) (a : α) : (c.place a).1.reserved = c.reserved + 1 := by
  unfold place
  split
  · rfl
  · split <;> rfl

/-- Filling a slot allocates nothing. -/
theorem place_capacity (c : Chunk α) (a : α) : (c.place a).1.capacity = c.capacity := by
  unfold place
  split
  · rfl
  · split <;> simp [capacity]

/-- Freezing allocates nothing. -/
theorem freeze_capacity (c : Chunk α) : c.freeze.capacity = c.capacity := by
  simp only [freeze, capacity, List.length_append, List.length_map]
  rw [← List.length_append, List.take_append_drop]

end Chunk

namespace AppendList

/-- An item is offered to the first chunk; what is behind that stays, or is a chunk that was added, or
has been offered the item in turn. -/
theorem offer_cons (closed : Bool) (a : α) (c : Chunk α) (rest : List (Chunk α)) :
    ∃ behind, (offer closed a (c :: rest)).chunks = (c.place a).1 :: behind
      ∧ (behind = rest ∨ behind = [((Chunk.blank (nextCapacity c.capacity)).place a).1]
        ∨ behind = (offer closed a rest).chunks) := by
  rcases hpair : c.place a with ⟨c', placement⟩
  cases placement with
  | placed => exact ⟨rest, by simp [offer, hpair], .inl rfl⟩
  | refused => exact ⟨rest, by simp [offer, hpair], .inl rfl⟩
  | overflowed =>
    cases rest with
    | nil =>
      cases closed with
      | true => exact ⟨[], by simp [offer, hpair], .inl rfl⟩
      | false => exact ⟨_, by simp [offer, hpair], .inr (.inl rfl)⟩
    | cons next more => exact ⟨_, by simp [offer, hpair], .inr (.inr rfl)⟩

/-! ### Counters

The counters are words, and are right only as long as they do not wrap. The bound is the number of offers,
whether or not they were accepted.
-/

/-- No counter of an open chain is ahead of `n`. -/
def CountsTo (n : Nat) (cs : List (Chunk α)) : Prop := ∀ c ∈ cs, c.reserved.toNat ≤ n

/-- An offer adds at most one to the counter of a chunk. -/
theorem toNat_place_le {c : Chunk α} {n : Nat} (h : c.reserved.toNat ≤ n) (a : α) :
    (c.place a).1.reserved.toNat ≤ n + 1 := by
  have hle := Nat.mod_le (c.reserved.toNat + (1 : UInt64).toNat) (2 ^ 64)
  rw [Chunk.place_reserved, UInt64.toNat_add]
  simp only [UInt64.toNat_one] at hle ⊢
  omega

theorem CountsTo.mono {m n : Nat} {cs : List (Chunk α)} (h : CountsTo m cs) (hmn : m ≤ n) :
    CountsTo n cs := fun c hc => (h c hc).trans hmn

/-- An offer adds at most one to the counter of any chunk. -/
theorem CountsTo.offer {n : Nat} {cs : List (Chunk α)} (h : CountsTo n cs) (closed : Bool) (a : α) :
    CountsTo (n + 1) (offer closed a cs).chunks := by
  induction cs with
  | nil => simp [CountsTo, AppendList.offer]
  | cons c rest ih =>
    have hplaced := toNat_place_le (h c List.mem_cons_self) a
    have htail : CountsTo n rest := fun d hd => h d (List.mem_cons_of_mem c hd)
    obtain ⟨behind, hchunks, rfl | rfl | rfl⟩ := offer_cons closed a c rest <;> rw [hchunks]
    · exact List.forall_mem_cons.mpr ⟨hplaced, htail.mono (Nat.le_succ n)⟩
    · exact List.forall_mem_cons.mpr
        ⟨hplaced, List.forall_mem_singleton.mpr (toNat_place_le (Nat.zero_le n) a)⟩
    · exact List.forall_mem_cons.mpr ⟨hplaced, ih htail⟩

/-- One more offer raises no counter by more than one. -/
theorem CountsTo.push {n : Nat} {l : AppendList α} (h : CountsTo n l.chunks) (a : α) :
    CountsTo (n + 1) (l.push a).1.chunks := by
  have hopened : CountsTo n l.opened := by
    unfold opened
    split
    · exact List.forall_mem_singleton.mpr (Nat.zero_le n)
    · exact h
  have hbefore : CountsTo (n + 1) (l.opened.take l.tail) := fun c hc =>
    (hopened c (List.mem_of_mem_take hc)).trans (Nat.le_succ n)
  have hbehind : CountsTo n (l.opened.drop l.tail) := fun c hc =>
    hopened c (List.mem_of_mem_drop hc)
  exact List.forall_mem_append.mpr ⟨hbefore, hbehind.offer l.closed a⟩

/-- A freeze sets the top bit of some counters and leaves the rest of each alone. -/
theorem CountsTo.freezeChain {n : Nat} {cs : List (Chunk α)} (h : CountsTo n cs)
    (hn : n < 2 ^ 63) : CountsTo (2 ^ 63 + n) (freezeChain cs).1 := by
  induction cs with
  | nil => simp [CountsTo, AppendList.freezeChain]
  | cons c rest ih =>
    have hc := h c List.mem_cons_self
    have htail : CountsTo n rest := fun d hd => h d (List.mem_cons_of_mem c hd)
    have hfrozen : c.freeze.reserved.toNat ≤ 2 ^ 63 + n := by
      rw [Chunk.toNat_reserved_freeze c (by omega)]
      omega
    unfold AppendList.freezeChain
    split
    · exact List.forall_mem_cons.mpr ⟨hfrozen, htail.mono (Nat.le_add_left _ _)⟩
    · exact List.forall_mem_cons.mpr ⟨hfrozen, ih htail⟩

/-- Freezing an open list whose counters have not gone beyond `n`. -/
theorem IsOpen.freeze_counted {l : AppendList α} {n : Nat} (h : l.IsOpen) (hcount : CountsTo n l.chunks)
    (hn : n < 2 ^ 63) : ∃ l', l.freeze = .ok l' ∧ l'.IsShut n ∧ l'.toList = l.toList := by
  obtain ⟨l', hl', hshut, hitems⟩ := h.freeze_eq
  have hchunks : l'.chunks = (AppendList.freezeChain l.chunks).1 := by
    simp only [freeze, h.not_frozen, Bool.false_eq_true, if_false, Except.ok.injEq] at hl'
    rw [← hl']
  refine ⟨l', hl', ⟨hshut.frozen, hshut.settled, hshut.closed, fun c hc => ?_⟩, hitems⟩
  have hc' := hcount.freezeChain hn c (hchunks ▸ hc)
  exact ⟨(hshut.chunks c hc).frozen, hc', (hshut.chunks c hc).bare⟩

/-! ### Capacities

The sizes double up to a limit. A chain is well sized from a position on, so that the induction can go
through its tail.
-/

/-- The number of slots of the chunk at a position. -/
def sizeAt (i : Nat) : Nat := min (firstCapacity * 2 ^ i) maxCapacity

/-- Each chunk is followed by one of the next size. -/
theorem nextCapacity_sizeAt (i : Nat) : nextCapacity (sizeAt i) = sizeAt (i + 1) := by
  simp only [nextCapacity, sizeAt, firstCapacity, maxCapacity, Nat.pow_succ]
  omega

/-- A piece of a chain that starts at a position has chunks of the sizes that belong there. -/
def Sized (start : Nat) (cs : List (Chunk α)) : Prop :=
  cs.map Chunk.capacity = (List.range' start cs.length).map sizeAt

@[simp] theorem sized_nil (start : Nat) : Sized start ([] : List (Chunk α)) := rfl

@[simp] theorem sized_cons {start : Nat} {c : Chunk α} {cs : List (Chunk α)} :
    Sized start (c :: cs) ↔ c.capacity = sizeAt start ∧ Sized (start + 1) cs := by
  simp [Sized, List.range'_succ]

/-- The sizes of a chain go on where those of its first part end. -/
theorem sized_append {start : Nat} {cs ds : List (Chunk α)} :
    Sized start (cs ++ ds) ↔ Sized start cs ∧ Sized (start + cs.length) ds := by
  induction cs generalizing start with
  | nil => simp
  | cons c cs ih =>
    have hlen : start + 1 + cs.length = start + (c :: cs).length := by
      rw [List.length_cons]
      omega
    rw [List.cons_append, sized_cons, sized_cons, ih, hlen, and_assoc]

/-- Offering appends chunks of the right sizes, if any. -/
theorem Sized.offer {start : Nat} {cs : List (Chunk α)} (h : Sized start cs) (closed : Bool) (a : α) :
    Sized start (offer closed a cs).chunks := by
  induction cs generalizing start with
  | nil => exact sized_nil start
  | cons c rest ih =>
    obtain ⟨hc, hrest⟩ := sized_cons.mp h
    have hplaced : (c.place a).1.capacity = sizeAt start := (c.place_capacity a).trans hc
    obtain ⟨behind, hchunks, rfl | rfl | rfl⟩ := offer_cons closed a c rest <;> rw [hchunks]
    · exact sized_cons.mpr ⟨hplaced, hrest⟩
    · have hadded : ((Chunk.blank (nextCapacity c.capacity)).place a).1.capacity
          = sizeAt (start + 1) := by
        rw [Chunk.place_capacity, ← nextCapacity_sizeAt, ← hc]
        simp [Chunk.capacity, Chunk.blank]
      exact sized_cons.mpr ⟨hplaced, sized_cons.mpr ⟨hadded, sized_nil _⟩⟩
    · exact sized_cons.mpr ⟨hplaced, ih hrest⟩

/-- Pushing keeps the sizes of chunks. -/
theorem Sized.push {l : AppendList α} (h : Sized 0 l.chunks) (a : α) :
    Sized 0 (l.push a).1.chunks := by
  have hopened : Sized 0 l.opened := by
    unfold opened
    split
    · simp [Chunk.capacity, Chunk.blank, sizeAt, firstCapacity, maxCapacity]
    · exact h
  rw [← List.take_append_drop l.tail l.opened, sized_append] at hopened
  exact sized_append.mpr ⟨hopened.1, hopened.2.offer l.closed a⟩

/-- Freezing a chain keeps the sizes of chunks. -/
theorem Sized.freezeChain {start : Nat} {cs : List (Chunk α)} (h : Sized start cs) :
    Sized start (freezeChain cs).1 := by
  induction cs generalizing start with
  | nil => exact sized_nil start
  | cons c rest ih =>
    obtain ⟨hc, hrest⟩ := sized_cons.mp h
    have hfrozen := (c.freeze_capacity).trans hc
    unfold AppendList.freezeChain
    split
    · exact sized_cons.mpr ⟨hfrozen, hrest⟩
    · exact sized_cons.mpr ⟨hfrozen, ih hrest⟩

/-- Freezing a list keeps the sizes of chunks. -/
theorem Sized.freeze {l l' : AppendList α} (h : Sized 0 l.chunks) (hl' : l.freeze = .ok l') :
    Sized 0 l'.chunks := by
  unfold AppendList.freeze at hl'
  split at hl'
  · cases hl'
  · cases hl'
    exact h.freezeChain

end AppendList

end RequestGraph
