import RequestGraph.AppendList.Basic
import Mathlib.Data.List.Basic
import Mathlib.Data.Nat.Bitwise

/-!
# The shape of append-only lists

A list that was only ever pushed to has one of few shapes: nothing at all, or a chain in which every
chunk but the last is *spent* (all slots full, and one reservation too many), while the last one holds
items in its first slots and nothing behind them. A list that was frozen keeps its items whatever is
offered to it later, as long as the counters do not run over.

    l.IsOpen     →  (l.push a).2 = .accepted    ∧  (l.push a).1.toList = l.toList ++ [a]
    l.IsShut n   →  (l.push a).2 = .rejected a  ∧  (l.push a).1.toList = l.toList
-/

namespace RequestGraph

variable {α : Type}

/-! ## Chunks

The two kinds of chunks that a list has which was only pushed to: the last one, with room behind its items,
and those before it, full and with one reservation too many.
-/

namespace Chunk

/-- A chunk whose first slots hold the given items, with so many empty slots behind. -/
def holding (xs : List α) (free : Nat) : Chunk α :=
  ⟨UInt64.ofNat xs.length, xs.map .full ++ List.replicate free .empty⟩

/-- A chunk full of the given items that has turned one more away. -/
def spent (xs : List α) : Chunk α := ⟨UInt64.ofNat (xs.length + 1), xs.map .full⟩

/-- Full slots hold their items. -/
theorem filterMap_full (xs : List α) : (xs.map Slot.full).filterMap Slot.item? = xs := by
  induction xs with
  | nil => rfl
  | cons x xs ih => simp only [List.map_cons, List.filterMap_cons, Slot.item?, ih]

/-- Empty slots hold nothing. -/
theorem filterMap_empty (n : Nat) :
    (List.replicate n (Slot.empty : Slot α)).filterMap Slot.item? = [] := by
  rw [List.filterMap_eq_nil_iff]
  intro s hs
  rw [List.eq_of_mem_replicate hs]
  rfl

/-- The count is what the counter has below its highest bit. -/
theorem toNat_count (c : Chunk α) : c.count.toNat = c.reserved.toNat % 2 ^ 63 := by
  have h : (~~~frozenBit).toNat = 2 ^ 63 - 1 := by decide
  rw [count, UInt64.toNat_and, h, Nat.and_two_pow_sub_one_eq_mod]

/-- A chunk is frozen if the highest bit of its counter is set. -/
theorem isFrozen_iff (c : Chunk α) : c.isFrozen = true ↔ 2 ^ 63 ≤ c.reserved.toNat := by
  have hbit : frozenBit.toNat = 2 ^ 63 := by decide
  have hlt : c.reserved.toNat < 2 ^ 64 := c.reserved.toNat_lt
  have hand : (c.reserved &&& frozenBit).toNat = c.reserved.toNat / 2 ^ 63 % 2 * 2 ^ 63 := by
    rw [UInt64.toNat_and, hbit, Nat.and_two_pow, Nat.toNat_testBit]
  rw [isFrozen, bne_iff_ne, ne_eq, ← UInt64.toNat_inj, hand]
  have hzero : (0 : UInt64).toNat = 0 := rfl
  rw [hzero]
  constructor
  · intro h
    by_contra hge
    have : c.reserved.toNat / 2 ^ 63 = 0 := Nat.div_eq_of_lt (by omega)
    exact h (by rw [this]; rfl)
  · intro h hz
    have : c.reserved.toNat / 2 ^ 63 = 1 := by omega
    rw [this] at hz
    omega

/-- A counter that has only counted does not look frozen. -/
theorem isFrozen_eq_false_of_lt {c : Chunk α} (h : c.reserved.toNat < 2 ^ 63) :
    c.isFrozen = false := by
  rw [Bool.eq_false_iff, ne_eq, isFrozen_iff]
  omega

/-- A chunk that holds some items gives them. -/
theorem items_holding (xs : List α) (free : Nat) (h : xs.length < 2 ^ 63) :
    (holding xs free).items = xs := by
  have hr : (holding xs free).reserved.toNat = xs.length := by
    rw [holding, UInt64.toNat_ofNat']
    omega
  have hf : (holding xs free).filled = xs.length := by
    rw [filled, toNat_count, hr, Nat.mod_eq_of_lt h, capacity]
    simp [holding]
  rw [items, hf]
  have htake : (holding xs free).slots.take xs.length = xs.map .full := by
    rw [holding, List.take_append_of_le_length (by simp), List.take_of_length_le (by simp)]
  rw [htake, filterMap_full]

/-- A chunk that has overflowed gives the items that fill it. -/
theorem items_spent (xs : List α) (h : xs.length + 1 < 2 ^ 63) : (spent xs).items = xs := by
  have hr : (spent xs).reserved.toNat = xs.length + 1 := by
    rw [spent, UInt64.toNat_ofNat']
    omega
  have hf : (spent xs).filled = xs.length := by
    rw [filled, toNat_count, hr, Nat.mod_eq_of_lt h, capacity]
    simp [spent]
  rw [items, hf]
  have htake : (spent xs).slots.take xs.length = xs.map .full := by
    rw [spent, List.take_of_length_le (by simp)]
  rw [htake, filterMap_full]

/-- A chunk with a free slot takes the next item into it. -/
theorem place_holding_succ (xs : List α) (free : Nat) (a : α) (h : xs.length < 2 ^ 63) :
    (holding xs (free + 1)).place a = (holding (xs ++ [a]) free, .placed) := by
  have hr : (UInt64.ofNat xs.length).toNat = xs.length := by
    rw [UInt64.toNat_ofNat']
    omega
  have hfrozen : (holding xs (free + 1)).isFrozen = false :=
    isFrozen_eq_false_of_lt (hr.symm ▸ h)
  have hslot : (holding xs (free + 1)).slots[(holding xs (free + 1)).reserved.toNat]?
      = some .empty := by
    simp only [holding, hr]
    rw [List.getElem?_append_right (by simp)]
    simp
  have hset : (holding xs (free + 1)).slots.set (holding xs (free + 1)).reserved.toNat (.full a)
      = (xs ++ [a]).map .full ++ List.replicate free .empty := by
    simp only [holding, hr]
    rw [List.set_append_right _ _ (by simp)]
    simp [List.replicate_succ]
  rw [place, hfrozen]
  simp only [hslot, hset, Bool.false_eq_true, if_false]
  simp [holding, UInt64.ofNat_add]

/-- A chunk without a free slot counts the item it has no place for. -/
theorem place_holding_zero (xs : List α) (a : α) (h : xs.length < 2 ^ 63) :
    (holding xs 0).place a = (spent xs, .overflowed) := by
  have hr : (UInt64.ofNat xs.length).toNat = xs.length := by
    rw [UInt64.toNat_ofNat']
    omega
  have hfrozen : (holding xs 0).isFrozen = false :=
    isFrozen_eq_false_of_lt (hr.symm ▸ h)
  have hslot : (holding xs 0).slots[(holding xs 0).reserved.toNat]? = none := by
    simp [holding, hr]
  rw [place, hfrozen]
  simp only [hslot, Bool.false_eq_true, if_false]
  simp [holding, spent, UInt64.ofNat_add]

/-- A new chunk holds nothing. -/
theorem blank_eq_holding (n : Nat) : (blank n : Chunk α) = holding [] n := by
  simp [blank, holding]

end Chunk

/-! ## Lists that are open

Pushing goes along the chain until a slot is free. In these shapes it passes the full chunks, and comes to
the last one, where it finds a free slot or adds a chunk.
-/

namespace AppendList

/-- A list that was made and then only pushed to: the items of its spent chunks, those of the last
chunk, and the free slots of that. -/
inductive IsOpen : AppendList α → Prop
  | blank : IsOpen {}
  | chain (before : List (List α)) (last : List α) (free : Nat)
      (spent : ∀ xs ∈ before, xs.length ≤ maxCapacity)
      (some : 0 < last.length + free) (few : last.length + free ≤ maxCapacity) :
      IsOpen { chunks := before.map Chunk.spent ++ [Chunk.holding last free]
               tail := before.length }

/-- Chunks that are full give their items, one chunk after the other. -/
theorem flatMap_items_spent {before : List (List α)} (h : ∀ xs ∈ before, xs.length ≤ maxCapacity) :
    (before.map Chunk.spent).flatMap Chunk.items = before.flatten := by
  induction before with
  | nil => rfl
  | cons xs before ih =>
    have hxs : xs.length ≤ maxCapacity := h xs List.mem_cons_self
    have hlen : xs.length + 1 < 2 ^ 63 := by
      rw [maxCapacity] at hxs
      omega
    rw [List.map_cons, List.flatMap_cons, Chunk.items_spent xs hlen,
      ih fun ys hys => h ys (List.mem_cons_of_mem xs hys), List.flatten_cons]

/-- A chain of full chunks and a last one gives all items in order. -/
theorem toList_chain (before : List (List α)) (last : List α) (free tail : Nat)
    (spent : ∀ xs ∈ before, xs.length ≤ maxCapacity) (few : last.length ≤ maxCapacity) :
    ({ chunks := before.map Chunk.spent ++ [Chunk.holding last free], tail } : AppendList α).toList
      = before.flatten ++ last := by
  have hlen : last.length < 2 ^ 63 := by
    rw [maxCapacity] at few
    omega
  rw [toList, List.flatMap_append, flatMap_items_spent spent, List.flatMap_singleton,
    Chunk.items_holding last free hlen]

@[simp] theorem toList_blank : ({} : AppendList α).toList = [] := rfl

/-- Offering to a chain whose walk starts at its last chunk, with a free slot. -/
theorem offer_holding_succ (closed : Bool) (xs : List α) (free : Nat) (a : α)
    (h : xs.length < 2 ^ 63) :
    offer closed a [Chunk.holding xs (free + 1)] = ⟨[Chunk.holding (xs ++ [a]) free], true, 0⟩ := by
  unfold offer
  rw [Chunk.place_holding_succ xs free a h]

/-- Offering to a chain whose last chunk is full adds a chunk. -/
theorem offer_holding_zero (xs : List α) (a : α) (few : xs.length ≤ maxCapacity)
    (some : 0 < xs.length) :
    offer false a [Chunk.holding xs 0]
      = ⟨[Chunk.spent xs, Chunk.holding [a] (nextCapacity xs.length - 1)], true, 1⟩ := by
  have hlen : xs.length < 2 ^ 63 := by
    rw [maxCapacity] at few
    omega
  have hcap : (Chunk.holding xs 0).capacity = xs.length := by simp [Chunk.capacity, Chunk.holding]
  obtain ⟨n, hn⟩ : ∃ n, nextCapacity xs.length = n + 1 :=
    ⟨nextCapacity xs.length - 1, by rw [nextCapacity, maxCapacity]; omega⟩
  have hplace : (Chunk.holding [] (n + 1)).place a = (Chunk.holding [a] n, .placed) :=
    Chunk.place_holding_succ [] n a (by simp)
  unfold offer
  rw [Chunk.place_holding_zero xs a hlen]
  simp only [Bool.false_eq_true, if_false, hcap, hn, Chunk.blank_eq_holding, hplace]
  rfl

/-- An open list accepts every item and stays open. -/
theorem IsOpen.push_eq {l : AppendList α} (h : l.IsOpen) (a : α) :
    (l.push a).2 = .accepted ∧ (l.push a).1.IsOpen ∧ (l.push a).1.toList = l.toList ++ [a] := by
  cases h with
  | blank =>
    -- The first item brings the first chunk with it.
    have hwalk : offer false a [Chunk.blank firstCapacity] = ⟨[Chunk.holding [a] 7], true, 0⟩ := by
      rw [Chunk.blank_eq_holding]
      exact offer_holding_succ false [] 7 a (by simp)
    have hpush : ({} : AppendList α).push a
        = ({ chunks := [].map Chunk.spent ++ [Chunk.holding [a] 7], tail := 0 }, .accepted) := by
      simp [push, opened, hwalk]
    rw [hpush]
    refine ⟨rfl, .chain [] [a] 7 (by simp) (by simp) (by simp [maxCapacity]), ?_⟩
    rw [toList_chain [] [a] 7 0 (by simp) (by simp [maxCapacity])]
    rfl
  | chain before last free spent some few =>
    have hbefore : (before.map (Chunk.spent (α := α))).length = before.length := by simp
    cases free with
    -- The last chunk has a free slot, and the walk ends there.
    | succ free =>
      have hlen : last.length < 2 ^ 63 := by
        rw [maxCapacity] at few
        omega
      have hpush : ({ chunks := before.map Chunk.spent ++ [Chunk.holding last (free + 1)]
                      tail := before.length } : AppendList α).push a
          = ({ chunks := before.map Chunk.spent ++ [Chunk.holding (last ++ [a]) free]
               tail := before.length }, .accepted) := by
        simp [push, opened, offer_holding_succ false last free a hlen]
      rw [hpush]
      have hlast : (last ++ [a]).length = last.length + 1 := by simp
      refine ⟨rfl, .chain before (last ++ [a]) free spent (by omega) (by omega), ?_⟩
      rw [toList_chain before _ _ _ spent (by omega), toList_chain before _ _ _ spent (by omega),
        List.append_assoc]
    -- The last chunk is full: it is left with one reservation too many, and the item goes into a new one.
    | zero =>
      have hpush : ({ chunks := before.map Chunk.spent ++ [Chunk.holding last 0]
                      tail := before.length } : AppendList α).push a
          = ({ chunks := (before ++ [last]).map Chunk.spent
                 ++ [Chunk.holding [a] (nextCapacity last.length - 1)]
               tail := (before ++ [last]).length }, .accepted) := by
        simp [push, opened, offer_holding_zero last a (by omega) (by omega)]
      have hspent : ∀ xs ∈ before ++ [last], xs.length ≤ maxCapacity := by
        intro xs hxs
        rcases List.mem_append.mp hxs with hxs | hxs
        · exact spent xs hxs
        · rw [List.mem_singleton.mp hxs]
          omega
      have hnext : [a].length + (nextCapacity last.length - 1) ≤ maxCapacity := by
        rw [nextCapacity, maxCapacity, List.length_singleton]
        omega
      rw [hpush]
      have hsome : 0 < [a].length + (nextCapacity last.length - 1) := by
        rw [List.length_singleton]
        omega
      refine ⟨rfl, .chain (before ++ [last]) [a] _ hspent hsome hnext, ?_⟩
      rw [toList_chain _ _ _ _ hspent (by simp [maxCapacity]),
        toList_chain before _ _ _ spent (by omega), List.flatten_append]
      simp

end AppendList

/-! ## Lists that are frozen

To a frozen list the shape of its chain no longer matters: the top bit of each counter turns every item away.
What matters is that no counter runs over, which would clear that bit.
-/

namespace Chunk

/-- A chunk that is frozen: its counter has the top bit and has not gone beyond `n`, and no slot that
was never reserved holds an item. -/
structure IsShut (c : Chunk α) (n : Nat) : Prop where
  frozen : 2 ^ 63 ≤ c.reserved.toNat
  counted : c.reserved.toNat ≤ 2 ^ 63 + n
  bare : (c.slots.drop c.filled).filterMap Slot.item? = []

/-- Beyond the items of a chunk there are none to be read. -/
theorem items_of_bare {c : Chunk α} (h : (c.slots.drop c.filled).filterMap Slot.item? = []) :
    c.items = c.slots.filterMap Slot.item? := by
  conv_rhs => rw [← List.take_append_drop c.filled c.slots, List.filterMap_append, h]
  rw [List.append_nil, items]

/-- Slots are empty from some point on, and from any later point. -/
theorem bare_mono {slots : List (Slot α)} {m n : Nat} (hmn : m ≤ n)
    (h : (slots.drop m).filterMap Slot.item? = []) :
    (slots.drop n).filterMap Slot.item? = [] := by
  rw [List.filterMap_eq_nil_iff] at h ⊢
  intro s hs
  have hdrop : slots.drop n = (slots.drop m).drop (n - m) := by
    rw [List.drop_drop]
    congr 1
    omega
  rw [hdrop] at hs
  exact h s (List.mem_of_mem_drop hs)

/-- A frozen chunk turns away what is offered and counts it. -/
theorem IsShut.place_eq {c : Chunk α} {n : Nat} (h : c.IsShut n) (hn : n < 2 ^ 63 - 1) (a : α) :
    (c.place a).2 = .refused ∧ (c.place a).1.IsShut (n + 1) ∧ (c.place a).1.items = c.items := by
  have hcounted := h.counted
  have hfrozen := h.frozen
  have hplace : c.place a = ({ c with reserved := c.reserved + 1 }, .refused) := by
    simp [place, (isFrozen_iff c).mpr h.frozen]
  have hsucc : (c.reserved + 1).toNat = c.reserved.toNat + 1 := by
    rw [UInt64.toNat_add]
    simp only [UInt64.toNat_one]
    omega
  have hfilled : c.filled ≤ ({ c with reserved := c.reserved + 1 } : Chunk α).filled := by
    simp only [filled, toNat_count, capacity, hsucc]
    omega
  have hbare := bare_mono hfilled h.bare
  rw [hplace]
  refine ⟨rfl, ⟨?_, ?_, hbare⟩, ?_⟩
  · simp only [hsucc]
    omega
  · simp only [hsucc]
    omega
  · rw [items_of_bare hbare, items_of_bare h.bare]

/-- Shutting a slot keeps its item. -/
theorem item?_shutSlot (s : Slot α) : (shutSlot s).item? = s.item? := by
  cases s <;> rfl

/-- Freezing adds the highest bit to the counter. -/
theorem toNat_reserved_freeze (c : Chunk α) (h : c.reserved.toNat < 2 ^ 63) :
    c.freeze.reserved.toNat = 2 ^ 63 + c.reserved.toNat := by
  have hbit : frozenBit.toNat = 2 ^ 63 := by decide
  have hor := Nat.two_pow_add_eq_or_of_lt h 1
  rw [Nat.mul_one] at hor
  rw [freeze, UInt64.toNat_or, hbit, Nat.or_comm, hor]

theorem length_map_shutSlot (c : Chunk α) :
    ((c.slots.take c.filled).map shutSlot).length = c.filled := by
  have hle : c.filled ≤ c.slots.length := Nat.min_le_right _ _
  rw [List.length_map, List.length_take]
  omega

/-- Freezing a chunk keeps its items. -/
theorem freeze_eq (c : Chunk α) (h : c.reserved.toNat < 2 ^ 63) :
    c.freeze.filled = c.filled ∧ c.freeze.items = c.items := by
  have hlen : c.freeze.slots.length = c.slots.length := by
    simp only [freeze, List.length_append, List.length_map, List.length_take, List.length_drop]
    omega
  have hfilled : c.freeze.filled = c.filled := by
    simp only [filled, toNat_count, toNat_reserved_freeze c h, capacity, hlen]
    omega
  refine ⟨hfilled, ?_⟩
  have htake : c.freeze.slots.take c.filled = (c.slots.take c.filled).map shutSlot := by
    have hl := c.length_map_shutSlot
    rw [freeze, List.take_append_of_le_length (by omega), List.take_of_length_le (by omega)]
  rw [items, items, hfilled, htake, List.filterMap_map]
  congr 1
  funext s
  exact item?_shutSlot s

/-- Freezing shuts a chunk whose counter has not run over. -/
theorem isShut_freeze {c : Chunk α} {n : Nat} (h : c.reserved.toNat ≤ n) (hn : n < 2 ^ 63)
    (bare : (c.slots.drop c.filled).filterMap Slot.item? = []) : c.freeze.IsShut n := by
  have hr := toNat_reserved_freeze c (by omega)
  obtain ⟨hfilled, hitems⟩ := freeze_eq c (by omega)
  refine ⟨by omega, by omega, ?_⟩
  have hdrop : c.freeze.slots.drop c.filled = c.slots.drop c.filled := by
    have hl := c.length_map_shutSlot
    rw [freeze, List.drop_append_of_le_length (by omega), List.drop_of_length_le (by omega),
      List.nil_append]
  rw [hfilled, hdrop, bare]

end Chunk

namespace AppendList

/-- A frozen list none of whose chunks has counted more than `n` reservations. -/
structure IsShut (l : AppendList α) (n : Nat) : Prop where
  frozen : l.frozen = true
  settled : l.settled = true
  closed : l.chunks = [] → l.closed = true
  chunks : ∀ c ∈ l.chunks, c.IsShut n

/-- A bound on the counters may be enlarged. -/
theorem IsShut.mono {l : AppendList α} {m n : Nat} (h : l.IsShut m) (hmn : m ≤ n) : l.IsShut n :=
  ⟨h.frozen, h.settled, h.closed, fun c hc =>
    ⟨(h.chunks c hc).frozen, by have := (h.chunks c hc).counted; omega, (h.chunks c hc).bare⟩⟩

/-- A chain of frozen chunks turns an item away at its first chunk. -/
theorem offer_shut {cs : List (Chunk α)} {n : Nat} (h : ∀ c ∈ cs, c.IsShut n)
    (hn : n < 2 ^ 63 - 1) (closed : Bool) (a : α) :
    (offer closed a cs).accepted = false ∧ (offer closed a cs).hops = 0
      ∧ (∀ c ∈ (offer closed a cs).chunks, c.IsShut (n + 1))
      ∧ (offer closed a cs).chunks.flatMap Chunk.items = cs.flatMap Chunk.items := by
  cases cs with
  | nil => exact ⟨rfl, rfl, by simp [offer], rfl⟩
  | cons c rest =>
    obtain ⟨hrefused, hshut, hitems⟩ := (h c List.mem_cons_self).place_eq hn a
    have hoffer : offer closed a (c :: rest) = ⟨(c.place a).1 :: rest, false, 0⟩ := by
      have hpair : c.place a = ((c.place a).1, .refused) := by rw [← hrefused]
      unfold offer
      rw [hpair]
    rw [hoffer]
    refine ⟨rfl, rfl, ?_, by simp only [List.flatMap_cons, hitems]⟩
    intro c' hc'
    rcases List.mem_cons.mp hc' with rfl | hc'
    · exact hshut
    · have hc := h c' (List.mem_cons_of_mem c hc')
      exact ⟨hc.frozen, by have := hc.counted; omega, hc.bare⟩

/-- A frozen list gets no first chunk any more. -/
theorem IsShut.opened_eq {l : AppendList α} {n : Nat} (h : l.IsShut n) : l.opened = l.chunks := by
  rw [opened]
  by_cases hnil : l.chunks = []
  · simp [h.closed hnil]
  · simp [hnil]

/-- A shut list turns away every item and stays as it is. -/
theorem IsShut.push_eq {l : AppendList α} {n : Nat} (h : l.IsShut n) (hn : n < 2 ^ 63 - 1) (a : α) :
    (l.push a).2 = .rejected a ∧ (l.push a).1.IsShut (n + 1) ∧ (l.push a).1.toList = l.toList := by
  have hopened := h.opened_eq
  have hdrop : ∀ c ∈ l.chunks.drop l.tail, c.IsShut n := fun c hc =>
    h.chunks c (List.mem_of_mem_drop hc)
  obtain ⟨haccepted, hhops, hchunks, hitems⟩ := offer_shut hdrop hn l.closed a
  refine ⟨by simp [push, hopened, haccepted], ⟨h.frozen, h.settled, ?_, ?_⟩, ?_⟩
  -- The walk never shortens the chain, so a chain that is empty afterwards was empty before.
  · intro hnil
    simp only [push, hopened, List.append_eq_nil_iff] at hnil
    refine h.closed ?_
    by_contra hne
    have htail : l.tail = 0 := by simpa [hne] using hnil.1
    have hlen : ((offer l.closed a (l.chunks.drop l.tail)).chunks).length
        = (l.chunks.drop l.tail).length := by
      cases hcs : l.chunks.drop l.tail with
      | nil => rfl
      | cons c rest =>
        have hc := (hdrop c (by rw [hcs]; exact List.mem_cons_self)).place_eq hn a
        have hpair : c.place a = ((c.place a).1, .refused) := by rw [← hc.1]
        unfold offer
        rw [hpair]
        rfl
    rw [hnil.2, htail, List.drop_zero, List.length_nil] at hlen
    exact hne (List.length_eq_zero_iff.mp hlen.symm)
  · intro c hc
    simp only [push, hopened, List.mem_append] at hc
    rcases hc with hc | hc
    · have hc := h.chunks c (List.mem_of_mem_take hc)
      exact ⟨hc.frozen, by have := hc.counted; omega, hc.bare⟩
    · exact hchunks c hc
  · simp only [toList, push, hopened, List.flatMap_append, hitems]
    rw [← List.flatMap_append, List.take_append_drop]

/-! ## Freezing

The walk of a freeze sets the top bit of each counter, and stops where a chunk had room. The full chunks
have none, so it comes to the last one.
-/

/-- Freezing a chain in which every chunk but the last is used up freezes all of it. -/
theorem freezeChain_concat (before : List (Chunk α)) (last : Chunk α)
    (h : ∀ c ∈ before, c.capacity ≤ c.count.toNat) :
    (freezeChain (before ++ [last])).1 = (before ++ [last]).map Chunk.freeze := by
  induction before with
  | nil =>
    by_cases hlast : last.count.toNat < last.capacity
    · simp [freezeChain, hlast]
    · simp [freezeChain, hlast]
  | cons c before ih =>
    have hc : ¬ c.count.toNat < c.capacity := Nat.not_lt.mpr (h c List.mem_cons_self)
    have ih := ih fun c' hc' => h c' (List.mem_cons_of_mem c hc')
    simp only [List.cons_append, freezeChain, hc, if_false, ih, List.map_cons]

/-- As many slots are reserved as there are items. -/
theorem toNat_reserved_holding {xs : List α} {free : Nat} (h : xs.length < 2 ^ 63) :
    (Chunk.holding xs free).reserved.toNat = xs.length := by
  rw [Chunk.holding, UInt64.toNat_ofNat']
  omega

/-- A full chunk has reserved one slot too many, for the item that made it overflow. -/
theorem toNat_reserved_spent {xs : List α} (h : xs.length + 1 < 2 ^ 63) :
    (Chunk.spent xs).reserved.toNat = xs.length + 1 := by
  rw [Chunk.spent, UInt64.toNat_ofNat']
  omega

/-- An open list is not frozen. -/
theorem IsOpen.not_frozen {l : AppendList α} (h : l.IsOpen) : l.frozen = false := by
  cases h <;> rfl

/-- Freezing an open list keeps its items. -/
theorem IsOpen.freeze_eq {l : AppendList α} (h : l.IsOpen) :
    ∃ l', l.freeze = .ok l' ∧ l'.IsShut (maxCapacity + 1) ∧ l'.toList = l.toList := by
  cases h with
  | blank =>
    exact ⟨{ closed := true, frozen := true, settled := true }, rfl,
      ⟨rfl, rfl, fun _ => rfl, by simp⟩, rfl⟩
  | chain before last free spent some few =>
    rw [maxCapacity] at few
    have hlast : (Chunk.holding last free).reserved.toNat = last.length :=
      toNat_reserved_holding (by omega)
    -- Full chunks count one reservation more than they have slots, so the walk goes past them.
    have hspent : ∀ c ∈ before.map Chunk.spent, c.reserved.toNat ≤ maxCapacity + 1
        ∧ c.capacity ≤ c.count.toNat ∧ (c.slots.drop c.filled).filterMap Slot.item? = [] := by
      intro c hc
      obtain ⟨xs, hxs, rfl⟩ := List.mem_map.mp hc
      have hlen := spent xs hxs
      rw [maxCapacity] at hlen
      have hr : (Chunk.spent xs).reserved.toNat = xs.length + 1 := toNat_reserved_spent (by omega)
      have hcap : (Chunk.spent xs).capacity = xs.length := by simp [Chunk.capacity, Chunk.spent]
      refine ⟨by rw [hr, maxCapacity]; omega, ?_, ?_⟩
      · rw [Chunk.toNat_count, hr, hcap, Nat.mod_eq_of_lt (by omega)]
        omega
      · have hf : (Chunk.spent xs).slots.length ≤ (Chunk.spent xs).filled := by
          rw [Chunk.filled, Chunk.toNat_count, hr, Nat.mod_eq_of_lt (by omega)]
          simp only [Chunk.capacity, Chunk.spent, List.length_map]
          omega
        rw [List.drop_of_length_le hf, List.filterMap_nil]
    -- In the last chunk nothing lies beyond what was reserved.
    have hbare : ((Chunk.holding last free).slots.drop (Chunk.holding last free).filled).filterMap
        Slot.item? = [] := by
      have hf : (Chunk.holding last free).filled = last.length := by
        rw [Chunk.filled, Chunk.toNat_count, hlast, Nat.mod_eq_of_lt (by omega)]
        simp [Chunk.capacity, Chunk.holding]
      rw [hf, Chunk.holding, List.drop_append_of_le_length (by simp), List.drop_of_length_le (by simp),
        List.nil_append, Chunk.filterMap_empty]
    -- The walk freezes every chunk and stops at the last one, which is not full.
    have hchain := freezeChain_concat (before.map Chunk.spent) (Chunk.holding last free)
      fun c hc => (hspent c hc).2.1
    refine ⟨_, rfl, ⟨rfl, rfl, ?_, ?_⟩, ?_⟩
    · intro hnil
      simp only [hchain] at hnil
      simp at hnil
    · intro c hc
      simp only [hchain, List.map_append, List.mem_append] at hc
      rcases hc with hc | hc
      · obtain ⟨c', hc', rfl⟩ := List.mem_map.mp hc
        exact Chunk.isShut_freeze (hspent c' hc').1 (by rw [maxCapacity]; omega) (hspent c' hc').2.2
      · obtain rfl : c = (Chunk.holding last free).freeze := by simpa using hc
        exact Chunk.isShut_freeze (by rw [hlast, maxCapacity]; omega) (by rw [maxCapacity]; omega)
          hbare
    · simp only [toList, hchain, List.flatMap_map]
      refine List.flatMap_congr fun c hc => ?_
      refine (Chunk.freeze_eq c ?_).2
      rcases List.mem_append.mp hc with hc | hc
      · have := (hspent c hc).1
        rw [maxCapacity] at this
        omega
      · rw [List.mem_singleton.mp hc, hlast]
        omega

end AppendList

end RequestGraph
