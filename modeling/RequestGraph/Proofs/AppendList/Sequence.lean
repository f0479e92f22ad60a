import RequestGraph.AppendList.Program
import RequestGraph.Proofs.AppendList.Cursors
import RequestGraph.Proofs.AppendList.Growth

/-!
# The list as a plain sequence

A client sees no chunks: whatever is done with a list, by any number of cursors that are read, copied and
left standing while more is offered, it answers as a plain sequence with a flag would. Here that sequence
is written down as a second, much shorter interpretation of the same requests, in which a cursor is simply
the items it has not given yet.

    (run (Client.use shown) {} uses).2 = (run (Client.expect shown) {} uses).2

One use of the list is one use of the sequence (`Mirrors.use`), as long as the counters do not run over.
-/

namespace RequestGraph.AppendList

variable {α : Type}

/-! ### The sequence

What clients may rely on, without any chunks. It answers at once whether an item is accepted and what is
read.
-/

/-- The items that were accepted, in order, and whether more are. -/
structure Sequence (α : Type) where
  items : List α := []
  frozen : Bool := false
deriving Repr, DecidableEq

/-- How many items a request offers. -/
def Request.offers : Request α → Nat
  | .push _ => 1
  | .pushAll items => items.length
  | _ => 0

/-- Whether a request gives the list up. -/
def Request.givesUp : Request α → Bool
  | .drain _ => true
  | _ => false

namespace Sequence

/-- An item is appended until the sequence is frozen, and handed back then. -/
def push (s : Sequence α) (a : α) : Sequence α × Pushed α :=
  if s.frozen then (s, .rejected a) else ({ s with items := s.items ++ [a] }, .accepted)

/-- What is read off a sequence once it is frozen. -/
def read (s : Sequence α) (answer : Answer α) : Sequence α × Answer α :=
  (s, if s.frozen then answer else .unreadable)

/-- The answer that a request should have. -/
def answer (shown : α → String) (s : Sequence α) : Request α → Sequence α × Answer α
  | .push item => ((s.push item).1, .pushed (s.push item).2)
  | .pushAll items =>
    if s.frozen then (s, .count 0) else ({ s with items := s.items ++ items }, .count items.length)
  | .freeze =>
    if s.frozen then (s, .refused .alreadyFrozen) else ({ s with frozen := true }, .items s.items)
  | .read => s.read (.items s.items)
  | .split n => s.read (.split (s.items.take n) (s.items.drop n) (s.items.drop n) none)
  | .length => s.read (.count s.items.length)
  | .isEmpty => s.read (.flag s.items.isEmpty)
  | .isFrozen => (s, .flag s.frozen)
  | .render =>
    (s, .text (if s.frozen then Text.sequence (s.items.map shown)
      else Text.openRecord "AppendList" [("frozen", Text.flag false)]))
  | .drain n => ({}, .items (s.items.take n))

end Sequence

/-! ### What a list stands for

The invariant between the two: the items are the same, and so is the flag. An open list has one of the
shapes of `IsOpen`, and a frozen one is shut with counters that are bounded by the offers.
-/

/-- A list that at most `n` items were offered to stands for a sequence. -/
structure Represents (n : Nat) (l : AppendList α) (s : Sequence α) : Prop where
  items : l.toList = s.items
  sized : Sized 0 l.chunks
  shape : s.frozen = false ∧ l.IsOpen ∧ CountsTo n l.chunks ∨ s.frozen = true ∧ l.IsShut n

theorem represents_empty (n : Nat) : Represents n ({} : AppendList α) {} :=
  ⟨rfl, rfl, .inl ⟨rfl, .blank, by simp [CountsTo]⟩⟩

namespace Represents

variable {n : Nat} {l : AppendList α} {s : Sequence α}

theorem frozen (h : Represents n l s) : l.frozen = s.frozen := by
  rcases h.shape with ⟨hs, hopen, -⟩ | ⟨hs, hshut⟩
  · rw [hs, hopen.not_frozen]
  · rw [hs, hshut.frozen]

theorem iter? (h : Represents n l s) : l.iter? = if s.frozen then some {} else none := by
  rcases h.shape with ⟨hs, hopen, -⟩ | ⟨hs, hshut⟩
  · simp [AppendList.iter?, hs, hopen.not_frozen]
  · simp [AppendList.iter?, hs, hshut.frozen, hshut.settled]

theorem read? (h : Represents n l s) : l.read? = if s.frozen then some s.items else none := by
  rw [AppendList.read?, h.iter?]
  split <;> simp [rest_front, h.items]

theorem mono {m : Nat} (h : Represents m l s) (hmn : m ≤ n) : Represents n l s :=
  ⟨h.items, h.sized, h.shape.imp (fun ⟨hs, hopen, hcount⟩ => ⟨hs, hopen, hcount.mono hmn⟩)
    fun ⟨hs, hshut⟩ => ⟨hs, hshut.mono hmn⟩⟩

theorem push (h : Represents n l s) (hn : n + 1 < 2 ^ 63) (a : α) :
    Represents (n + 1) (l.push a).1 (s.push a).1 ∧ (l.push a).2 = (s.push a).2 := by
  rcases h.shape with ⟨hs, hopen, hcount⟩ | ⟨hs, hshut⟩
  · obtain ⟨haccepted, hopen', hitems⟩ := hopen.push_eq a
    simp only [Sequence.push, hs, Bool.false_eq_true, if_false]
    refine ⟨⟨?_, h.sized.push a, .inl ⟨rfl, hopen', hcount.push a⟩⟩, haccepted⟩
    rw [hitems, h.items]
  · obtain ⟨hrejected, hshut', hitems⟩ := hshut.push_eq (by omega) a
    simp only [Sequence.push, hs, if_true]
    exact ⟨⟨hitems.trans h.items, h.sized.push a, .inr ⟨hs, hshut'⟩⟩, hrejected⟩

/-- Items offered one after another are all accepted, or none is. -/
theorem pushAll (as : List α) (h : Represents n l s) (hn : n + as.length < 2 ^ 63) :
    Represents (n + as.length) (l.pushAll as).1
        (if s.frozen then s else { s with items := s.items ++ as })
      ∧ (l.pushAll as).2 = if s.frozen then 0 else as.length := by
  induction as generalizing n l s with
  | nil => cases s with | mk items frozen => cases frozen <;> simpa [AppendList.pushAll] using h
  | cons a as ih =>
    rw [List.length_cons] at hn ⊢
    obtain ⟨hpushed, hanswer⟩ := h.push (by omega) a
    obtain ⟨hall, hcount⟩ := ih hpushed (by omega)
    have hbound : n + 1 + as.length = n + (as.length + 1) := by omega
    rw [hbound] at hall
    rcases hl : l.push a with ⟨l', p⟩
    rw [hl] at hall hcount hanswer
    cases hs : s.frozen with
    | false =>
      obtain rfl : p = .accepted := by simpa [Sequence.push, hs] using hanswer
      simp only [Sequence.push, hs, Bool.false_eq_true, if_false, List.append_assoc,
        List.singleton_append] at hall hcount
      simpa [AppendList.pushAll, hl, hcount] using hall
    | true =>
      obtain rfl : p = .rejected a := by simpa [Sequence.push, hs] using hanswer
      simp only [Sequence.push, hs, if_true] at hall hcount
      simpa [AppendList.pushAll, hl, hcount] using hall

/-- The first freeze hands out everything that was accepted, and no later one anything. -/
theorem freeze (h : Represents n l s) (hn : n < 2 ^ 63) (shown : α → String) :
    Represents n (l.answer shown .freeze).1 (s.answer shown .freeze).1
      ∧ (l.answer shown .freeze).2 = (s.answer shown .freeze).2 := by
  rcases h.shape with ⟨hs, hopen, hcount⟩ | ⟨hs, hshut⟩
  · obtain ⟨l', hfreeze, hshut, hitems⟩ := hopen.freeze_counted hcount hn
    have hitems := hitems.trans h.items
    simp only [AppendList.answer, Sequence.answer, hfreeze, hs, Bool.false_eq_true, if_false,
      rest_front, hitems]
    exact ⟨⟨hitems, h.sized.freeze hfreeze, .inr ⟨rfl, hshut⟩⟩, trivial⟩
  · have hrefused : l.freeze = .error .alreadyFrozen := by simp [AppendList.freeze, hshut.frozen]
    simp only [AppendList.answer, Sequence.answer, hrefused, hs, if_true]
    exact ⟨h, trivial⟩

/-- A cursor at the front, read as far as one likes and copied there, gives what is left twice. -/
theorem splitAt (h : Represents n l s) (k : Nat) :
    l.splitAt k {} = .split (s.items.take k) (s.items.drop k) (s.items.drop k) none := by
  have hall (cursor : Cursor) : (cursor.take l l.slotCount).1 = cursor.ahead l := by
    rw [Cursor.take_fst, List.take_of_length_le (cursor.length_ahead_le l)]
  have hend (cursor : Cursor) : (cursor.take l l.slotCount).2.ahead l = [] := by
    rw [Cursor.ahead_take, List.drop_of_length_le (cursor.length_ahead_le l)]
  simp [AppendList.splitAt, hall, hend, Cursor.take_fst, h.items]

/-- Every request is answered as the sequence answers it. -/
theorem answer (h : Represents n l s) (shown : α → String) (r : Request α)
    (hn : n + r.offers < 2 ^ 63) :
    Represents (n + r.offers) (l.answer shown r).1 (s.answer shown r).1
      ∧ (l.answer shown r).2 = (s.answer shown r).2 := by
  cases r with
  | push a =>
    obtain ⟨hpushed, hanswer⟩ := h.push hn a
    exact ⟨hpushed, congrArg Answer.pushed hanswer⟩
  | pushAll as =>
    obtain ⟨hpushed, hcount⟩ := h.pushAll as hn
    cases hs : s.frozen <;>
      simpa [AppendList.answer, Sequence.answer, hs, hcount, Request.offers] using hpushed
  | freeze => exact h.freeze hn shown
  | read =>
    refine ⟨h, ?_⟩
    cases hs : s.frozen <;> simp [AppendList.answer, Sequence.answer, Sequence.read, h.read?, hs]
  | split k =>
    refine ⟨h, ?_⟩
    cases hs : s.frozen <;>
      simp [AppendList.answer, Sequence.answer, Sequence.read, h.iter?, h.splitAt, hs]
  | length =>
    refine ⟨h, ?_⟩
    cases hs : s.frozen <;>
      simp [AppendList.answer, Sequence.answer, Sequence.read, length?, h.read?, hs]
  | isEmpty =>
    have hempty : s.items.head?.isNone = s.items.isEmpty := by cases s.items <;> rfl
    refine ⟨h, ?_⟩
    cases hs : s.frozen <;>
      simp [AppendList.answer, Sequence.answer, Sequence.read, isEmpty?, h.iter?, h.items, hs,
        hempty]
  | isFrozen => exact ⟨h, congrArg Answer.flag h.frozen⟩
  | render =>
    refine ⟨h, ?_⟩
    cases hs : s.frozen <;> simp [AppendList.answer, Sequence.answer, render, h.read?, hs]
  -- Draining gives the list up, and what it leaves is a new one.
  | drain k =>
    refine ⟨represents_empty _, ?_⟩
    simp [AppendList.answer, Sequence.answer, drain_eq, h.items]

end Represents

/-! ### What a request leaves ahead of a cursor

Cursors are only handed out once a list is frozen. So a request that comes later finds a frozen list, and
moves no cursor.
-/

theorem IsShut.ahead_pushAll (as : List α) {l : AppendList α} {n : Nat} (h : l.IsShut n)
    (hn : n + as.length < 2 ^ 63) (cursor : Cursor) :
    cursor.ahead (l.pushAll as).1 = cursor.ahead l := by
  induction as generalizing n l with
  | nil => rfl
  | cons a as ih =>
    rw [List.length_cons] at hn
    obtain ⟨hrejected, hshut, -⟩ := h.push_eq (by omega) a
    have hpair : l.push a = ((l.push a).1, .rejected a) := by rw [← hrejected]
    rw [AppendList.pushAll, hpair, ih hshut (by omega), h.ahead_push (by omega)]

/-- No request but the one that gives the list up moves a cursor of a frozen list. -/
theorem IsShut.ahead_answer {l : AppendList α} {n : Nat} (h : l.IsShut n) (shown : α → String)
    (r : Request α) (hn : n + r.offers < 2 ^ 63) (hr : r.givesUp = false) (cursor : Cursor) :
    cursor.ahead (l.answer shown r).1 = cursor.ahead l := by
  cases r with
  | push a => exact h.ahead_push (by simp only [Request.offers] at hn; omega) a cursor
  | pushAll as => exact h.ahead_pushAll as hn cursor
  | freeze => simp [AppendList.answer, AppendList.freeze, h.frozen]
  | drain k => cases hr
  | read | split | length | isEmpty | isFrozen | render => rfl

/-! ### Clients

A client has a list and any number of cursors. On the side of the sequence a cursor is the items that it has
not given yet, so reading is taking the head.
-/

/-- One use of a list and of the cursors into it. -/
inductive Use (α : Type) where
  | ask (request : Request α)
  /-- Has a cursor made, at the front. The one that a freeze hands out is such a cursor. -/
  | reader
  /-- Moves a cursor on by one item. -/
  | next (i : Nat)
  /-- Copies a cursor where it stands. -/
  | copy (i : Nat)
deriving Repr, DecidableEq

/-- What a use comes back with. -/
inductive Reply (α : Type) where
  | answer (a : Answer α)
  /-- Whether there is a new cursor. -/
  | cursor (made : Bool)
  | item (a : Option α)
deriving Repr, DecidableEq

/-- How many items a use offers. -/
@[simp] def Use.offers : Use α → Nat
  | .ask r => r.offers
  | _ => 0

/-- A list of some kind and the cursors into it. -/
structure Client (L R : Type) where
  list : L
  readers : List R := []

namespace Client

/-- Uses a list in chunks. Who gives it up has no cursor into it any more. -/
def use (shown : α → String) (c : Client (AppendList α) Cursor) :
    Use α → Client (AppendList α) Cursor × Reply α
  | .ask r =>
    let (list, a) := c.list.answer shown r
    (⟨list, if r.givesUp then [] else c.readers⟩, .answer a)
  | .reader =>
    match c.list.iter? with
    | none => (c, .cursor false)
    | some cursor => ({ c with readers := c.readers ++ [cursor] }, .cursor true)
  | .next i =>
    match c.readers[i]? with
    | none => (c, .item none)
    | some cursor =>
      let (a, cursor') := cursor.next c.list
      ({ c with readers := c.readers.set i cursor' }, .item a)
  | .copy i =>
    match c.readers[i]? with
    | none => (c, .cursor false)
    | some cursor => ({ c with readers := c.readers ++ [cursor] }, .cursor true)

/-- Uses a plain sequence, in which a cursor is the items it has not given yet. -/
def expect (shown : α → String) (c : Client (Sequence α) (List α)) :
    Use α → Client (Sequence α) (List α) × Reply α
  | .ask r =>
    let (list, a) := c.list.answer shown r
    (⟨list, if r.givesUp then [] else c.readers⟩, .answer a)
  | .reader =>
    if c.list.frozen then ({ c with readers := c.readers ++ [c.list.items] }, .cursor true)
    else (c, .cursor false)
  | .next i =>
    match c.readers[i]? with
    | none => (c, .item none)
    | some ahead => ({ c with readers := c.readers.set i ahead.tail }, .item ahead.head?)
  | .copy i =>
    match c.readers[i]? with
    | none => (c, .cursor false)
    | some ahead => ({ c with readers := c.readers ++ [ahead] }, .cursor true)

end Client

/-- Goes on through a list of uses, collecting the replies. -/
def run {S U R : Type} (use : S → U → S × R) (c : S) : List U → S × List R
  | [] => (c, [])
  | u :: rest =>
    let (c', r) := use c u
    let (last, replies) := run use c' rest
    (last, r :: replies)

/-- The two clients are at the same point. -/
structure Mirrors (n : Nat) (c : Client (AppendList α) Cursor) (d : Client (Sequence α) (List α)) :
    Prop where
  list : Represents n c.list d.list
  readers : d.readers = c.readers.map (·.ahead c.list)
  unread : d.list.frozen = false → c.readers = []

namespace Mirrors

variable {n : Nat} {c : Client (AppendList α) Cursor} {d : Client (Sequence α) (List α)}

theorem readers_answer (h : Mirrors n c d) (shown : α → String) (r : Request α)
    (hn : n + r.offers < 2 ^ 63) (hr : r.givesUp = false) :
    c.readers.map (·.ahead (c.list.answer shown r).1) = c.readers.map (·.ahead c.list) := by
  rcases h.list.shape with ⟨hs, -⟩ | ⟨-, hshut⟩
  · simp [h.unread hs]
  · exact List.map_congr_left fun cursor _ => hshut.ahead_answer shown r hn hr cursor

theorem frozen_answer (shown : α → String) (s : Sequence α) (r : Request α) (hr : r.givesUp = false)
    (h : (s.answer shown r).1.frozen = false) : s.frozen = false := by
  cases hs : s.frozen with
  | false => rfl
  | true => cases r <;> simp_all [Sequence.answer, Sequence.push, Sequence.read, Request.givesUp]

theorem getElem?_readers (h : Mirrors n c d) (i : Nat) :
    d.readers[i]? = c.readers[i]?.map (·.ahead c.list) := by
  rw [h.readers, List.getElem?_map]

/-- A new cursor stands where the sequence says it does. -/
theorem enter (h : Mirrors n c d) (hfrozen : d.list.frozen = true) (cursor : Cursor) :
    Mirrors n { c with readers := c.readers ++ [cursor] }
      { d with readers := d.readers ++ [cursor.ahead c.list] } :=
  ⟨h.list, by simp [h.readers], fun hs => by simp [hfrozen] at hs⟩

/-- Where there is a cursor, the list is frozen. -/
theorem frozen_of_reader (h : Mirrors n c d) {i : Nat} {cursor : Cursor}
    (hi : c.readers[i]? = some cursor) : d.list.frozen = true := by
  by_contra hne
  simp [h.unread (by simpa using hne)] at hi

/-- One use of the list is one use of the sequence. -/
theorem use (h : Mirrors n c d) (shown : α → String) (u : Use α) (hn : n + u.offers < 2 ^ 63) :
    Mirrors (n + u.offers) (c.use shown u).1 (d.expect shown u).1
      ∧ (c.use shown u).2 = (d.expect shown u).2 := by
  cases u with
  | ask r =>
    obtain ⟨hlist, hanswer⟩ := h.list.answer shown r hn
    refine ⟨⟨hlist, ?_, ?_⟩, congrArg Reply.answer hanswer⟩
    · cases hr : r.givesUp with
      | true => simp [Client.use, Client.expect, hr]
      | false => simpa [Client.use, Client.expect, hr, h.readers] using
          (h.readers_answer shown r hn hr).symm
    -- A request that leaves the list open has not frozen it before either, so there were no readers.
    · intro hs
      cases hr : r.givesUp with
      | true => simp [Client.use, hr]
      | false => simpa [Client.use, hr] using h.unread (frozen_answer shown d.list r hr hs)
  | reader =>
    cases hs : d.list.frozen with
    | false => simpa [Client.use, Client.expect, h.list.iter?, hs] using h
    | true =>
      have hentered := h.enter hs {}
      rw [Cursor.ahead_front, h.list.items] at hentered
      simpa [Client.use, Client.expect, h.list.iter?, hs] using hentered
  -- A reader moves, the list does not. That there is a reader means that the list is frozen.
  | next i =>
    cases hi : c.readers[i]? with
    | none => simpa [Client.use, Client.expect, h.getElem?_readers, hi] using h
    | some cursor =>
      refine ⟨⟨?_, ?_, fun hs => ?_⟩, ?_⟩
      · simpa [Client.use, Client.expect, h.getElem?_readers, hi] using h.list
      · simp [Client.use, Client.expect, hi, h.readers, List.map_set]
      · have hfrozen := h.frozen_of_reader hi
        simp [Client.expect, h.getElem?_readers, hi, hfrozen] at hs
      · simp [Client.use, Client.expect, h.getElem?_readers, hi]
  | copy i =>
    cases hi : c.readers[i]? with
    | none => simpa [Client.use, Client.expect, h.getElem?_readers, hi] using h
    | some cursor =>
      simpa [Client.use, Client.expect, h.getElem?_readers, hi] using
        h.enter (h.frozen_of_reader hi) cursor

/-- Any number of uses, one after another. -/
theorem run (uses : List (Use α)) (h : Mirrors n c d) (shown : α → String)
    (hn : n + (uses.map Use.offers).sum < 2 ^ 63) :
    Mirrors (n + (uses.map Use.offers).sum) (run (Client.use shown) c uses).1
        (run (Client.expect shown) d uses).1
      ∧ (run (Client.use shown) c uses).2 = (run (Client.expect shown) d uses).2 := by
  induction uses generalizing n c d with
  | nil => exact ⟨h, rfl⟩
  | cons u rest ih =>
    rw [List.map_cons, List.sum_cons, ← Nat.add_assoc] at hn ⊢
    obtain ⟨hstep, hreply⟩ := h.use shown u (by omega)
    obtain ⟨hlast, hreplies⟩ := ih hstep hn
    exact ⟨hlast, by simp only [AppendList.run, hreply, hreplies]⟩

end Mirrors

/-! ### The whole client -/

/-- The chunks do not show: as long as fewer than `2 ^ 63` items are offered, every use of a list and of
the cursors into it comes back with what a plain sequence would give. The chunks behind it have 8, 16, 32,
64 and 128 slots, and 256 from then on. -/
theorem answers_as_sequence (shown : α → String) (uses : List (Use α))
    (few : (uses.map Use.offers).sum < 2 ^ 63) :
    (run (Client.use shown) ⟨{}, []⟩ uses).2 = (run (Client.expect shown) ⟨{}, []⟩ uses).2
      ∧ ∀ chunks, chunks = (run (Client.use shown) ⟨{}, []⟩ uses).1.list.chunks →
        chunks.map Chunk.capacity
          = (List.range chunks.length).map fun i => min (8 * 2 ^ i) 256 := by
  have hstart : Mirrors 0 (⟨{}, []⟩ : Client (AppendList α) Cursor) ⟨{}, []⟩ :=
    ⟨represents_empty 0, rfl, fun _ => rfl⟩
  obtain ⟨hlast, hreplies⟩ := hstart.run uses shown (by rwa [Nat.zero_add])
  refine ⟨hreplies, ?_⟩
  rintro _ rfl
  have hsized := hlast.list.sized
  rwa [Sized, ← List.range_eq_range'] at hsized

/-- A full first chunk: nine items, a freeze, one item turned away, and a cursor that is copied. -/
theorem answers_as_sequence_nine :
    (run (Client.use fun n : Nat => toString n) ⟨{}, []⟩
        [.ask (.pushAll [1, 2, 3, 4, 5, 6, 7, 8, 9]), .ask .freeze, .reader, .next 0,
          .ask (.push 10), .copy 0, .next 1, .ask .length, .ask (.drain 9)]).2
      = (run (Client.expect fun n : Nat => toString n) ⟨{}, []⟩
        [.ask (.pushAll [1, 2, 3, 4, 5, 6, 7, 8, 9]), .ask .freeze, .reader, .next 0,
          .ask (.push 10), .copy 0, .next 1, .ask .length, .ask (.drain 9)]).2 :=
  (answers_as_sequence _ _ (by decide)).1

/-- Programs, which have no cursors of their own, are answered as the sequence answers them. -/
theorem runProgram_eq (shown : α → String) (requests : List (Request α)) {n : Nat} {l : AppendList α}
    {s : Sequence α} (h : Represents n l s)
    (few : n + (requests.map Request.offers).sum < 2 ^ 63) :
    l.runProgram shown requests = (run (Sequence.answer shown) s requests).2 := by
  induction requests generalizing n l s with
  | nil => rfl
  | cons r rest ih =>
    rw [List.map_cons, List.sum_cons, ← Nat.add_assoc] at few
    obtain ⟨hstep, hanswer⟩ := h.answer shown r (by omega)
    simp only [runProgram, run, hanswer, ih hstep few]

end RequestGraph.AppendList
