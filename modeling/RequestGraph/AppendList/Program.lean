import RequestGraph.AppendList.Cursor
import RequestGraph.Text.Record

/-!
# Programs on an append-only list

A list in use: offering items, freezing, reading with cursors that are copied half way, and giving the
list up. A program is a list of requests; each has one answer.
-/

namespace RequestGraph.AppendList

/-- One use of a list. -/
inductive Request (α : Type) where
  /-- Offers one item. -/
  | push (item : α)
  /-- Offers some items one after another. -/
  | pushAll (items : List α)
  /-- Freezes the list and reads it. -/
  | freeze
  /-- Reads all items. -/
  | read
  /-- Takes some items off a cursor, copies it, and reads both to the end. -/
  | split (n : Nat)
  | length
  | isEmpty
  | isFrozen
  /-- Shows the list. -/
  | render
  /-- Gives the list up, moving its first items out; a new list takes its place. -/
  | drain (n : Nat)
deriving Repr, DecidableEq

/-- What a request is answered with. -/
inductive Answer (α : Type) where
  /-- The list is not frozen, so it cannot be read. -/
  | unreadable
  /-- What became of an offered item. -/
  | pushed (p : Pushed α)
  /-- How many items there are, or how many were accepted. -/
  | count (n : Nat)
  | flag (b : Bool)
  | items (items : List α)
  | refused (e : FreezeError)
  /-- The items taken off a cursor, the rest as its copy and as the cursor itself give it, and what the
  cursor answers once it is exhausted. -/
  | split (taken twin rest : List α) (after : Option α)
  | text (s : String)
deriving Repr, DecidableEq

variable {α : Type}

/-- Offers items one after another; the number of those accepted. -/
def pushAll (l : AppendList α) : List α → AppendList α × Nat
  | [] => (l, 0)
  | a :: rest =>
    match l.push a with
    | (l', .accepted) =>
      let (l'', n) := pushAll l' rest
      (l'', n + 1)
    | (l', .rejected _) => pushAll l' rest

/-- The text that shows a list: its items once it is frozen. -/
def render (shown : α → String) (l : AppendList α) : String :=
  match l.read? with
  | none => Text.openRecord "AppendList" [("frozen", Text.flag false)]
  | some items => Text.sequence (items.map shown)

/-- Takes `n` items off a cursor at the front, and reads it and a copy of it to the end. -/
def splitAt (l : AppendList α) (n : Nat) (front : Cursor) : Answer α :=
  let (taken, cursor) := front.take l n
  let (twin, _) := cursor.take l l.slotCount
  let (rest, exhausted) := cursor.take l l.slotCount
  .split taken twin rest (exhausted.next l).1

/-- Answers one request. -/
def answer (shown : α → String) (l : AppendList α) : Request α → AppendList α × Answer α
  | .push item =>
    let (l', p) := l.push item
    (l', .pushed p)
  | .pushAll items =>
    let (l', n) := l.pushAll items
    (l', .count n)
  | .freeze =>
    match l.freeze with
    | .ok l' => (l', .items (l'.rest {}))
    | .error e => (l, .refused e)
  | .read => (l, (l.read?.map Answer.items).getD .unreadable)
  | .split n => (l, (l.iter?.map (l.splitAt n)).getD .unreadable)
  | .length => (l, (l.length?.map Answer.count).getD .unreadable)
  | .isEmpty => (l, (l.isEmpty?.map Answer.flag).getD .unreadable)
  | .isFrozen => (l, .flag l.frozen)
  | .render => (l, .text (l.render shown))
  | .drain n => ({}, .items (l.drain {} n))

/-- Answers the requests one after another. -/
def runProgram (shown : α → String) (l : AppendList α) : List (Request α) → List (Answer α)
  | [] => []
  | r :: rest =>
    let (l', a) := l.answer shown r
    a :: runProgram shown l' rest

/-- The numbers from the first up to, but not including, the second. -/
def range (first last : Int) : List Int64 :=
  (List.range (last - first).toNat).map fun i : Nat => Int64.ofInt (first + Int.ofNat i)

end RequestGraph.AppendList
