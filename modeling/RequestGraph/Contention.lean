import RequestGraph.AppendList.Cursor
import RequestGraph.Session

/-!
# Contention

Several threads use one thing, and it is counted how many of them win, and whether all see the same. The
counts are those of one interleaving, in which the threads come one after another.
-/

namespace RequestGraph.Contention

/-- What a contention counts. -/
inductive Answer where
  /-- The items accepted by a list, its length once frozen, and whether the items of each thread are in
  the order in which it offered them. -/
  | list (accepted length : Nat) (ordered : Bool)
  /-- Whether a frozen list holds what was accepted, and whether later items are turned away. -/
  | freeze (agree late : Bool)
  /-- How many values were installed in a table, and how many are there. -/
  | table (wins present : Nat)
  /-- Whether all threads got the same indices, the number of keys, and the indices in order. -/
  | interner (agree : Bool) (size : Nat) (indices : List Nat)
  /-- How many completions won, how many listeners were told, and whether those of one cell were told
  the same. -/
  | complete (winners heard : Nat) (same : Bool)
  /-- How many claims were granted, and how many claimed cells were completed. -/
  | claim (claims done : Nat)
  /-- How many fan-ins settled in either way. -/
  | join (succeeded failed : Nat)
  /-- Whether all threads got the same cells, how often a node started, and what the request produced,
  in the order of keys. -/
  | fetch (same : Bool) (runs : Nat) (entries : List (String × Int64))
deriving Repr

/-! ### Lists, tables, keys -/

/-- The items of every thread: its number, and the number of the item. -/
def items (threads n : Nat) : List (Nat × Nat) :=
  (List.range threads).flatMap fun t => (List.range n).map fun i => (t, i)

/-- Offers items one after another; those that were accepted. -/
def offerAll (l : AppendList (Nat × Nat)) (offered : List (Nat × Nat)) :
    AppendList (Nat × Nat) × List (Nat × Nat) :=
  let (l', accepted) := offered.foldl (fun (l, accepted) a =>
    match l.push a with
    | (l', .accepted) => (l', a :: accepted)
    | (l', .rejected _) => (l', accepted)) (l, [])
  (l', accepted.reverse)

/-- The items of a list after it was frozen. -/
def frozenItems (l : AppendList (Nat × Nat)) : List (Nat × Nat) :=
  match l.freeze with
  | .ok frozen => frozen.rest {}
  | .error _ => []

/-- Every thread offers its items to one list, which is frozen in the end. -/
def list (threads n : Nat) : Answer :=
  let (l, accepted) := offerAll {} (items threads n)
  let final := frozenItems l
  let ordered := (List.range threads).all fun t =>
    (final.filter (·.1 == t)).map Prod.snd == List.range n
  .list accepted.length final.length ordered

/-- Every thread but the first offers its items, and the first freezes the list when half of them are
through; then one more item is offered. -/
def listFreeze (threads n : Nat) : Answer :=
  let offered := items (threads - 1) n
  let (before, early) := offerAll {} (offered.take (offered.length / 2))
  match before.freeze with
  | .error _ => .freeze false false
  | .ok frozen =>
    let (after, late) := offerAll frozen (offered.drop (offered.length / 2))
    let agree := (after.read?.getD []) == early ++ late
    .freeze agree ((after.push (threads, n)).2 == .rejected (threads, n))

/-- Every thread installs a value at the same indices of one table. -/
def table (threads n : Nat) : Answer :=
  let indices := (List.range n).map fun i => UInt64.ofNat (37 * i)
  let attempts := (List.range threads).flatMap fun t => indices.map fun i => (t, i)
  let (table, wins) := attempts.foldl (fun ((table, wins) : SlotTable Nat × Nat) (t, i) =>
    let installed := table.getOrInsert i t
    (installed.table, if installed.won then wins + 1 else wins)) ({}, 0)
  .table wins (indices.countP fun i => (table.lookup i).isSome)

/-- Every thread interns the same keys. -/
def interner (threads n : Nat) : Answer :=
  let start : Interner Nat := .withCapacity UInt64.ofNat Interner.defaultCapacity
  let internAll (t : Interner Nat) : Interner Nat × List Nat :=
    let (t', found) := (List.range n).foldl (fun (t, found) key =>
      let (t', index) := t.intern key
      (t', (index.map UInt32.toNat).toList ++ found)) (t, [])
    (t', found.reverse)
  let (t, rounds) := (List.range threads).foldl (fun (t, rounds) _ =>
    let (t', found) := internAll t
    (t', found :: rounds)) (start, [])
  let first := rounds.headD []
  .interner (rounds.all (· == first)) t.size (first.mergeSort fun a b => decide (a ≤ b))

/-! ### Cells -/

/-- The events of some turns. -/
def events (turns : List Turn) : List Event := turns.flatMap Turn.events

/-- The sum of some counts. -/
def total (counts : List Nat) : Nat := counts.foldr (· + ·) 0

/-- How many of some turns were answered with yes. -/
def granted (turns : List Turn) : Nat :=
  turns.countP fun t => t.ending matches .replied (.flag true)

/-- The number that a listener was told. -/
def heard? : Event → Option (Option Int64)
  | .heard _ (.number n) => some (some n)
  | .heard _ _ => some none
  | _ => none

/-- Every thread listens to a cell and tries to complete it. -/
def completeRound (threads : Nat) : Script :=
  .cell (.create "cell") :: (List.range threads).flatMap fun t =>
    [.cell (.listen "cell" (Text.natural t) [] []),
      .cell (.complete "cell" (.ok (.constant (Int64.ofNat t))))]

/-- Rounds of completing one cell. -/
def complete (threads n : Nat) : Answer :=
  let rounds := (List.range n).map fun _ => (Session.run none (completeRound threads)).turns
  let told := rounds.map fun r => (events r).filterMap heard?
  .complete (total (rounds.map granted)) (total (told.map List.length))
    (told.all fun ns => ns.all (· == ns.headD none))

/-- Every thread claims a cell, and the claim that was granted completes it. -/
def claimRound (threads : Nat) : Script :=
  .cell (.create "cell") ::
    ((List.range threads).map fun _ => .cell (.acquire "cell" "claim")) ++
    [.claim (.complete (some "claim") (.ok (.constant 0)))]

/-- Rounds of claiming one cell. -/
def claim (threads n : Nat) : Answer :=
  let rounds := (List.range n).map fun _ => (Session.run none (claimRound threads)).turns
  .claim (total (rounds.map fun turns => granted turns.dropLast))
    (total (rounds.map fun turns => granted turns.getLast?.toList))

/-- Several cells are settled, one of them perhaps with a failure, while a fan-in is registered. -/
def joinRound (threads : Nat) (failing : Option Nat) : Script :=
  let cells := (List.range threads).map Text.natural
  let settled : Script := (List.range threads).map fun t =>
    .cell (.complete (Text.natural t)
      (if failing = some t then .error (.given (.ofMessage "failed"))
        else .ok (.constant (Int64.ofNat t))))
  cells.map (fun c => .cell (.create c)) ++ settled.take (threads / 2) ++
    [.cell (.await (cells.map .cell) "all" [] [])] ++ settled.drop (threads / 2)

/-- Rounds of awaiting several cells. -/
def join (threads n : Nat) (failing : Option Nat) : Answer :=
  let joined := (List.range n).flatMap fun _ =>
    events (Session.run none (joinRound threads failing)).turns
  .join (joined.countP fun e => e matches .joined _ none)
    (joined.countP fun e => e matches .joined _ (some _))

/-! ### Requests -/

/-- The key of a number. -/
def chainKey (i : Nat) : String := "k" ++ Text.natural i

/-- The node that adds one to the key before, or is one for the first. -/
def chainNode (i : Nat) : String × Script :=
  match i with
  | 0 => (chainKey 0, [.claim (.complete none (.ok (.constant 1)))])
  | i + 1 => (chainKey (i + 1),
      [.context (.fetch none (chainKey i) "before"), .cell (.map "before" (.add 1) "sum"),
        .claim (.chain none (.cell "sum"))])

/-- Every thread fetches all keys of a chain on a worker pool, compares the cells with those of the
first thread, and in the end all keys are asked for together. -/
def fetchScript (threads n : Nat) : Script :=
  let keys := (List.range n).map chainKey
  let fetchAll (t : Nat) : Script := keys.flatMap fun key =>
    [.context (.fetch (some "request") key (key ++ "/" ++ Text.natural t)),
      .cell (.same (key ++ "/0") (key ++ "/" ++ Text.natural t))]
  [.pool (.create "workers" .worker none),
    .context (.createProvider "chain" ((List.range n).map chainNode)),
    .context (.create "request" [] "chain" (some "workers"))] ++
  (List.range threads).flatMap fetchAll ++
  [.view (.yank (some "request") keys "all"), .view (.view "all")]

/-- The entries of the last view that was shown. -/
def shownEntries (turns : List Turn) : List (String × Int64) :=
  match turns.getLast? with
  | some ⟨.replied (.viewed (.view v) _), _⟩ => v.entries
  | _ => []

/-- Fetching one chain of keys from many threads. -/
def fetch (threads n : Nat) : Answer :=
  let turns := (Session.run none (fetchScript threads n)).turns
  let entries := (shownEntries turns).mergeSort fun a b => decide (a.1 < b.1) || a.1 == b.1
  .fetch (granted turns == threads * n)
    ((events turns).countP fun e => e matches .node _) entries

end RequestGraph.Contention
