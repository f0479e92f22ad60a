import RequestGraph.Proofs.SlotTable.Segments
import RequestGraph.SlotTable.Program

/-!
# Makers that use the table they fill

A call looks whether its slot is empty, allocates the way to it, runs its maker, and only then fills the slot.
In between the maker may call the same table, to any depth, for other slots or for the very same one, and any
of these calls may break off. A run is therefore looked at as the list of all calls in the order in which they
begin, each with the table that it finds, and of the answers in the order in which the calls come back:

    lookup at the end    =  lookup at the beginning, or what the answers report as installed
    segments at the end  =  segments at the beginning, or those of the slots that calls found empty
-/

namespace RequestGraph.SlotTable

variable {α : Type}

/-! ## Calls and answers

The definitions follow the nesting of a program. They list its calls and its answers, say which segments are
opened, and what table is left in the end.
-/

/-- A call in the course of a run: the table that it finds, and what it is to do. -/
structure Visit (α : Type) where
  table : SlotTable α
  step : Step α

/-- What a call leaves behind. -/
def Visit.outcome (c : Visit α) : Outcome α (Answer α) := c.step.run c.table

/-- The answer of a call, if it does not break off. -/
def Visit.answer? (c : Visit α) : Option (Answer α) := c.outcome.result.toOption

/-- Whether the slot of an index can be filled: there is such a slot, and it is empty. -/
def vacant (t : SlotTable α) (index : UInt64) : Bool :=
  (Location.of index).addressable && (t.lookup index).isNone

mutual

/-- A call and all calls inside, in the order in which they begin. -/
def Step.visits (t : SlotTable α) : Step α → List (Visit α)
  | .render => [⟨t, .render⟩]
  | .get index => [⟨t, .get index⟩]
  | .put index nested made =>
    ⟨t, .put index nested made⟩ ::
      if t.vacant index then visitsNested (t.allocate index) nested else []

/-- The calls of a maker, which end when one breaks off. -/
def visitsNested (t : SlotTable α) : List (Step α) → List (Visit α)
  | [] => []
  | step :: rest =>
    step.visits t ++
      match (step.run t).result with
      | .error _ => []
      | .ok _ => visitsNested (step.run t).table rest

end

/-- The calls of a program. -/
def programVisits (t : SlotTable α) : List (Step α) → List (Visit α)
  | [] => []
  | step :: rest => step.visits t ++ programVisits (step.run t).table rest

/-- The table that a program leaves behind. -/
def programTable (t : SlotTable α) : List (Step α) → SlotTable α
  | [] => t
  | step :: rest => programTable (step.run t).table rest

/-- The answers of a call and of the calls inside, in the order in which they come back. -/
def Outcome.answers (o : Outcome α (Answer α)) : List (Answer α) :=
  o.nested ++ o.result.toOption.toList

/-- The answers that a run of a program shows for one of its steps. -/
def Entry.answers (e : Entry α) : List (Answer α) := e.nested ++ e.result.toOption.toList

/-- All answers of a program. -/
def programAnswers (t : SlotTable α) (program : List (Step α)) : List (Answer α) :=
  (runProgram t program).flatMap Entry.answers

/-- An answer on an index gives the value that is in the slot, and does not report it as installed. -/
def Answer.Repeats (index : UInt64) (value : α) : Answer α → Prop
  | .found i x => i = index → x = some value
  | .put i v installed _ => i = index → v = value ∧ installed = false
  | .text _ => True

/-- The segment to which a call allocates the way. -/
def Visit.opens (c : Visit α) : List ℕ :=
  match c.step with
  | .put index _ _ => if c.table.vacant index then [(Location.of index).segment.toNat] else []
  | _ => []

/-- The different segments to which some calls allocate the way. -/
def opened (calls : List (Visit α)) : Finset ℕ := (calls.flatMap Visit.opens).toFinset

/-- What a call does that finds its slot empty: its maker runs, and the value fills the slot unless the maker
has done so itself. -/
structure Visit.RunsMaker (c : Visit α) (index : UInt64) (nested : List (Step α)) (made : Made α) :
    Prop where
  /-- The calls of the maker are made. -/
  calls : c.step.visits c.table = c :: visitsNested (c.table.allocate index) nested
  answers : c.outcome.nested = (runNested (c.table.allocate index) nested).nested
  /-- It breaks off with the maker, whether one of its calls or the maker itself is the cause. -/
  broken : ∀ message, (runNested (c.table.allocate index) nested).result = .error message →
    c.outcome.result = .error message
  panics : (runNested (c.table.allocate index) nested).result = .ok () →
    ∀ message, made = .panic message → c.outcome.result = .error message
  /-- A maker that filled the slot has been first. -/
  preceded : (runNested (c.table.allocate index) nested).result = .ok () → ∀ v, made = .value v →
    ∀ w m, .put index w true m ∈ c.outcome.nested → c.outcome.result = .ok (.put index w false true)
  installs : (runNested (c.table.allocate index) nested).result = .ok () → ∀ v, made = .value v →
    (∀ w m, .put index w true m ∉ c.outcome.nested) → c.outcome.result = .ok (.put index v true true)

/-- What holds of a program on a new table, however its calls are nested. -/
structure FillsOnce (program : List (Step α)) : Prop where
  /-- The answers are those of the calls that do not break off. -/
  answered : (programAnswers {} program).Perm
    ((programVisits {} program).filterMap Visit.answer?)
  /-- Once a value is installed, whoever comes back later answers it, and none is installed again. -/
  once : (programAnswers {} program).Pairwise fun a b =>
    ∀ index v made, a = .put index v true made → b.Repeats index v
  /-- A read answers what the slot holds. -/
  gets : ∀ c ∈ programVisits {} program, ∀ index, c.step = .get index →
    index.toNat < 2 ^ 34 - 256 → c.outcome = ⟨c.table, [], .ok (.found index (c.table.lookup index))⟩
  /-- A call that finds its slot filled answers what it holds, and does not run its maker. -/
  full : ∀ c ∈ programVisits {} program, ∀ index nested made v, c.step = .put index nested made →
    c.table.lookup index = some v → c.outcome = ⟨c.table, [], .ok (.put index v false false)⟩
  /-- A call that finds it empty runs it. -/
  makes : ∀ c ∈ programVisits {} program, ∀ index nested made, c.step = .put index nested made →
    index.toNat < 2 ^ 34 - 256 → c.table.lookup index = none → c.RunsMaker index nested made
  /-- A panic unwinds through all the calls around it. -/
  unwinds : ∀ c ∈ programVisits {} program, ∀ d ∈ c.step.visits c.table, ∀ message,
    d.outcome.result = .error message → c.outcome.result = .error message
  /-- What a call adds to the table, whether it breaks off or not, is what it and the calls inside report
  as installed; a call that breaks off reports nothing itself. -/
  leaves : ∀ c ∈ programVisits {} program, ∀ index v, c.outcome.table.lookup index = some v ↔
    c.table.lookup index = some v ∨ ∃ made, .put index v true made ∈ c.outcome.answers
  /-- At any time there are the segments of the slots that calls have found empty, and at the end, too. -/
  segments : ∀ before c after, programVisits {} program = before ++ c :: after →
    c.table.segmentCount = (opened before).card
  shown : (programTable {} program).render =
    Text.openRecord "SparseTable" [("segments", Text.natural (opened (programVisits {} program)).card)]
  /-- A call for an index without a slot panics and changes nothing. -/
  beyond : ∀ c ∈ programVisits {} program, ∀ index,
    (c.step = .get index ∨ ∃ nested made, c.step = .put index nested made) →
      2 ^ 34 - 256 ≤ index.toNat → c.outcome = ⟨c.table, [], .error (outOfBounds index)⟩

/-! ## How the steps run

A step looks up, or finds its slot full, or goes on with its maker. The equations say what each of them
leaves behind.
-/

section Running

variable {t : SlotTable α} {i : UInt64} {nested : List (Step α)} {made : Made α}

/-- A slot is vacant if it has an address and nothing is in it. -/
theorem vacant_iff : t.vacant i = true ↔
    (Location.of i).addressable = true ∧ t.lookup i = none := by
  rw [vacant, Bool.and_eq_true, Option.isNone_iff_eq_none]

/-- Looking up answers what is in the slot. -/
theorem run_get (hi : (Location.of i).addressable = true) :
    (Step.get i).run t = ⟨t, [], .ok (.found i (t.lookup i))⟩ := by
  rw [Step.run, if_pos hi]

/-- A call for a full slot answers its value, and the maker is left alone. -/
theorem run_full (hi : (Location.of i).addressable = true) {v : α} (full : t.lookup i = some v) :
    (Step.put i nested made).run t = ⟨t, [], .ok (.put i v false false)⟩ := by
  rw [Step.run, if_pos hi]
  simp only [full]

/-- Beyond the last segment there are no slots. -/
theorem lookup_beyond (h : t.Sound) (hi : (Location.of i).addressable = false) :
    t.lookup i = none := by
  have hlength : t.segments.length ≤ (Location.of i).segment.toNat :=
    h.segments ▸ Nat.le_of_not_lt (of_decide_eq_false hi)
  simp only [lookup, leaf?, segment?, List.getElem?_eq_none hlength]
  rfl

/-- A look-up without an address panics. -/
theorem run_get_beyond (hi : (Location.of i).addressable = false) :
    (Step.get i).run t = ⟨t, [], .error (outOfBounds i)⟩ := by
  rw [Step.run, hi, if_neg Bool.false_ne_true]

/-- A call without an address panics before its maker runs. -/
theorem run_put_beyond (hi : (Location.of i).addressable = false) :
    (Step.put i nested made).run t = ⟨t, [], .error (outOfBounds i)⟩ := by
  rw [Step.run, hi, if_neg Bool.false_ne_true]

variable (vacant : t.vacant i = true)

include vacant

/-- A call that finds its slot empty runs the calls of its maker first, and breaks off with them. -/
theorem run_broken {message : String}
    (broken : (runNested (t.allocate i) nested).result = .error message) :
    (Step.put i nested made).run t = ⟨(runNested (t.allocate i) nested).table,
      (runNested (t.allocate i) nested).nested, .error message⟩ := by
  obtain ⟨hi, empty⟩ := vacant_iff.mp vacant
  rw [Step.run, if_pos hi]
  simp only [empty, broken]

variable (calm : (runNested (t.allocate i) nested).result = .ok ())

include calm

/-- A maker that panics leaves what its calls have done, and the way to the slot. -/
theorem run_panic {message : String} :
    (Step.put i nested (.panic message)).run t = ⟨(runNested (t.allocate i) nested).table,
      (runNested (t.allocate i) nested).nested, .error message⟩ := by
  obtain ⟨hi, empty⟩ := vacant_iff.mp vacant
  rw [Step.run, if_pos hi]
  simp only [empty, calm]

/-- A maker that comes back offers its value, which counts unless one of its calls has been first. -/
theorem run_value {v : α} : (Step.put i nested (.value v)).run t =
    ⟨((runNested (t.allocate i) nested).table.install i v).table,
      (runNested (t.allocate i) nested).nested,
      .ok (.put i ((runNested (t.allocate i) nested).table.install i v).value
        ((runNested (t.allocate i) nested).table.install i v).won true)⟩ := by
  obtain ⟨hi, empty⟩ := vacant_iff.mp vacant
  rw [Step.run, if_pos hi]
  simp only [empty, calm]

end Running

/-! ## Segments

Segments are allocated by calls that find their slots empty, and are never taken away. So how many there are
at a call can be told from the calls before it.
-/

/-- A table whose allocated segments are those of a set. -/
structure Has (t : SlotTable α) (S : Finset ℕ) : Prop where
  sound : t.Sound
  segment : ∀ k, (t.segment? k).isSome ↔ k ∈ S
  count : t.segmentCount = S.card

/-- A new table has no segments. -/
theorem has_blank : ({} : SlotTable α).Has ∅ where
  sound := sound_blank
  segment k := by
    have hnone : ({} : SlotTable α).segment? k = none := by
      rw [segment?, List.getElem?_replicate]
      split <;> rfl
    simp [hnone]
  count := rfl

section Allocating

variable {t : SlotTable α} {S : Finset ℕ} {i : UInt64}

/-- Writing a leaf allocates its segment if that is not there. -/
theorem segmentCount_setLeaf {l : Location} (leaf : Leaf α)
    (h : l.segment.toNat < t.segments.length) : (t.setLeaf l leaf).segmentCount =
      t.segmentCount + if (t.segment? l.segment.toNat).isSome then 0 else 1 := by
  have hsegment : t.segment? l.segment.toNat = t.segments[l.segment.toNat] := by
    rw [segment?, List.getElem?_eq_getElem h]
    rfl
  have hsplit : t.segmentCount = (t.segments.take l.segment.toNat ++
      t.segments[l.segment.toNat] :: t.segments.drop (l.segment.toNat + 1)).countP Option.isSome := by
    rw [List.getElem_cons_drop, List.take_append_drop, segmentCount]
  rw [hsplit, segmentCount, setLeaf, List.modify_eq_take_cons_drop h, hsegment]
  simp only [List.countP_append, List.countP_cons, Option.isSome_some]
  cases t.segments[l.segment.toNat].isSome with
  | true => rfl
  | false => rfl

theorem Has.setLeaf (h : t.Has S) {l : Location} {leaf : Leaf α}
    (hl : l.segment.toNat < Location.segmentCount) (hleaf : leaf.length = Location.leafLength) :
    (t.setLeaf l leaf).Has (insert l.segment.toNat S) := by
  have hlength : l.segment.toNat < t.segments.length := h.sound.segments ▸ hl
  refine ⟨h.sound.setLeaf hl hleaf, fun k => ?_, ?_⟩
  · rw [isSome_segment?_setLeaf leaf hlength, h.segment, Finset.mem_insert, or_comm]
  · rw [segmentCount_setLeaf leaf hlength, h.count]
    split
    · next there => rw [Finset.insert_eq_of_mem ((h.segment _).mp there), Nat.add_zero]
    · next absent => rw [Finset.card_insert_of_notMem fun hmem => absent ((h.segment _).mpr hmem)]

/-- The way to a slot goes through its segment. -/
theorem Has.allocate (h : t.Has S) (hi : (Location.of i).addressable = true) :
    (t.allocate i).Has (insert (Location.of i).segment.toNat S) := by
  unfold SlotTable.allocate
  cases hleaf : t.leaf? (Location.of i) with
  | none =>
    simp only [hleaf]
    exact h.setLeaf (Location.segment_lt hi) List.length_replicate
  | some leaf =>
    -- The leaf is in a segment, which therefore is allocated already.
    simp only [hleaf]
    rw [leaf?, Option.bind_eq_some_iff] at hleaf
    obtain ⟨segment, hsegment, -⟩ := hleaf
    have there : (Location.of i).segment.toNat ∈ S := by
      rw [← h.segment, hsegment]
      rfl
    rwa [Finset.insert_eq_of_mem there]

/-- The way to the slot is there when it is filled. -/
theorem Has.install (h : t.Has S) (hi : (Location.of i).addressable = true)
    (there : (Location.of i).segment.toNat ∈ S) (v : α) : (t.install i v).table.Has S := by
  unfold SlotTable.install
  split
  · exact h
  · rw [← Finset.insert_eq_of_mem there]
    refine h.setLeaf (Location.segment_lt hi) ?_
    rw [List.length_set]
    exact h.sound.length_leaf i

end Allocating

/-- Beginning with a table of some segments, every call finds these and those that the calls before it
allocate the way to. -/
def Opens (S : Finset ℕ) : List (Visit α) → Prop
  | [] => True
  | c :: calls => c.table.Has S ∧ Opens (S ∪ c.opens.toFinset) calls

@[simp] theorem opened_nil : opened ([] : List (Visit α)) = ∅ := rfl

@[simp] theorem opened_cons (c : Visit α) (calls : List (Visit α)) :
    opened (c :: calls) = c.opens.toFinset ∪ opened calls := by
  rw [opened, List.flatMap_cons, List.toFinset_append, opened]

/-- The segments that some calls open are those of the first, and those of the others. -/
@[simp] theorem opened_append (calls others : List (Visit α)) :
    opened (calls ++ others) = opened calls ∪ opened others := by
  rw [opened, List.flatMap_append, List.toFinset_append, opened, opened]

/-- A sequence of calls may be cut anywhere: the rest begins with the segments that are there by then. -/
theorem opens_append {S : Finset ℕ} {calls others : List (Visit α)} :
    Opens S (calls ++ others) ↔ Opens S calls ∧ Opens (S ∪ opened calls) others := by
  induction calls generalizing S with
  | nil => simp [Opens]
  | cons c calls ih => rw [List.cons_append, Opens, Opens, ih, opened_cons, Finset.union_assoc, and_assoc]

/-! ## Stretches of a run

A stretch is any part of a run between two tables. Stretches may be put together, and a call is a stretch
around that of its maker.
-/

/-- What holds of a stretch of a run: its calls and answers, and the tables at its beginning and end. -/
structure Stretch (t : SlotTable α) (calls : List (Visit α)) (answers : List (Answer α))
    (t' : SlotTable α) : Prop where
  sound : t'.Sound
  /-- The table keeps what it holds, and takes what the answers report as installed. -/
  holds : ∀ i v, t'.lookup i = some v ↔ t.lookup i = some v ∨ ∃ made, .put i v true made ∈ answers
  /-- What the table held at the beginning all answers repeat. -/
  repeats : ∀ i v, t.lookup i = some v → ∀ a ∈ answers, a.Repeats i v
  /-- What an answer reports as installed all later ones repeat. -/
  once : answers.Pairwise fun a b => ∀ i v made, a = .put i v true made → b.Repeats i v
  opens : ∀ S, t.Has S → Opens S calls ∧ t'.Has (S ∪ opened calls)

/-- The answer of a call whose maker ran. -/
def filling (t : SlotTable α) (i : UInt64) (v : α) : Answer α :=
  .put i (t.install i v).value (t.install i v).won true

/-- An index that is filled already is not reported as installed again. -/
theorem repeats_filling {t : SlotTable α} {j : UInt64} {u : α} (there : t.lookup j = some u)
    (i : UInt64) (v : α) : (t.filling i v).Repeats j u := by
  rintro rfl
  simp [install, there]

/-- A slot that is filled reports the value as installed. -/
theorem lookup_install_iff {t : SlotTable α} {i : UInt64} (h : t.Sound)
    (hi : (Location.of i).addressable = true) (v : α) (j : UInt64) (u : α) :
    (t.install i v).table.lookup j = some u ↔
      t.lookup j = some u ∨ ∃ made, t.filling i v = .put j u true made := by
  cases empty : t.lookup i with
  | some w => simp [install, filling, empty]
  | none =>
    have hfilling : t.filling i v = .put i v true true := by simp [install, filling, empty]
    rw [lookup_install h hi empty, hfilling]
    split
    · next heq =>
      subst heq
      simp [empty]
    · next hne => simp [hne]

namespace Stretch

variable {t t' t'' : SlotTable α} {calls others : List (Visit α)} {answers replies : List (Answer α)}
  {i : UInt64} {nested : List (Step α)} {made : Made α}

/-- Nothing is called, and nothing changes. -/
theorem nil (h : t.Sound) : Stretch t [] [] t where
  sound := h
  holds i v := by simp
  repeats := fun _ _ _ _ => nofun
  once := .nil
  opens S hS := ⟨trivial, by simpa using hS⟩

/-- Stretches are put one after the other: what the first has installed, the second finds. -/
theorem append (h : Stretch t calls answers t') (h' : Stretch t' others replies t'') :
    Stretch t (calls ++ others) (answers ++ replies) t'' where
  sound := h'.sound
  holds i v := by
    rw [h'.holds, h.holds, or_assoc]
    simp only [List.mem_append, exists_or]
  repeats i v hv a ha := by
    rcases List.mem_append.mp ha with ha | ha
    · exact h.repeats i v hv a ha
    · exact h'.repeats i v ((h.holds i v).mpr (.inl hv)) a ha
  once := by
    refine List.pairwise_append.mpr ⟨h.once, h'.once, fun a ha b hb i v made => ?_⟩
    rintro rfl
    exact h'.repeats i v ((h.holds i v).mpr (.inr ⟨made, ha⟩)) b hb
  opens S hS := by
    obtain ⟨hcalls, ht'⟩ := h.opens S hS
    obtain ⟨hothers, ht''⟩ := h'.opens _ ht'
    rw [opens_append, opened_append, ← Finset.union_assoc]
    exact ⟨⟨hcalls, hothers⟩, ht''⟩

/-- A call that leaves the table as it is, and answers nothing but what the table holds. -/
theorem read {c : Visit α} (h : t.Sound) (table : c.table = t) (quiet : c.opens = [])
    (own : Option (Answer α)) (reads : ∀ a ∈ own, (∀ i v made, a ≠ .put i v true made) ∧
      ∀ i v, t.lookup i = some v → a.Repeats i v) : Stretch t [c] own.toList t where
  sound := h
  holds i v := by
    refine (or_iff_left ?_).symm
    rintro ⟨made, hmem⟩
    exact (reads _ (Option.mem_toList.mp hmem)).1 i v made rfl
  repeats i v hv a ha := (reads a (Option.mem_toList.mp ha)).2 i v hv
  once := by
    cases own with
    | none => exact .nil
    | some a => exact List.pairwise_singleton _ _
  opens S hS := by
    rw [opened_cons, quiet]
    exact ⟨⟨table ▸ hS, trivial⟩, by simpa using hS⟩

/-- A call that allocates the way to its slot, with the calls of its maker. -/
theorem enter (hi : (Location.of i).addressable = true) (h : t.Sound) {c : Visit α}
    (table : c.table = t) (opens : c.opens = [(Location.of i).segment.toNat])
    (inner : Stretch (t.allocate i) calls answers t') : Stretch t (c :: calls) answers t' where
  sound := inner.sound
  holds j v := by rw [inner.holds, lookup_allocate h hi]
  repeats j v hv := inner.repeats j v (by rwa [lookup_allocate h hi])
  once := inner.once
  opens S hS := by
    have hunion : S ∪ c.opens.toFinset = insert (Location.of i).segment.toNat S := by
      rw [opens, List.toFinset_cons, List.toFinset_nil, Finset.union_comm, insert_empty_eq,
        Finset.insert_eq]
    obtain ⟨hcalls, ht'⟩ := inner.opens _ (hS.allocate hi)
    rw [opened_cons, ← Finset.union_assoc, hunion]
    exact ⟨⟨table ▸ hS, hunion ▸ hcalls⟩, ht'⟩

/-- The end of a maker, after which the slot is filled. -/
theorem fill (h : Stretch t calls answers t') (hi : (Location.of i).addressable = true)
    (there : (Location.of i).segment.toNat ∈ opened calls) (v : α) :
    Stretch t calls (answers ++ [t'.filling i v]) (t'.install i v).table where
  sound := h.sound.install hi v
  holds j u := by
    rw [lookup_install_iff h.sound hi, h.holds, or_assoc]
    simp only [List.mem_append, List.mem_singleton, exists_or, eq_comm]
  repeats j u hu a ha := by
    rcases List.mem_append.mp ha with ha | ha
    · exact h.repeats j u hu a ha
    · obtain rfl := List.mem_singleton.mp ha
      exact repeats_filling ((h.holds j u).mpr (.inl hu)) i v
  once := by
    refine List.pairwise_append.mpr ⟨h.once, List.pairwise_singleton _ _, fun a ha b hb j u made => ?_⟩
    rintro rfl
    obtain rfl := List.mem_singleton.mp hb
    exact repeats_filling ((h.holds j u).mpr (.inr ⟨made, ha⟩)) i v
  opens S hS := by
    obtain ⟨hcalls, ht'⟩ := h.opens S hS
    exact ⟨hcalls, ht'.install hi (Finset.mem_union_right S there) v⟩

end Stretch

/-! ## Whole calls

The induction is on the nesting of calls, with a list of calls inside each maker. A call that breaks off
ends the list.
-/

/-- A call that breaks off has no answer of its own. -/
theorem Outcome.answers_of_error {o : Outcome α (Answer α)} {message : String}
    (h : o.result = .error message) : o.answers = o.nested := by
  rw [answers, h]
  exact List.append_nil _

/-- A call that comes back answers after the calls inside. -/
theorem Outcome.answers_of_ok {o : Outcome α (Answer α)} {a : Answer α} (h : o.result = .ok a) :
    o.answers = o.nested ++ [a] := by
  rw [answers, h]
  rfl

section Calls

variable {t : SlotTable α} {i : UInt64} {nested : List (Step α)} {made : Made α}

/-- A call that finds its slot empty allocates the way to it. -/
theorem opens_of_vacant (vacant : t.vacant i = true) (nested : List (Step α)) (made : Made α) :
    (⟨t, .put i nested made⟩ : Visit α).opens = [(Location.of i).segment.toNat] := if_pos vacant

/-- A call that does not find its slot empty allocates nothing. -/
theorem opens_of_not_vacant (vacant : t.vacant i = false) :
    (⟨t, .put i nested made⟩ : Visit α).opens = [] := if_neg (Bool.eq_false_iff.mp vacant)

/-- A call that finds its slot empty begins before the calls of its maker. -/
theorem visits_of_vacant (vacant : t.vacant i = true) : (Step.put i nested made).visits t =
    ⟨t, .put i nested made⟩ :: visitsNested (t.allocate i) nested := by
  rw [Step.visits, if_pos vacant]

/-- A call that does not find its slot empty makes no calls. -/
theorem visits_of_not_vacant (vacant : t.vacant i = false) :
    (Step.put i nested made).visits t = [⟨t, .put i nested made⟩] := by
  rw [Step.visits, vacant, if_neg Bool.false_ne_true]

/-- The answers of the maker's calls, also if the call breaks off. -/
theorem nested_of_vacant (vacant : t.vacant i = true) :
    ((Step.put i nested made).run t).nested = (runNested (t.allocate i) nested).nested := by
  cases hresult : (runNested (t.allocate i) nested).result with
  | error message => rw [run_broken vacant hresult]
  | ok _ => cases made with
    | panic message => rw [run_panic vacant hresult]
    | value v => rw [run_value vacant hresult]

/-- A call that does not run its maker either panics or finds the slot filled. -/
theorem run_of_not_vacant (vacant : t.vacant i = false) (nested : List (Step α)) (made : Made α) :
    (Step.put i nested made).run t = ⟨t, [], .error (outOfBounds i)⟩ ∨
    ∃ v, t.lookup i = some v ∧
      (Step.put i nested made).run t = ⟨t, [], .ok (.put i v false false)⟩ := by
  cases hi : (Location.of i).addressable with
  | false => exact .inl (run_put_beyond hi)
  | true =>
    rw [SlotTable.vacant, hi, Bool.true_and] at vacant
    obtain ⟨v, hv⟩ := Option.isSome_iff_exists.mp (Option.isNone_eq_false_iff.mp vacant)
    exact .inr ⟨v, hv, run_full hi hv⟩

end Calls

mutual

/-- Every call is a stretch, by induction on the nesting of calls. -/
theorem Step.stretch {t : SlotTable α} (h : t.Sound) : (s : Step α) →
    Stretch t (s.visits t) (s.run t).answers (s.run t).table
  | .render => by
    rw [Step.visits, Step.run]
    refine .read h rfl rfl (some _) ?_
    rintro _ ⟨⟩
    exact ⟨nofun, fun _ _ _ => trivial⟩
  | .get i => by
    rw [Step.visits]
    cases hi : (Location.of i).addressable with
    | false =>
      rw [run_get_beyond hi]
      exact .read h rfl rfl none nofun
    | true =>
      rw [run_get hi]
      refine .read h rfl rfl (some _) ?_
      rintro _ ⟨⟩
      refine ⟨nofun, fun j v hv => ?_⟩
      rintro rfl
      exact hv
  | .put i nested made => by
    cases vacant : t.vacant i with
    | false =>
      rw [visits_of_not_vacant vacant]
      obtain hrun | ⟨v, hv, hrun⟩ := run_of_not_vacant vacant nested made
      · rw [hrun]
        exact .read h rfl (opens_of_not_vacant vacant) none nofun
      · rw [hrun]
        refine .read h rfl (opens_of_not_vacant vacant) (some _) ?_
        rintro _ ⟨⟩
        refine ⟨nofun, fun j w hw => ?_⟩
        rintro rfl
        exact ⟨Option.some.inj (hv.symm.trans hw), rfl⟩
    | true =>
      have hi := (vacant_iff.mp vacant).1
      -- The calls of the maker find the way to the slot allocated, and may fill it themselves.
      have inner := stretchNested (h.allocate hi) nested
      have opens := opens_of_vacant vacant nested made
      have entered := inner.enter hi h rfl opens
      rw [visits_of_vacant vacant]
      cases hresult : (runNested (t.allocate i) nested).result with
      | error message =>
        rw [run_broken vacant hresult, Outcome.answers_of_error rfl]
        exact entered
      | ok _ => cases made with
        | panic message =>
          rw [run_panic vacant hresult, Outcome.answers_of_error rfl]
          exact entered
        | value v =>
          rw [run_value vacant hresult, Outcome.answers_of_ok rfl]
          refine entered.fill hi ?_ v
          rw [opened_cons, opens]
          exact Finset.mem_union_left _ (by simp)

/-- The calls of a maker are a stretch, also when one of them breaks off. -/
theorem stretchNested {t : SlotTable α} (h : t.Sound) : (steps : List (Step α)) →
    Stretch t (visitsNested t steps) (runNested t steps).nested (runNested t steps).table
  | [] => by
    rw [visitsNested, runNested]
    exact .nil h
  | s :: rest => by
    have first := s.stretch h
    rw [visitsNested, runNested]
    cases hresult : (s.run t).result with
    | error message =>
      rw [Outcome.answers_of_error hresult] at first
      simpa only [List.append_nil] using first
    | ok answer =>
      have others := first.append (stretchNested first.sound rest)
      rw [Outcome.answers_of_ok hresult, List.append_assoc] at others
      exact others

end

/-! ## The calls that come back, and those that break off

Every call that comes back has one answer. A call that breaks off takes the calls around it along.
-/

/-- Answers of calls, one call after the other. -/
theorem filterMap_answer?_cons (c : Visit α) (calls : List (Visit α)) :
    (c :: calls).filterMap Visit.answer? = c.answer?.toList ++ calls.filterMap Visit.answer? := by
  rw [List.filterMap_cons]
  cases c.answer? <;> rfl

/-- A call without calls inside has the answers that it shows. -/
theorem answered_alone {t : SlotTable α} {s : Step α} (visits : s.visits t = [⟨t, s⟩])
    (nested : (s.run t).nested = []) :
    (s.run t).answers.Perm ((s.visits t).filterMap Visit.answer?) := by
  rw [visits, filterMap_answer?_cons, Outcome.answers, nested, List.filterMap_nil, List.append_nil,
    List.nil_append]
  exact .refl _

mutual

/-- The answers are those of the calls, though in another order: an outer call comes back later. -/
theorem Step.answered (t : SlotTable α) : (s : Step α) →
    (s.run t).answers.Perm ((s.visits t).filterMap Visit.answer?)
  | .render => answered_alone (by rw [Step.visits]) (by rw [Step.run])
  | .get i => by
    refine answered_alone (by rw [Step.visits]) ?_
    cases hi : (Location.of i).addressable with
    | false => rw [run_get_beyond hi]
    | true => rw [run_get hi]
  | .put i nested made => by
    cases vacant : t.vacant i with
    | false =>
      refine answered_alone (visits_of_not_vacant vacant) ?_
      obtain hrun | ⟨v, -, hrun⟩ := run_of_not_vacant vacant nested made <;> rw [hrun]
    | true =>
      rw [visits_of_vacant vacant, filterMap_answer?_cons, Outcome.answers, nested_of_vacant vacant]
      exact List.perm_append_comm.trans (List.Perm.append_left _ (answeredNested _ nested))

/-- The calls of a maker that come back are those that have answers. -/
theorem answeredNested (t : SlotTable α) : (steps : List (Step α)) →
    (runNested t steps).nested.Perm ((visitsNested t steps).filterMap Visit.answer?)
  | [] => by
    rw [visitsNested, runNested]
    rfl
  | s :: rest => by
    have first := s.answered t
    rw [visitsNested, runNested]
    cases hresult : (s.run t).result with
    | error message =>
      rw [Outcome.answers_of_error hresult] at first
      simpa only [List.append_nil] using first
    | ok answer =>
      have others := first.append (answeredNested (s.run t).table rest)
      rw [Outcome.answers_of_ok hresult, List.append_assoc, ← List.filterMap_append] at others
      exact others

end

mutual

/-- A call breaks off with every call inside. -/
theorem Step.unwinds (t : SlotTable α) : (s : Step α) → ∀ d ∈ s.visits t, ∀ message,
    d.outcome.result = .error message → (s.run t).result = .error message
  | .render => by
    rw [Step.visits, List.forall_mem_singleton]
    exact fun _ => id
  | .get i => by
    rw [Step.visits, List.forall_mem_singleton]
    exact fun _ => id
  | .put i nested made => by
    cases vacant : t.vacant i with
    | false =>
      rw [visits_of_not_vacant vacant, List.forall_mem_singleton]
      exact fun _ => id
    | true =>
      rw [visits_of_vacant vacant, List.forall_mem_cons]
      refine ⟨fun _ => id, fun d hd message hmessage => ?_⟩
      rw [run_broken vacant (unwindsNested _ nested d hd message hmessage)]

/-- A maker is broken off by a call of its own that breaks off. -/
theorem unwindsNested (t : SlotTable α) : (steps : List (Step α)) →
    ∀ d ∈ visitsNested t steps, ∀ message, d.outcome.result = .error message →
      (runNested t steps).result = .error message
  | [] => by
    rw [visitsNested]
    exact nofun
  | s :: rest => by
    intro d hd message hmessage
    rw [visitsNested, List.mem_append] at hd
    rw [runNested]
    rcases hd with hd | hd
    · simp only [s.unwinds t d hd message hmessage]
    · cases hresult : (s.run t).result with
      | error _ =>
        rw [hresult] at hd
        cases hd
      | ok _ =>
        rw [hresult] at hd
        exact unwindsNested _ rest d hd message hmessage

end

/-! ## Whole programs

A program is a stretch that begins with a new table, where no slot is filled and no segment is there.
-/

/-- At any call, the segments that are there are those opened before. -/
theorem Opens.has {S : Finset ℕ} {calls before after : List (Visit α)} {c : Visit α}
    (h : Opens S calls) (split : calls = before ++ c :: after) : c.table.Has (S ∪ opened before) := by
  rw [split, opens_append] at h
  exact h.2.1

/-- A program is a stretch. -/
theorem stretch_program {t : SlotTable α} (h : t.Sound) (program : List (Step α)) :
    Stretch t (programVisits t program) (programAnswers t program) (programTable t program) := by
  induction program generalizing t with
  | nil => exact .nil h
  | cons s rest ih =>
    have first := s.stretch h
    exact first.append (ih first.sound)

/-- The calls of a program that come back are those that have answers. -/
theorem answered_program (t : SlotTable α) (program : List (Step α)) :
    (programAnswers t program).Perm ((programVisits t program).filterMap Visit.answer?) := by
  induction program generalizing t with
  | nil => exact .nil
  | cons s rest ih =>
    rw [programVisits, List.filterMap_append]
    exact (s.answered t).append (ih _)

/-- A call that finds its slot empty does what is said of such calls. -/
theorem runsMaker {t : SlotTable α} {i : UInt64} (h : t.Sound) (vacant : t.vacant i = true)
    (nested : List (Step α)) (made : Made α) :
    (⟨t, .put i nested made⟩ : Visit α).RunsMaker i nested made := by
  obtain ⟨hi, empty⟩ := vacant_iff.mp vacant
  have inner := stretchNested (h.allocate hi) nested
  have answers : ((Step.put i nested made).run t).nested = (runNested (t.allocate i) nested).nested :=
    nested_of_vacant vacant
  -- The slot is filled when the maker comes back exactly if one of its calls has filled it.
  have filled (w : α) : (runNested (t.allocate i) nested).table.lookup i = some w ↔
      ∃ m, .put i w true m ∈ ((Step.put i nested made).run t).nested := by
    rw [inner.holds, lookup_allocate h hi, empty, answers]
    simp
  refine ⟨visits_of_vacant vacant, answers, ?broken, ?panics, ?preceded, ?installs⟩
  case broken =>
    intro message broken
    exact congrArg Outcome.result (run_broken vacant broken)
  case panics =>
    rintro calm message rfl
    exact congrArg Outcome.result (run_panic vacant calm)
  case preceded =>
    rintro calm v rfl w m hmem
    have there := (filled w).mpr ⟨m, hmem⟩
    refine (congrArg Outcome.result (run_value vacant calm)).trans ?_
    simp only [install, there]
  case installs =>
    rintro calm v rfl none
    have vacant' : (runNested (t.allocate i) nested).table.lookup i = .none := by
      by_contra there
      obtain ⟨w, hw⟩ := Option.ne_none_iff_exists'.mp there
      obtain ⟨m, hmem⟩ := (filled w).mp hw
      exact none w m hmem
    refine (congrArg Outcome.result (run_value vacant calm)).trans ?_
    simp only [install, vacant']

/-- **A slot is filled once, whatever the makers do.** However calls are nested, at most one call for each
index reports its value as installed, and all that come back later answer that value; makers run exactly for
the slots that are found empty; a panic unwinds through all calls around it, of which none fills its slot,
while what their nested calls have filled stays; and the segments are those of the slots found empty. -/
theorem fills_once (program : List (Step α)) : FillsOnce program := by
  have stretch := stretch_program sound_blank program
  obtain ⟨opens, final⟩ := stretch.opens ∅ has_blank
  -- Every call begins in a table that has the segments opened so far.
  have has {before after : List (Visit α)} {c : Visit α}
      (split : programVisits {} program = before ++ c :: after) : c.table.Has (opened before) := by
    simpa using opens.has split
  have sound {c : Visit α} (hc : c ∈ programVisits {} program) : c.table.Sound := by
    obtain ⟨before, after, split⟩ := List.append_of_mem hc
    exact (has split).sound
  exact {
    answered := answered_program {} program
    once := stretch.once
    gets := by
      rintro ⟨t, _⟩ hc i rfl hi
      exact run_get (Location.addressable_iff.mpr hi)
    full := by
      rintro ⟨t, _⟩ hc i nested made v rfl hv
      refine run_full ?_ hv
      by_contra beyond
      exact nomatch (lookup_beyond (sound hc) (Bool.eq_false_iff.mpr beyond)).symm.trans hv
    makes := by
      rintro ⟨t, _⟩ hc i nested made rfl hi empty
      exact runsMaker (sound hc) (vacant_iff.mpr ⟨Location.addressable_iff.mpr hi, empty⟩) nested made
    unwinds := fun c _ d hd => c.step.unwinds c.table d hd
    leaves := fun c hc => (c.step.stretch (sound hc)).holds
    segments := fun before c after split => (has split).count
    shown := by
      rw [render, final.count, Finset.empty_union]
    beyond := by
      rintro ⟨t, _⟩ hc i (rfl | ⟨nested, made, rfl⟩) hi
      all_goals
        have beyond : (Location.of i).addressable = false :=
          Bool.eq_false_iff.mpr fun h => Nat.not_lt.mpr hi (Location.addressable_iff.mp h)
      · exact run_get_beyond beyond
      · exact run_put_beyond beyond }

/-- A maker that fills the slot it was to fill. -/
example : programAnswers {} [.put 7 [.put 7 [] (.value "inner")] (.value "outer"), .get 7] =
    [.put 7 "inner" true true, .put 7 "inner" false true, .found 7 (some "inner")] := by
  decide +kernel

end RequestGraph.SlotTable
