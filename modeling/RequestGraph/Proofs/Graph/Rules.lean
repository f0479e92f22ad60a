import Mathlib.Data.Finset.Dedup
import Mathlib.Data.Finset.Filter
import Mathlib.Data.Fintype.Card
import Mathlib.Data.Fintype.EquivFin
import Mathlib.Logic.Relation
import RequestGraph.Engine.World
import RequestGraph.Proofs.OrderedMap

/-!
# Dependency graphs

Each key of a graph is an input, or a node that combines the values of other keys, or it fails. Self-loops
and cycles are allowed. What a key comes to, no schedule has a part in:

    a failing key is reached           →   the key fails with the error of one of them
    none, and no cycle either          →   the key has a value, by recursion on the graph
    none, but a cycle                  →   the key stays pending
-/

namespace RequestGraph

/-- How a key is computed. -/
inductive Rule where
  | input (n : Int64)
  /-- A function of the values of other keys. -/
  | node (deps : List String) (f : List Int64 → Int64)
  | failing (e : Error)
  /-- There is neither an input nor a node. -/
  | absent

namespace Rule

/-- The number of an input. -/
def input? : Rule → Option Int64
  | .input n => some n
  | _ => none

/-- The keys that a key depends on. -/
def deps : Rule → List String
  | .node deps _ => deps
  | _ => []

/-- What a node does with its claim when its dependencies have succeeded. -/
def combining (deps : List String) (f : List Int64 → Int64) : Script :=
  [.claim (.complete none (.ok (.combine f deps)))]

/-- What a node does with its claim when one of its dependencies has failed. -/
def passing : Script := [.claim (.complete none (.error .current))]

/-- The code of a node: it asks for all its dependencies, and then awaits them all. -/
def body? : Rule → Option Script
  | .node deps f => some <| deps.map (fun d => .context (.fetch none d d)) ++
    [.cell (.await (deps.map .cell) "deps" (combining deps f) passing)]
  | .failing e => some [.claim (.complete none (.error (.given e)))]
  | _ => none

end Rule

/-- A finite dependency graph; a key without a rule is absent. -/
structure Graph where
  rules : OrderedMap String Rule := {}

namespace Graph

variable (g : Graph)

/-- The rule of a key. -/
def rule (key : String) : Rule := (g.rules.get? key).getD .absent

/-- The keys that a key depends on. -/
def deps (key : String) : List String := (g.rule key).deps

/-- The error of a key that fails by itself. -/
def failure? (key : String) : Option Error :=
  match g.rule key with
  | .failing e => some e
  | .absent => some (.unknownNode (Text.quoted key))
  | _ => none

/-- A key depends on another one. -/
def Needs (x y : String) : Prop := y ∈ g.deps x

/-- A key leads to another one along dependencies. -/
def Reaches : String → String → Prop := Relation.ReflTransGen g.Needs

/-- A key depends on itself, at once or by others. -/
def Circular (x : String) : Prop := Relation.TransGen g.Needs x x

/-- The value of a key, by recursion on the graph. -/
inductive Evaluates : String → Int64 → Prop
  | input {key : String} {n : Int64} (rule : g.rule key = .input n) : Evaluates key n
  | node {key : String} {deps : List String} {f : List Int64 → Int64}
      (rule : g.rule key = .node deps f) (values : String → Int64)
      (evaluates : ∀ d ∈ deps, Evaluates d (values d)) : Evaluates key (f (deps.map values))

/-- What a key may come to. -/
def Yields (key : String) : Outcome → Prop
  | .ok v => ∃ n, v = .number n ∧ g.Evaluates key n
  | .error e => ∃ z, g.Reaches key z ∧ g.failure? z = some e

variable {g} {x y z : String} {n : Int64} {e : Error}

/-- A node needs what its rule names. -/
theorem needs_of_rule {deps : List String} {f : List Int64 → Int64} (rule : g.rule x = .node deps f)
    {d : String} : g.Needs x d ↔ d ∈ deps := by
  show d ∈ (g.rule x).deps ↔ _
  rw [rule]
  rfl

/-- A key that needs another one is a node. -/
theorem rule_of_needs (h : g.Needs x y) : ∃ deps f, g.rule x = .node deps f := by
  have h : y ∈ (g.rule x).deps := h
  cases hrule : g.rule x with
  | node deps f => exact ⟨deps, f, rfl⟩
  | _ =>
      rw [hrule] at h
      cases h

/-! ## Values

A value is built by recursion along the dependencies. So a key with a value has no way to go on for ever,
and none of the keys it reaches fails.
-/

/-- The value of a key is the only one. -/
theorem Evaluates.unique {n' : Int64} (h : g.Evaluates x n) (h' : g.Evaluates x n') : n = n' := by
  induction h generalizing n' with
  | input rule => cases h' with
    | input rule' =>
        cases rule.symm.trans rule'
        rfl
    | node rule' => cases rule.symm.trans rule'
  | @node key deps f rule values _ ih => cases h' with
    | input rule' => cases rule.symm.trans rule'
    | node rule' values' evaluates' =>
        cases rule.symm.trans rule'
        congr 1
        apply List.map_congr_left
        intro d hd
        exact ih d hd (evaluates' d hd)

/-- Below a key with a value there is no way to go on for ever. -/
theorem Evaluates.acc (h : g.Evaluates x n) : Acc (fun d y => g.Needs y d) x := by
  induction h with
  | input rule =>
      refine ⟨_, fun d hd => ?_⟩
      obtain ⟨_, _, rule'⟩ := rule_of_needs hd
      cases rule.symm.trans rule'
  | node rule values _ ih => exact ⟨_, fun d hd => ih d ((needs_of_rule rule).mp hd)⟩

/-- What has a value needs only what has values. -/
theorem Evaluates.step (h : g.Evaluates x n) (hy : g.Needs x y) : ∃ m, g.Evaluates y m := by
  obtain ⟨deps, f, rule⟩ := rule_of_needs hy
  cases h with
  | input rule' => cases rule.symm.trans rule'
  | node rule' values evaluates => exact ⟨_, evaluates y ((needs_of_rule rule').mp hy)⟩

/-- What has a value reaches only what has values. -/
theorem Evaluates.of_reaches (h : g.Evaluates x n) (hy : g.Reaches x y) : ∃ m, g.Evaluates y m := by
  induction hy with
  | refl => exact ⟨n, h⟩
  | tail _ hy ih =>
      obtain ⟨m, hm⟩ := ih
      exact hm.step hy

/-- Nothing is on a circle if its needs can be followed to their ends. -/
theorem not_circular_of_acc (h : Acc (fun d y => g.Needs y d) x) : ¬g.Circular x := by
  induction h with
  | intro x _ ih =>
      intro circular
      obtain ⟨d, hd, rest⟩ := Relation.TransGen.head'_iff.mp circular
      exact ih d hd (Relation.TransGen.tail' rest hd)

/-- What has a value reaches no circle. -/
theorem Evaluates.not_circular (h : g.Evaluates x n) (hy : g.Reaches x y) : ¬g.Circular y := by
  obtain ⟨m, hm⟩ := h.of_reaches hy
  exact not_circular_of_acc hm.acc

/-- What has a value reaches no failure. -/
theorem Evaluates.failure?_eq_none (h : g.Evaluates x n) (hy : g.Reaches x y) :
    g.failure? y = none := by
  obtain ⟨m, hm⟩ := h.of_reaches hy
  cases hm with
  | input rule => rw [failure?, rule]
  | node rule => rw [failure?, rule]

/-! ## Finite graphs

Only keys that are requested or written down in a rule are ever reached. Where no cycle is among them,
dependencies can be followed to their ends.
-/

open Classical in
/-- The keys that are reached from some keys. -/
noncomputable def reached (g : Graph) (requested : List String) : Finset String :=
  (requested ++ g.rules.entries.flatMap fun e => e.2.deps).toFinset.filter fun x =>
    ∃ r ∈ requested, g.Reaches r x

/-- What a key depends on is written down in the graph. -/
theorem mem_of_needs (h : g.Needs x y) : y ∈ g.rules.entries.flatMap fun e => e.2.deps := by
  have h : y ∈ (g.rule x).deps := h
  rw [rule] at h
  cases hrule : g.rules.get? x with
  | none =>
      rw [hrule] at h
      cases h
  | some rule =>
      rw [hrule] at h
      exact List.mem_flatMap.mpr ⟨(x, rule), OrderedMap.mem_of_find hrule, h⟩

/-- The keys reached from those requested, as a finite set. -/
theorem mem_reached {requested : List String} :
    x ∈ g.reached requested ↔ ∃ r ∈ requested, g.Reaches r x := by
  classical
  rw [reached, Finset.mem_filter, List.mem_toFinset, List.mem_append, and_iff_right_iff_imp]
  rintro ⟨r, hr, reaches⟩
  cases reaches with
  | refl => exact .inl hr
  | tail _ needs => exact .inr (mem_of_needs needs)

/-- No more keys are reached than are requested or named in rules. -/
theorem card_reached_le (requested : List String) : (g.reached requested).card ≤
    requested.length + (g.rules.entries.flatMap fun e => e.2.deps).length := by
  classical
  calc (g.reached requested).card
    _ ≤ _ := Finset.card_filter_le _ _
    _ ≤ _ := List.toFinset_card_le _
    _ = _ := List.length_append

/-- From a key from which no cycle is reached there is no way to go on for ever. -/
theorem acc_of_not_circular {keys : Finset String}
    (closed : ∀ x ∈ keys, ∀ d, g.Needs x d → d ∈ keys) (hx : x ∈ keys)
    (straight : ∀ z, g.Reaches x z → ¬g.Circular z) : Acc (fun d y => g.Needs y d) x := by
  let Below := { z // z ∈ keys ∧ g.Reaches x z }
  have : Finite Below := by
    refine Finite.of_injective (fun a : Below => (⟨a.1, a.2.1⟩ : keys)) fun a b hab => ?_
    exact Subtype.ext (congrArg (fun c : keys => c.1) hab)
  let r (a b : Below) : Prop := Relation.TransGen g.Needs b.1 a.1
  have : IsTrans Below r := ⟨fun a b c hab hbc => hbc.trans hab⟩
  have : Std.Irrefl r := ⟨fun a ha => straight a.1 a.2.2 ha⟩
  have wf : WellFounded r := Finite.wellFounded_of_trans_of_irrefl r
  have acc (a : Below) : Acc (fun d y => g.Needs y d) a.1 := by
    induction a using wf.induction with
    | _ a ih =>
        refine ⟨_, fun d hd => ?_⟩
        exact ih ⟨d, closed a.1 a.2.1 d hd, a.2.2.tail hd⟩ (.single hd)
  exact acc ⟨x, hx, .refl⟩

end Graph

end RequestGraph
