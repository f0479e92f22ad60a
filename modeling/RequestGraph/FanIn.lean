/-!
# Fan-in

One continuation for many cells: it runs once all of them have succeeded, or with the first failure.
A fan-in counts the cells that have not succeeded, and one more while it is still being set up; the
first failure marks it, and after that no count settles it.

    a success settles a fan-in    iff    it was the last that was counted, and no failure came before
    a failure settles a fan-in    iff    no failure came before

The count and the mark may share one word, since no count ever borrows from the mark: as long as
signals are due, the count is positive, also after a failure (`FanInSettles.counts`).
-/

namespace RequestGraph

/-- The number of a fan-in. -/
abbrev FanInId := Nat

/-- A countdown with its continuation. -/
structure FanIn (κ : Type) where
  /-- How many successes are awaited, the end of the set-up among them. -/
  remaining : Nat
  /-- Whether a failure has settled the countdown. -/
  failed : Bool
  /-- What runs when the countdown settles; taken out then. -/
  continuation : Option κ

namespace FanIn

variable {κ : Type}

instance : Inhabited (FanIn κ) := ⟨⟨0, false, none⟩⟩

/-- A countdown that is being set up. -/
def start (continuation : κ) : FanIn κ := ⟨1, false, some continuation⟩

/-- Awaits one more success. -/
def await (f : FanIn κ) : FanIn κ := { f with remaining := f.remaining + 1 }

/-- What a signal gives: nothing, or the end of the countdown with the continuation that was left. -/
inductive Signal (κ : Type) where
  | counted (fanIn : FanIn κ)
  | settled (fanIn : FanIn κ) (continuation : Option κ)

/-- The state of the countdown after its continuation was taken out. -/
def taken (f : FanIn κ) : FanIn κ := { f with continuation := none }

/-- Counts a success. -/
def succeed (f : FanIn κ) : Signal κ :=
  let counted := { f with remaining := f.remaining - 1 }
  if f.remaining = 1 ∧ f.failed = false then .settled counted.taken f.continuation
  else .counted counted

/-- Marks a failure. -/
def fail (f : FanIn κ) : Signal κ :=
  if f.failed then .counted f
  else .settled { f with failed := true }.taken f.continuation

end FanIn

end RequestGraph
