import RequestGraph.Proofs.Engine.Contexts

/-!
# Calls that come back

A call *returns* if it comes back with a result above any frames. A call that goes on with another one
returns as soon as that one does, and what is left to do afterwards does:

    w.invoke c = w₁.call c' [frame],   w₁ returns from c' with r₁,   the frame goes on with r₁ and returns
      →   w returns from c
-/

namespace RequestGraph

/-- A run leads from one machine to another. -/
def Machine.Leads (m m' : Machine) : Prop := ∃ n, m.iterate n = m'

/-- A call comes back with a result, whatever is left to do below it. -/
def World.Returns (w : World) (c : Call) (w' : World) (r : Result) : Prop :=
  ∀ frames, Machine.Leads ⟨w, .call c, frames⟩ ⟨w', .ret r, frames⟩

/-- What a move leads to comes back with a result, whatever is left to do below it. -/
def Move.Returns (mv : Move) (w' : World) (r : Result) : Prop :=
  ∀ frames, (Machine.ofMove mv frames).Leads ⟨w', .ret r, frames⟩

/-- The move with more frames below those it leaves. -/
def Move.below (mv : Move) (frames : List Frame) : Move :=
  ⟨mv.world, mv.control, mv.frames ++ frames⟩

namespace Machine

variable {m m' m'' : Machine}

theorem Leads.refl (m : Machine) : m.Leads m := ⟨0, rfl⟩

/-- Leading somewhere may be shown one step later. -/
theorem Leads.step (h : m.step.Leads m') : m.Leads m' := by
  obtain ⟨n, hn⟩ := h
  exact ⟨n + 1, hn⟩

/-- Runs are put one after the other. -/
theorem Leads.trans (h : m.Leads m') (h' : m'.Leads m'') : m.Leads m'' := by
  obtain ⟨n, rfl⟩ := h
  obtain ⟨n', rfl⟩ := h'
  exact ⟨n + n', iterate_add m n n'⟩

end Machine

namespace Move

variable {mv : Move} {w w₁ w' : World} {c : Call} {r r₁ : Result} {frame : Frame}
  {frames : List Frame}

/-- A move that ends in a call returns as the call does. -/
theorem Returns.call (h : w.Returns c w' r) : Move.Returns ⟨w, .call c, []⟩ w' r := h

/-- A move that has its result returns it at once. -/
theorem Returns.ret : Move.Returns ⟨w, .ret r, []⟩ w r := fun _ => .refl _

/-- A result that meets the innermost frame goes on with what that frame makes of it. -/
theorem Returns.resume (h : ((w.resume frame r₁).below frames).Returns w' r) :
    Move.Returns ⟨w, .ret r₁, frame :: frames⟩ w' r := by
  intro rest
  apply Machine.Leads.step
  show (Machine.ofMove (w.resume frame r₁) (frames ++ rest)).Leads _
  have := h rest
  rw [Machine.ofMove, below] at this
  rw [Machine.ofMove, ← List.append_assoc]
  exact this

/-- A call above a frame returns if the frame goes on with its result and returns. -/
theorem Returns.above (h : w.Returns c w₁ r₁)
    (rest : ((w₁.resume frame r₁).below frames).Returns w' r) :
    Move.Returns ⟨w, .call c, frame :: frames⟩ w' r := by
  intro outer
  exact (h (frame :: (frames ++ outer))).trans (Returns.resume rest outer)

end Move

namespace World

variable {w w₁ w' w'' : World} {c c' : Call} {r r' : Result}

/-- Calls return as the moves do that they are. -/
theorem Returns.of_move (h : (w.invoke c).Returns w' r) : w.Returns c w' r :=
  fun frames => Machine.Leads.step (m := ⟨w, .call c, frames⟩) (h frames)

/-- Returning is one way of coming to an end. -/
theorem Returns.performs (h : w.Returns c w' r) : w.Performs c w' (.ret r) := by
  obtain ⟨n, hn⟩ := h []
  exact ⟨rfl, n, hn⟩

end World

end RequestGraph
