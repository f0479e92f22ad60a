import RequestGraph.Interner.Basic

/-!
# Programs on an interner

Sequences of questions to one interner and the answers to them. The cache and its size show in none.
-/

namespace RequestGraph.Interner

/-- One question to an interner. -/
inductive Request (K : Type) where
  /-- The index of a key, which is registered if it is new. -/
  | intern (key : K)
  /-- The index of a key that was registered. -/
  | indexOf (key : K)
  /-- The key of an index. -/
  | keyOf (index : KeyIndex)
  /-- How many keys are registered. -/
  | size
  /-- Shows the interner. -/
  | render

/-- What a question is answered with. -/
inductive Answer (K : Type) where
  | index (index : Option KeyIndex)
  | key (key : Option K)
  | size (n : Nat) (isEmpty : Bool)
  | text (s : String)

variable {K : Type} [BEq K]

/-- Answers one question. -/
def answer (t : Interner K) : Request K → Interner K × Answer K
  | .intern key =>
    let (t', index) := t.intern key
    (t', .index index)
  | .indexOf key =>
    let (t', index) := t.index? key
    (t', .index index)
  | .keyOf index => (t, .key (t.key? index))
  | .size => (t, .size t.size (t.size == 0))
  | .render => (t, .text t.render)

/-- Answers the questions one after another. -/
def runProgram (t : Interner K) : List (Request K) → List (Answer K)
  | [] => []
  | r :: rest =>
    let (t', a) := t.answer r
    a :: runProgram t' rest

end RequestGraph.Interner
