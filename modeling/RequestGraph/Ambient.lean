import RequestGraph.Text.Record

/-!
# Ambients

The dynamic bindings under which a piece of work runs: at most one visible value of each type, the
innermost. Binding a type again shadows the older value in the extended snapshot only.

    lookup (bind a b) k = some b     if b is of type k
    lookup (bind a b) k = lookup a k otherwise
-/

namespace RequestGraph

/-- The types that can be bound: the primitive ones, and any number of types that wrap a primitive value, each
known by its name. -/
inductive BindingType where
  | integer
  | text
  | flag
  | wrapper (name : String)
deriving Repr, DecidableEq

/-- A primitive value, bare or in a wrapper. -/
structure Wrapped (α : Type) where
  value : α
  /-- The name of the type that wraps the value, if one does. -/
  wrapper : Option String := none
deriving Repr, DecidableEq

namespace Wrapped

variable {α : Type}

/-- A value that is not wrapped is written as it is. -/
instance : CoeTail α (Wrapped α) := ⟨fun value => { value }⟩

instance : CoeOut (Wrapped α) α := ⟨value⟩

instance (n : Nat) [OfNat α n] : OfNat (Wrapped α) n := ⟨{ value := OfNat.ofNat n }⟩

/-- The type of a value: that of its wrapper, or that of the value itself if it is bare. -/
def type (x : Wrapped α) (bare : BindingType) : BindingType := x.wrapper.elim bare .wrapper

end Wrapped

/-- A bound value. -/
inductive Binding where
  | integer (n : Wrapped Int64)
  | text (s : Wrapped String)
  | flag (b : Wrapped Bool)
deriving Repr, DecidableEq

/-- The type of a bound value. -/
def Binding.type : Binding → BindingType
  | .integer n => n.type .integer
  | .text s => s.type .text
  | .flag b => b.type .flag

/-- The name of a type. -/
def BindingType.name : BindingType → String
  | .integer => "i64"
  | .text => "alloc::string::String"
  | .flag => "bool"
  | .wrapper name => name

/-- A snapshot of bindings, innermost first. -/
structure Ambient where
  bindings : List Binding := []
deriving Repr, DecidableEq

namespace Ambient

instance : Inhabited Ambient := ⟨{}⟩

/-- The snapshot with one more binding. -/
def bind (a : Ambient) (b : Binding) : Ambient := ⟨b :: a.bindings⟩

/-- The innermost value of a type. -/
def lookup (a : Ambient) (t : BindingType) : Option Binding :=
  a.bindings.find? fun b => b.type = t

/-- A binding shadows the one of its type and no other. -/
@[simp] theorem lookup_bind (a : Ambient) (b : Binding) (t : BindingType) :
    (a.bind b).lookup t = if b.type = t then some b else a.lookup t := by
  by_cases h : b.type = t <;> simp [bind, lookup, h]

-- A wrapped value is not of the type of the bare one, which does not shadow it.
example : ((({} : Ambient).bind (.integer ⟨7, some "Depth"⟩)).bind (.integer 1)).lookup (.wrapper "Depth") =
    some (.integer ⟨7, some "Depth"⟩) := by decide

/-- The text that shows a snapshot: its tracing span, of which there is none, and the types it binds,
innermost first. -/
def render (a : Ambient) : String :=
  Text.record "Ambient"
    [("span", Text.record "Span" [("none", Text.flag true)]),
      ("bound", Text.sequence (a.bindings.map fun b => Text.quoted b.type.name))]

end Ambient

end RequestGraph
