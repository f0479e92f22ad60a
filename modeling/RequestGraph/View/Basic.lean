import RequestGraph.OrderedMap
import RequestGraph.Text.Record

/-!
# Result views

What a request produced, as it stood at one moment: keys and their numbers in a fixed order. A view
remembers the context it was taken from.
-/

namespace RequestGraph

/-- The number of a request context. -/
abbrev ContextId := Nat

/-- A snapshot of what a request produced. -/
structure View where
  /-- The context that the view was taken from. -/
  context : ContextId
  /-- The keys that had a value, and their values. -/
  entries : OrderedMap String Int64
deriving Repr, DecidableEq

namespace View

/-- The value of a key. -/
def get? (v : View) (key : String) : Option Int64 := v.entries.get? key

/-- Whether a key has a value. -/
def contains (v : View) (key : String) : Bool := (v.get? key).isSome

/-- The number of entries. -/
def size (v : View) : Nat := v.entries.size

/-- Whether there are no entries. -/
def isEmpty (v : View) : Bool := v.entries.isEmpty

/-- The text that shows the keys of a view. -/
def render (v : View) : String := Text.set (v.entries.keys.map Text.quoted)

end View

end RequestGraph
