import RequestGraph.Interner.Basic
import RequestGraph.OrderedMap

/-!
# Providers

A provider says which node computes a key. Its nodes stand in a table by key; beside it a memo of
answers by dense index spares hashing the key again, misses included. Registering a node empties the
memo, which is what keeps it from ever being seen:

    lookup after insert k n = n at k, and as before elsewhere
-/

namespace RequestGraph

/-- Nodes by key, and the answers given so far by index. -/
structure Provider (ν : Type) where
  nodes : OrderedMap String ν := {}
  memo : SlotTable (Option ν) := {}
  /-- Whether a context uses the provider, after which no node can be registered. -/
  shared : Bool := false

namespace Provider

variable {ν : Type}

instance : Inhabited (Provider ν) := ⟨{}⟩

/-- Registers a node under a key, in place of any registered before. -/
def insert (p : Provider ν) (key : String) (node : ν) : Provider ν :=
  { p with nodes := p.nodes.insert key node, memo := {} }

/-- The provider with the given nodes, registered one after another. -/
def ofList (nodes : List (String × ν)) : Provider ν :=
  nodes.foldl (fun p e => p.insert e.1 e.2) {}

/-- The node of a key with the given index, and the provider that remembers the answer. -/
def lookup (p : Provider ν) (key : String) (index : KeyIndex) : Provider ν × Option ν :=
  let installed := p.memo.getOrInsert index.toUInt64 (p.nodes.get? key)
  ({ p with memo := installed.table }, installed.value)

/-- The text that shows the keys. -/
def render (p : Provider ν) : String := Text.set (p.nodes.keys.map Text.quoted)

end Provider

end RequestGraph
