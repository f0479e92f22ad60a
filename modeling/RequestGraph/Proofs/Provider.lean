import RequestGraph.Proofs.Ledger

/-!
# What a provider remembers

The memo of a provider is asked by index, and its nodes by key. As long as every key is asked for with its own
index, the memo answers what the nodes would answer, misses included:

    (p.lookup k i).2 = p.nodes.get? k    if i is the index of k
-/

namespace RequestGraph.Provider

variable {ν : Type} {p : Provider ν} {registry registry' : List String} {key : String}
  {index : KeyIndex}

theorem nodes_ofList (nodes : List (String × ν)) : (ofList nodes).nodes = .ofList nodes := by
  suffices ∀ p : Provider ν, (nodes.foldl (fun p e => p.insert e.1 e.2) p).nodes =
      nodes.foldl (fun m e => m.insert e.1 e.2) p.nodes from this {}
  induction nodes with
  | nil => exact fun _ => rfl
  | cons e rest ih => exact fun p => ih (p.insert e.1 e.2)

/-- The memo of a provider answers as its nodes do, for keys with the given indices. -/
structure Faithful (p : Provider ν) (registry : List String) : Prop where
  sound : p.memo.Sound
  answers : ∀ (index : KeyIndex) node, p.memo.lookup index.toUInt64 = some node →
    ∃ key, registry[index.toNat]? = some key ∧ node = p.nodes.get? key

/-- A provider that nobody has asked remembers nothing. -/
theorem faithful_blank (blank : p.memo = {}) (registry : List String) : p.Faithful registry where
  sound := blank ▸ SlotTable.sound_blank
  answers index node h := by
    rw [blank, SlotTable.lookup_blank] at h
    cases h

theorem Faithful.mono (h : p.Faithful registry)
    (keeps : ∀ {i : ℕ} {key : String}, registry[i]? = some key → registry'[i]? = some key) :
    p.Faithful registry' := by
  refine ⟨h.sound, fun index node hnode => ?_⟩
  obtain ⟨key, hkey, heq⟩ := h.answers index node hnode
  exact ⟨key, keeps hkey, heq⟩

/-- Looking up a key with its index gives its node, whether or not that is remembered. -/
theorem Faithful.snd_lookup (h : p.Faithful registry) (hkey : registry[index.toNat]? = some key) :
    (p.lookup key index).2 = p.nodes.get? key := by
  refine (SlotTable.getOrInsert_eq h.sound (Context.addressable index) _).1.trans ?_
  cases hmemo : p.memo.lookup index.toUInt64 with
  | none => rfl
  | some node =>
      obtain ⟨other, hother, heq⟩ := h.answers index node hmemo
      rw [Option.some.inj (hother.symm.trans hkey)] at heq
      exact heq

/-- Looking up a key with its index makes the provider remember the answer. -/
theorem Faithful.fst_lookup (h : p.Faithful registry) (hkey : registry[index.toNat]? = some key) :
    (p.lookup key index).1.Faithful registry := by
  obtain ⟨hvalue, -, hsound, hlookup⟩ := SlotTable.getOrInsert_eq h.sound
    (Context.addressable index) (p.nodes.get? key)
  refine ⟨hsound, fun i node hi => ?_⟩
  have hi : (if index.toUInt64 = i.toUInt64 then some _ else _) = some node :=
    (hlookup i.toUInt64).symm.trans hi
  split at hi
  · next heq =>
      have heq : index = i := UInt32.toUInt64_inj.mp heq
      refine ⟨key, heq ▸ hkey, (Option.some.inj hi).symm.trans ?_⟩
      exact hvalue.symm.trans (h.snd_lookup hkey)
  · exact h.answers i node hi

end RequestGraph.Provider
