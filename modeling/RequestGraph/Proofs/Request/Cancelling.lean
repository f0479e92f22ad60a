import RequestGraph.Proofs.Engine.Calm
import RequestGraph.Proofs.Engine.Contexts

/-!
# What a cancellation leaves

A cancellation closes the context and goes through the cells of its ledger. Each of them is realized already,
or is offered an error, which it can only refuse if somebody owns it. Whatever the listeners do meanwhile, a
cell that was settled stays settled, and the ledger does not grow any more. So when a cancellation comes back,
every cell of the ledger is realized or owned.
-/

namespace RequestGraph

/-- A cell is realized or owned. -/
def World.Settled (w : World) (c : CellId) : Prop :=
  (w.cell c).isRealized = true ∨ (w.cell c).isClaimed = true

namespace Machine

variable {m : Machine} {c : CellId}

/-- What is settled stays settled at every step. -/
theorem step_settled (sound : m.world.Sound) (h : m.world.Settled c) : m.step.world.Settled c := by
  rcases h with hr | ho
  · exact .inl (isRealized_step sound hr)
  · obtain ⟨t, ht⟩ := Option.isSome_iff_exists.mp ho
    refine .inr ?_
    show (m.step.world.cell c).owner.isSome = true
    rw [(step_cell sound c).owner ht]
    rfl

end Machine

namespace World

variable {w w' : World} {c : CellId} {r : Result}

/-- What is settled stays settled during a call. -/
theorem Performs.settled {call : Call} {e : Control} (h : w.Performs call w' e) (sound : w.Sound)
    (hc : w.Settled c) : w'.Settled c := by
  obtain ⟨-, n, hn⟩ := h
  have kept (n : ℕ) (m : Machine) (sound : m.world.Sound) (hc : m.world.Settled c) :
      (m.iterate n).world.Settled c := by
    induction n generalizing m with
    | zero => exact hc
    | succ n ih => exact ih m.step (Machine.step_sound sound) (Machine.step_settled sound hc)
  have := kept n ⟨w, .call call, []⟩ sound hc
  rwa [hn] at this

/-- What is there stays there during a call. -/
theorem Performs.size_cells {call : Call} {e : Control} (h : w.Performs call w' e)
    (sound : w.Sound) (tables : w.TablesSound) (there : c < w.cells.size) : c < w'.cells.size :=
  h.kept (P := fun w => c < w.cells.size) sound tables there fun hs _ hc =>
    Nat.lt_of_lt_of_le hc (Machine.size_step hs)

/-- A completion in nobody's name leaves a cell that is realized or owned. -/
theorem settled_of_complete (sound : w.Sound) (there : c < w.cells.size) {o : Outcome}
    (h : w.Performs (.complete c o .unowned) w' (.ret r)) : w'.Settled c := by
  cases hrefusal : w.refusal? c .unowned with
  | none =>
      have hinvoke := complete_of_accepted (o := o) sound hrefusal
      rw [performs_tail hinvoke] at h
      refine h.settled (sound.setCell c (Cell.sound_completed _ o)) ?_
      refine .inl ?_
      rw [cell_setCell_self there, Cell.isRealized_completed]
  | some v =>
      obtain ⟨rfl, -⟩ := (performs_end (complete_of_refusal (o := o) sound hrefusal) rfl).mp h
      unfold refusal? at hrefusal
      split at hrefusal
      · next hr => exact .inl hr
      · -- The cell is pending, so it was refused because of its owner.
        right
        show (w'.cell c).owner.isSome = true
        cases ho : (w'.cell c).owner with
        | some t => rfl
        | none =>
            rw [ho] at hrefusal
            cases hrefusal

/-- A sweep settles every cell of its ledger, by induction on the ledger. -/
theorem settled_of_sweep {ledger : List (KeyIndex × CellId)} {cause : Option Error}
    (sound : w.Sound) (tables : w.TablesSound) (there : ∀ e ∈ ledger, e.2 < w.cells.size)
    (h : w.Performs (.sweep ledger cause) w' (.ret r)) : ∀ e ∈ ledger, w'.Settled e.2 := by
  induction ledger generalizing w with
  | nil => exact nofun
  | cons entry rest ih =>
      obtain ⟨index, c⟩ := entry
      have there_rest : ∀ e ∈ rest, e.2 < w.cells.size := fun e he =>
        there e (List.mem_cons_of_mem _ he)
      cases hr : (w.cell c).isRealized with
      | true =>
          have hinvoke : w.invoke (.sweep ((index, c) :: rest) cause) =
              w.call (.sweep rest cause) := if_pos hr
          rw [performs_tail hinvoke] at h
          intro e he
          rcases List.mem_cons.mp he with rfl | he
          · exact h.settled sound (.inl hr)
          · exact ih sound tables there_rest h e he
      -- A pending cell is offered the cancellation. What its listeners do meanwhile leaves it settled.
      | false =>
          have hinvoke : w.invoke (.sweep ((index, c) :: rest) cause) =
              w.call (.complete c (.error (.cancelled cause)) .unowned) [.sweeping rest cause] :=
            if_neg (Bool.not_eq_true _ ▸ hr)
          obtain ⟨w₁, e₁, hcomplete, hends⟩ := (performs_call hinvoke).mp h
          rw [Machine.ends_iff_step] at hends
          cases e₁ with
          | call _ => exact nomatch hcomplete.1
          | raise p => cases (Machine.ends_of_atRest rfl).mp hends
          | ret r₁ =>
              have hrest : w₁.Performs (.sweep rest cause) w' (.ret r) := hends
              obtain ⟨sound₁, tables₁⟩ := hcomplete.sound sound tables
              intro e he
              rcases List.mem_cons.mp he with rfl | he
              · apply hrest.settled sound₁
                exact settled_of_complete sound (there _ List.mem_cons_self) hcomplete
              · exact ih sound₁ tables₁
                  (fun e he => hcomplete.size_cells sound tables (there_rest e he)) hrest e he

/-- A context that is closed where it is reads as closed. -/
theorem context_setContext_frozen {k : ContextId} (opened : k < w.contexts.size) :
    (w.setContext k (w.context k).frozen).context k = (w.context k).frozen :=
  Arena.get_set_self opened

/-- Closing a context keeps all tables sound. -/
theorem TablesSound.setContext_frozen (tables : w.TablesSound) (k : ContextId) :
    (w.setContext k (w.context k).frozen).TablesSound where
  keys := tables.keys
  contexts j := by
    show ((w.contexts.set k _).get j).Sound
    rw [Arena.get_set]
    split
    · exact (tables.contexts k).frozen
    · exact tables.contexts j

/-- A cancellation closes the context and sweeps its ledger. -/
theorem invoke_cancel (tables : w.TablesSound) (k : ContextId) (cause : Option Error) :
    w.invoke (.cancel k cause) =
      (w.setContext k (w.context k).frozen).call (.sweep (w.context k).ledger.toList cause) := by
  show w.cancel k cause = _
  rw [cancel, (tables.contexts k).read?_frozen]

/-- When a cancellation comes back, its context is closed, and every cell of the ledger is realized or
owned. -/
theorem settled_of_cancel {k : ContextId} {cause : Option Error} (sound : w.Sound)
    (tables : w.TablesSound) (opened : k < w.contexts.size)
    (there : ∀ e ∈ (w.context k).ledger.toList, e.2 < w.cells.size)
    (h : w.Performs (.cancel k cause) w' (.ret r)) :
    (w'.context k).isFrozen = true ∧ ∀ e ∈ (w'.context k).ledger.toList, w'.Settled e.2 := by
  have hk := tables.contexts k
  have tables₁ := tables.setContext_frozen k
  have hcontext := context_setContext_frozen opened
  rw [performs_tail (invoke_cancel tables k cause)] at h
  obtain ⟨hfrozen, hledger⟩ := h.kept (P := fun w' => (w'.context k).isFrozen = true ∧
      (w'.context k).ledger.toList = (w.context k).ledger.toList) sound tables₁
    (by
      rw [hcontext]
      exact ⟨hk.isFrozen_frozen, hk.toList_frozen⟩)
    fun {x} hs ht hx => by
      obtain ⟨hfrozen, hledger⟩ := (Machine.step_context hs ht k).isFrozen (ht.contexts k) hx.1
      exact ⟨hfrozen, hledger.trans hx.2⟩
  refine ⟨hfrozen, ?_⟩
  rw [hledger]
  exact settled_of_sweep (w := w.setContext k _) sound tables₁ there h

/-- A cancellation does not break off as long as the sink returns. -/
theorem cancel_not_raise {k : ContextId} {cause : Option Error} {p : Panic} (sound : w.Sound)
    (tables : w.TablesSound) {n : ℕ}
    (sink : ∀ i < n, ((⟨w, .call (.cancel k cause), []⟩ : Machine).iterate i).SinkReturns) :
    (⟨w, .call (.cancel k cause), []⟩ : Machine).iterate n ≠ ⟨w', .raise p, []⟩ := by
  cases n with
  | zero => exact fun h => nomatch congrArg Machine.control h
  | succ n =>
      have hstep : (⟨w, .call (.cancel k cause), []⟩ : Machine).step =
          ⟨w.setContext k (w.context k).frozen,
            .call (.sweep (w.context k).ledger.toList cause), []⟩ := by
        show Machine.ofMove (w.invoke (.cancel k cause)) [] = _
        rw [invoke_cancel tables]
        rfl
      rw [Machine.iterate, hstep]
      apply Machine.calm_not_raise (w := w.setContext k _) sound rfl
      intro i hi
      have := sink (i + 1) (Nat.succ_lt_succ hi)
      rwa [Machine.iterate, hstep] at this

end World

/-! ## A cancellation in its course

A cancellation is a call with frames of its own above those of whoever has asked for it. Until it comes back
it is somewhere in its sweep, also while listeners run.
-/

namespace Machine

/-- A machine that does nothing but cancel a context, some steps after it began. -/
inductive Cancelling (k : ContextId) (cause : Option Error) : Machine → Prop
  | mk {w : World} {n : ℕ} (sound : w.Sound) (tables : w.TablesSound)
      (opened : k < w.contexts.size)
      (there : ∀ e ∈ (w.context k).ledger.toList, e.2 < w.cells.size)
      (sink : ∀ i < n, ((⟨w, .call (.cancel k cause), []⟩ : Machine).iterate i).SinkReturns) :
      Cancelling k cause ((⟨w, .call (.cancel k cause), []⟩ : Machine).iterate n)

variable {m : Machine} {k : ContextId} {cause : Option Error}

/-- A cancellation stays in its course at every step, if the sink returns. -/
theorem Cancelling.step (h : m.Cancelling k cause) (sink : m.SinkReturns) :
    m.step.Cancelling k cause := by
  cases h with
  | @mk w n sound tables opened there sinks =>
      have hstep : ((⟨w, .call (.cancel k cause), []⟩ : Machine).iterate n).step =
          (⟨w, .call (.cancel k cause), []⟩ : Machine).iterate (n + 1) := by
        rw [iterate_add]
        rfl
      rw [hstep]
      refine .mk sound tables opened there fun i hi => ?_
      rcases Nat.lt_succ_iff_lt_or_eq.mp hi with hi | rfl
      · exact sinks i hi
      · exact sink

/-- A cancellation comes back, and leaves the context closed, with every cell settled. -/
theorem Cancelling.of_atRest (h : m.Cancelling k cause) (rest : m.atRest = true) :
    (∃ result, m = ⟨m.world, .ret result, []⟩) ∧ (m.world.context k).isFrozen = true ∧
      ∀ e ∈ (m.world.context k).ledger.toList, m.world.Settled e.2 := by
  cases h with
  | @mk w n sound tables opened there sink =>
      generalize hm : (⟨w, .call (.cancel k cause), []⟩ : Machine).iterate n = m at rest
      obtain ⟨hcontrol, hstack⟩ := atRest_iff.mp rest
      obtain ⟨w', control, stack⟩ := m
      obtain rfl : stack = [] := hstack
      cases control with
      | call _ => cases hcontrol
      | raise p => exact absurd hm (World.cancel_not_raise sound tables sink)
      | ret result =>
          have hperforms : w.Performs (.cancel k cause) w' (.ret result) := ⟨rfl, n, hm⟩
          exact ⟨⟨result, rfl⟩, World.settled_of_cancel sound tables opened there hperforms⟩

end Machine

end RequestGraph
