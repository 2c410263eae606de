import Dataflow.Proofs.Closure
import Dataflow.Proofs.Layering
import Dataflow.Proofs.Planning

/-! # Graphs without cycles

    In a layered graph the order among the ops has no cycle.  Putting readers
    ahead of a writer makes none either, because only readers that the writer
    does not lead to are put ahead.

    That a graph without a cycle has a schedule is the subject of
    `Dataflow.Proofs.Cycles`. -/

namespace Dataflow

/-! ## Section 1: Relations without cycles -/

/-- A relation that only leads upwards has no cycle. -/
theorem acyclic_of_lt {r : Nat → Nat → Prop} (h : ∀ u v, r u v → u < v) : Acyclic r := by
  have hlt : ∀ u v, Relation.TransGen r u v → u < v := by
    intro u v huv
    induction huv with
    | single hstep => exact h _ _ hstep
    | tail _ hstep ih => exact Nat.lt_trans ih (h _ _ hstep)
  exact fun x hx => Nat.lt_irrefl x (hlt x x hx)

/-- A relation that maps into one without cycles has none. -/
theorem Acyclic.comap {α β : Type} {r : α → α → Prop} {s : β → β → Prop} (h : Acyclic s)
    (f : α → β) (hf : ∀ u v, r u v → s (f u) (f v)) : Acyclic r :=
  fun x hx => h (f x) (hx.lift f hf)

/-- **New steps into one point** close no cycle if that point does not lead to
    where they start. -/
theorem Acyclic.into {α : Type} {r : α → α → Prop} (h : Acyclic r) {w : α} {S : α → Prop}
    (hS : ∀ x, S x → ¬ Relation.ReflTransGen r w x) :
    Acyclic fun u v => r u v ∨ (S u ∧ v = w) := by
  -- a path either is an old one, or goes through `w` last
  have hpath : ∀ x y, Relation.TransGen (fun u v => r u v ∨ (S u ∧ v = w)) x y →
      Relation.TransGen r x y ∨
        ∃ s, S s ∧ Relation.ReflTransGen r x s ∧ Relation.ReflTransGen r w y := by
    intro x y hxy
    induction hxy with
    | single hstep =>
      rcases hstep with hstep | ⟨hs, rfl⟩
      · exact .inl (.single hstep)
      · exact .inr ⟨x, hs, .refl, .refl⟩
    | tail _ hstep ih =>
      rcases hstep with hstep | ⟨hs, rfl⟩
      · rcases ih with hold | ⟨s, hs, hxs, hwy⟩
        · exact .inl (hold.tail hstep)
        · exact .inr ⟨s, hs, hxs, hwy.tail hstep⟩
      · rcases ih with hold | ⟨s, hs', hxs, hwy⟩
        · exact .inr ⟨_, hs, hold.to_reflTransGen, .refl⟩
        · exact absurd hwy (hS _ hs)
  intro x hx
  rcases hpath x x hx with hold | ⟨s, hs, hxs, hwx⟩
  · exact h x hold
  · exact hS s hs (hwx.trans hxs)

namespace Graph

variable {g : Graph}

/-! ## Section 2: The order among the ops -/

/-- Op number `u` has to precede op number `v`. -/
def Orders (g : Graph) (u v : OpId) : Prop := v ∈ g.successors u

/-- Op number `v` is among the ops that the edge map lists after `u`. -/
def RunsBefore (g : Graph) (u v : OpId) : Prop := ∃ later, (u, later) ∈ g.edgeMap ∧ v ∈ later

/-- The edge map shows the whole order. -/
theorem WellWired.runsBefore_eq (h : g.WellWired) : g.RunsBefore = g.Orders := by
  funext u v
  refine propext ⟨?_, fun huv => ?_⟩
  · rintro ⟨later, hmem, hv⟩
    obtain ⟨op, -, heq⟩ := List.mem_map.1 hmem
    cases heq
    exact Std.ExtTreeSet.mem_toList.1 hv
  · exact ⟨_, List.mem_map.2 ⟨u, mem_opIds.2 (h.predecessor_exists huv), rfl⟩,
      Std.ExtTreeSet.mem_toList.2 huv⟩

theorem Layered.acyclic (h : g.Layered) : Acyclic g.Orders := by
  refine acyclic_of_lt fun u v huv => ?_
  rcases mem_successors.1 huv with hdata | hcon
  · obtain ⟨-, i, t, hi, hr⟩ := mem_dataSuccessors.1 hdata
    obtain ⟨j, hj⟩ := h.wellWired.reader_iff.1 hr
    exact h.forward v j t u hj ((h.wellWired.produces t u).2 ⟨i, hi⟩)
  · rw [h.unconstrained] at hcon
    cases hcon

/-- What an op leads to in one or more steps. -/
theorem WellWired.mem_downstream (h : g.WellWired) {u v : OpId} :
    v ∈ g.downstream u ↔ Relation.TransGen g.Orders u v := by
  have hstep : ∀ (u v : OpId), v ∈ (g.successors u).toList → v ∈ g.opIds := fun u v huv =>
    mem_opIds.2 (h.successor_exists (Std.ExtTreeSet.mem_toList.1 huv))
  have hbound : g.opIds.length ≤ g.opCount := by simp [opIds, opCount]
  unfold downstream
  rw [mem_closure (fun u _ v => hstep u v) (hstep u) hbound]
  have hreach : ∀ s, Reaches (fun o => (g.successors o).toList) s v ↔
      Relation.ReflTransGen g.Orders s v := by
    intro s
    unfold Reaches Orders
    simp only [Std.ExtTreeSet.mem_toList]
  simp only [hreach, Std.ExtTreeSet.mem_toList]
  exact (Relation.TransGen.head'_iff (r := g.Orders)).symm

/-- The constraints after readers were put ahead of a writer. -/
theorem mem_constraints_putAhead {readers : List OpId} {writer : OpId} {e : Edge} :
    e ∈ (g.putAhead readers writer).constraints.toList ↔
      e ∈ g.constraints.toList ∨ (e.before ∈ readers ∧ e.after = writer ∧ e.before ≠ writer) := by
  show e ∈ (readers.foldl (fun c r => c.insert r writer) g.constraints).toList ↔ _
  generalize g.constraints = c
  induction readers generalizing c with
  | nil => simp
  | cons r rest ih =>
    obtain ⟨before, after⟩ := e
    simp only [List.foldl_cons, ih, Constraints.mem_toList_insert, Edge.mk.injEq, List.mem_cons]
    grind

/-- Putting readers ahead of a writer adds just that to the order. -/
theorem orders_putAhead {readers : List OpId} {writer u v : OpId}
    (h : (g.putAhead readers writer).Orders u v) :
    g.Orders u v ∨ (u ∈ readers ∧ v = writer) := by
  rcases mem_successors.1 h with hdata | hcon
  · exact .inl (mem_successors.2 (.inl hdata))
  · rcases mem_constraints_putAhead.1 hcon with hold | ⟨hu, hv, -⟩
    · exact .inl (mem_successors.2 (.inr hold))
    · exact .inr ⟨hu, hv⟩

/-- **One writer**: the readers that are put ahead of it close no cycle. -/
theorem acyclic_putAhead (hg : g.WellWired) (h : Acyclic g.Orders) (writer : OpId)
    (tensor : TensorId) :
    Acyclic (g.putAhead (g.unorderedReaders writer tensor) writer).Orders := by
  have hfree : ∀ r, r ∈ g.unorderedReaders writer tensor →
      ¬ Relation.ReflTransGen g.Orders writer r := by
    intro r hr hreach
    have hcond := (List.mem_filter.1 hr).2
    simp only [Bool.and_eq_true, decide_eq_true_eq, Bool.not_eq_true', List.contains_eq_mem,
      decide_eq_false_iff_not] at hcond
    obtain ⟨⟨⟨hne, hdown⟩, -⟩, -⟩ := hcond
    rcases Relation.reflTransGen_iff_eq_or_transGen.1 hreach with heq | htrans
    · exact hne heq
    · exact hdown (hg.mem_downstream.2 htrans)
  exact (h.into hfree).comap id fun u v huv => orders_putAhead huv

/-- **Ordering the writers** changes constraints only, and closes no cycle. -/
theorem acyclic_orderWriters (hg : g.WellWired) (h : Acyclic g.Orders) :
    (∃ constraints, g.orderWriters.2 = { g with constraints := constraints }) ∧
      Acyclic g.orderWriters.2.Orders := by
  -- the graph in between is well wired, so that its downstream ops are known
  have hend := Edit.orderWriters_induction (g := g)
    (P := fun s => s.WellWired ∧ (∃ constraints, s = { g with constraints := constraints }) ∧
      Acyclic s.Orders) ⟨hg, ⟨g.constraints, rfl⟩, h⟩ ?_
  · exact hend.2
  · rintro s writer tensor hmem ⟨hs, ⟨constraints, rfl⟩, hac⟩
    obtain ⟨o, ho, -⟩ := Edit.mem_writes hmem
    have hwriter : (op? { g with constraints := constraints } writer).isSome := by
      show (g.op? writer).isSome
      simp [ho]
    exact ⟨Edit.putAhead_unordered_wellWired hs hwriter tensor, ⟨_, rfl⟩,
      acyclic_putAhead hs hac writer tensor⟩

end Graph

end Dataflow
