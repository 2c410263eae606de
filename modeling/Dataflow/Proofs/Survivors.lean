import Mathlib.Order.Bounds.Basic
import Dataflow.Proofs.DeadCode
import Dataflow.Proofs.Reachability

/-! # What survives pruning

    What has to survive is the least choice of ops and tensors that is closed
    under need: with an op it has the tensors at its ports, and with a tensor
    the op that produces it and those that write it in place.

    Pruning looks for it with one worklist over ops and tensors.  It then
    removes tensors by another criterion, namely that they are not wired any
    more.  Both agree, because an op that survives needs all that is wired to
    it; variables are the one exception. -/

namespace Dataflow

/-- A part that belongs to the chosen ops or tensors. -/
def Part.In (ops : Set OpId) (tensors : Set TensorId) : Part → Prop
  | .op o => o ∈ ops
  | .tensor t => t ∈ tensors

namespace Graph

variable {g g' : Graph} {targets : List TensorId} {ops : Set OpId} {tensors : Set TensorId}

/-! ## Section 1: Closure under need -/

/-- Nothing that is needed is missing from `ops` and `tensors`. -/
structure ClosedUnderNeed (g : Graph) (targets : List TensorId) (ops : Set OpId)
    (tensors : Set TensorId) : Prop where
  outputs : ∀ t ∈ g.outputs, t ∈ tensors
  targets : ∀ t ∈ targets, (g.tensor? t).isSome → t ∈ tensors
  pinned : ∀ o x, g.op? o = some x → x.settings.pruneable = false → o ∈ ops
  effects : ∀ o x, g.op? o = some x → x.operator.hasSideEffect = true → o ∈ ops
  reads : ∀ o ∈ ops, ∀ i t, g.inputAt o i = some t → t ∈ tensors
  makes : ∀ o ∈ ops, ∀ i t, g.outputAt o i = some t → t ∈ tensors
  producers : ∀ t ∈ tensors, ∀ o, g.producer? t = some o → o ∈ ops
  writers : ∀ t ∈ tensors, ∀ o, g.WritesInPlace o t → o ∈ ops

theorem mem_roots_op {o : OpId} : Part.op o ∈ g.roots targets ↔
    ∃ x, g.op? o = some x ∧ (x.settings.pruneable = false ∨ x.operator.hasSideEffect = true) := by
  simp only [roots, List.mem_append, List.mem_map, List.mem_filterMap, reduceCtorEq, and_false,
    exists_false, or_false]
  constructor
  · rintro ⟨o', ⟨⟨id, x⟩, hmem, hx⟩, heq⟩
    cases heq
    simp only at hx
    split at hx
    · rename_i hkept
      cases hx
      exact ⟨x, Std.ExtTreeMap.mem_toList_iff_getElem?_eq_some.1 hmem, by simpa using hkept⟩
    · cases hx
  · rintro ⟨x, hx, hkept⟩
    refine ⟨o, ⟨(o, x), Std.ExtTreeMap.mem_toList_iff_getElem?_eq_some.2 hx, ?_⟩, rfl⟩
    rcases hkept with hkept | hkept <;> simp [hkept]

theorem mem_roots_tensor {t : TensorId} : Part.tensor t ∈ g.roots targets ↔
    (t ∈ g.outputs ∨ t ∈ targets) ∧ (g.tensor? t).isSome := by
  simp [roots, ← contains_tensors, or_and_right]

/-- A tensor needs its producer and the ops that write it in place. -/
theorem WellWired.mem_needs_tensor (h : g.WellWired) {t : TensorId} {o : OpId} :
    Part.op o ∈ g.needs (.tensor t) ↔ g.producer? t = some o ∨ g.WritesInPlace o t := by
  have hreads : g.WritesInPlace o t → o ∈ g.readers t := fun ⟨x, i, hx, hi, _⟩ =>
    h.reader_iff.2 ⟨i, inputAt_eq_some.2 ⟨x, hx, hi⟩⟩
  rw [← modifies_iff] at hreads ⊢
  cases hx : g.tensor? t with
  | none => simpa [needs, producer?, hx, readers] using hreads
  | some x =>
    simp only [readers, hx] at hreads
    simp only [needs, hx, producer?, Option.bind_some, List.mem_map, List.mem_append,
      Option.mem_toList, List.mem_filter, Part.op.injEq, exists_eq_right]
    exact or_congr_right ⟨And.right, fun hw => ⟨hreads hw, hw⟩⟩

/-- Ops and tensors take turns in what is needed. -/
theorem op_notMem_needs_op {o o' : OpId} : Part.op o ∉ g.needs (.op o') := by
  cases hx : g.op? o' <;> simp [needs, hx]

theorem tensor_notMem_needs_tensor {t t' : TensorId} :
    Part.tensor t ∉ g.needs (.tensor t') := by
  cases hx : g.tensor? t' <;> simp [needs, hx]

/-! ## Section 2: The least closed choice -/

/-- The ops that pruning finds to be needed. -/
def requiredOps (g : Graph) (targets : List TensorId) : Set OpId :=
  { o | Part.op o ∈ g.required targets }

/-- The tensors that pruning finds to be needed. -/
def requiredTensors (g : Graph) (targets : List TensorId) : Set TensorId :=
  { t | Part.tensor t ∈ g.required targets }

theorem WellWired.closedUnderNeed (h : g.WellWired) (targets : List TensorId) :
    g.ClosedUnderNeed targets (g.requiredOps targets) (g.requiredTensors targets) := by
  have hroot : ∀ {o x}, g.op? o = some x →
      (x.settings.pruneable = false ∨ x.operator.hasSideEffect = true) →
      Part.op o ∈ g.required targets := fun {o x} hx hkept =>
    h.mem_required.2 ⟨.op o, mem_roots_op.2 ⟨x, hx, hkept⟩, .refl⟩
  exact {
    outputs := fun t ht =>
      h.required_root (List.mem_append_left _ ht) (h.declared t (List.mem_append_right _ ht))
    targets := fun t ht hx => h.required_root (List.mem_append_right _ ht) hx
    pinned := fun o x hx hkept => hroot hx (.inl hkept)
    effects := fun o x hx hkept => hroot hx (.inr hkept)
    reads := fun o ho i t hi => h.required_step ho (mem_needs_op.2 (.inl ⟨i, hi⟩))
    makes := fun o ho i t hi => h.required_step ho (mem_needs_op.2 (.inr ⟨i, hi⟩))
    producers := fun t ht o hp => h.required_step ht (h.mem_needs_tensor.2 (.inl hp))
    writers := fun t ht o hw => h.required_step ht (h.mem_needs_tensor.2 (.inr hw)) }

/-- **One step of need** does not lead out of a closed choice. -/
theorem ClosedUnderNeed.step (hc : g.ClosedUnderNeed targets ops tensors) (h : g.WellWired)
    {x y : Part} (hx : x.In ops tensors) (hy : y ∈ g.needs x) : y.In ops tensors := by
  cases x with
  | op o =>
    cases y with
    | op o' => exact absurd hy op_notMem_needs_op
    | tensor t =>
      rcases mem_needs_op.1 hy with ⟨i, hi⟩ | ⟨i, hi⟩
      · exact hc.reads o hx i t hi
      · exact hc.makes o hx i t hi
  | tensor t =>
    cases y with
    | op o =>
      rcases h.mem_needs_tensor.1 hy with hp | hw
      · exact hc.producers t hx o hp
      · exact hc.writers t hx o hw
    | tensor t' => exact absurd hy tensor_notMem_needs_tensor

/-- **All that is needed** is in every closed choice. -/
theorem ClosedUnderNeed.required (hc : g.ClosedUnderNeed targets ops tensors) (h : g.WellWired)
    {x : Part} (hx : x ∈ g.required targets) : x.In ops tensors := by
  obtain ⟨r, hr, hreach⟩ := h.mem_required.1 hx
  induction hreach with
  | refl =>
    cases r with
    | op o =>
      obtain ⟨z, hz, hpinned | heffect⟩ := mem_roots_op.1 hr
      · exact hc.pinned o z hz hpinned
      · exact hc.effects o z hz heffect
    | tensor t =>
      obtain ⟨hout | htarget, hexists⟩ := mem_roots_tensor.1 hr
      · exact hc.outputs t hout
      · exact hc.targets t htarget hexists
  | tail hreach hstep ih => exact hc.step h (ih (h.mem_required.2 ⟨r, hr, hreach⟩)) hstep

/-- **The least closed choice** is what the worklist finds. -/
theorem WellWired.isLeast_required (h : g.WellWired) (targets : List TensorId) :
    IsLeast { choice : Set OpId × Set TensorId | g.ClosedUnderNeed targets choice.1 choice.2 }
      (g.requiredOps targets, g.requiredTensors targets) :=
  ⟨h.closedUnderNeed targets, fun _ hc => ⟨fun _ ho => hc.required h ho,
    fun _ ht => hc.required h ht⟩⟩

/-! ## Section 3: Exactness -/

/-- `g'` is what is left of `g` if `ops`, `tensors` and all variables stay. -/
structure PrunedTo (g : Graph) (ops : Set OpId) (tensors : Set TensorId) (g' : Graph) : Prop where
  op : ∀ o, (g'.op? o).isSome ↔ o ∈ ops
  op_same : ∀ o ∈ ops, g'.op? o = g.op? o
  tensor : ∀ t, (g'.tensor? t).isSome ↔
    (g.tensor? t).isSome ∧ (t ∈ tensors ∨ g.kind? t = some .var)
  /-- A tensor that is left has kept its kind, type, data and producer. -/
  tensor_same : ∀ t, (g'.tensor? t).isSome →
    (g'.tensor? t).map Tensor.unread = (g.tensor? t).map Tensor.unread
  producer : ∀ t o, g'.producer? t = some o → o ∈ ops
  reads : ∀ t, (g'.tensor? t).isSome → ∀ o ∈ ops, g'.readCount t o = g.readCount t o
  reads_gone : ∀ t, ∀ o ∉ ops, g'.readCount t o = 0
  constraints : ∀ e, e ∈ g'.constraints.toList ↔
    e ∈ g.constraints.toList ∧ e.before ∈ ops ∧ e.after ∈ ops
  outputs : g'.outputs = g.outputs
  /-- Declared inputs go with their tensors only. -/
  inputs : g'.inputs = g.inputs.filter fun t => (g'.tensor? t).isSome
  scope : g'.scope = g.scope
  nextOp : g'.nextOp = g.nextOp

/-- A tensor without its readers is what it is by itself, and its producer. -/
theorem unread_eq_of_unwired {t : TensorId}
    (hself : (g'.tensor? t).map Tensor.unwired = (g.tensor? t).map Tensor.unwired)
    (hproducer : g'.producer? t = g.producer? t) :
    (g'.tensor? t).map Tensor.unread = (g.tensor? t).map Tensor.unread := by
  unfold producer? at hproducer
  cases hx : g.tensor? t <;> cases hy : g'.tensor? t <;>
    simp_all [Tensor.unwired, Tensor.unread]

namespace Pruned

/-- The producer of a tensor that is left is the one it had. -/
theorem producer?_eq (h : Pruned targets g g') (hg : g.WellWired) {t : TensorId}
    (ht : (g'.tensor? t).isSome) : g'.producer? t = g.producer? t := by
  refine Option.ext fun o => ?_
  rw [h.producer?_eq_some hg]
  exact ⟨And.right, fun ho => ⟨h.producer_needed hg ht ho, ho⟩⟩

/-- An op that is needed reads what it has read before, and the others are
    not there to read anything. -/
theorem readCount_eq (h : Pruned targets g g') (hg : g.WellWired) (t : TensorId) (o : OpId) :
    g'.readCount t o = if Part.op o ∈ g.required targets then g.readCount t o else 0 := by
  -- both counts are read off the wiring of the op, which has not changed
  rw [← h.wellWired.reads, ← hg.reads]
  unfold wireCount
  rw [h.op]
  split <;> rfl

theorem survives_iff (h : Pruned targets g g') (hg : g.WellWired) (t : TensorId) :
    (g'.tensor? t).isSome ↔
      (g.tensor? t).isSome ∧ (Part.tensor t ∈ g.required targets ∨ g.kind? t = some .var) := by
  refine ⟨fun ht => ⟨?_, ?_⟩, fun ⟨hx, hkept⟩ => h.kept t hkept hx⟩
  · simpa [ht] using (congrArg Option.isSome (h.tensor t ht)).symm
  · by_cases hneed : Part.tensor t ∈ g.required targets
    · exact .inl hneed
    · -- a tensor that is left without being needed can only be a variable
      exact .inr ((h.kind ht).symm.trans (h.var_of_left hg hneed ht))

/-- **Removal agrees with need.** -/
theorem prunedTo (h : Pruned targets g g') (hg : g.WellWired) :
    g.PrunedTo (g.requiredOps targets) (g.requiredTensors targets) g' where
  op o := by
    rw [h.op]
    split
    · rename_i hneed
      have hexists : (g.op? o).isSome := mem_parts_op.1 (hg.parts_of_required hneed)
      simp [hexists, requiredOps, hneed]
    · rename_i hneed
      simp [requiredOps, hneed]
  op_same o ho := (h.op o).trans (if_pos ho)
  tensor := h.survives_iff hg
  tensor_same t ht := unread_eq_of_unwired (h.tensor t ht) (h.producer?_eq hg ht)
  producer t o ho := ((h.producer?_eq_some hg).1 ho).1
  reads t _ o ho := (h.readCount_eq hg t o).trans (if_pos ho)
  reads_gone t o ho := (h.readCount_eq hg t o).trans (if_neg ho)
  constraints := h.constraints
  outputs := h.outputs
  inputs := h.inputs
  scope := h.scope
  nextOp := h.nextOp

end Pruned

end Graph

namespace Workspace

/-- **Pruning is exact.**  In every state that can be reached and for all
    targets, a successful pruning leaves the least choice of ops and tensors
    that is closed under need, and the variables, all as they were. -/
theorem prunedTo_of_reachable {w : Workspace} (h : w.Reachable) (targets : List TensorId)
    {report : PruneReport} {g' : Graph} (hrun : Graph.prune targets w.graph = .ok report g') :
    ∃ (ops : Set OpId) (tensors : Set TensorId),
      IsLeast { choice : Set OpId × Set TensorId |
        w.graph.ClosedUnderNeed targets choice.1 choice.2 } (ops, tensors) ∧
      w.graph.PrunedTo ops tensors g' := by
  have hwired := h.sound.wellWired
  exact ⟨_, _, hwired.isLeast_required targets, (hwired.pruned hrun).prunedTo hwired⟩

/-- The output reads a variable that another op adds to in place.  Nothing
    needs the other ops, one input and a constant. -/
def accumulator : Workspace :=
  let calls : List Call := [
    .addInput "x" ⟨.f32, [2]⟩,
    .addInput "unused" ⟨.f32, [2]⟩,
    .addVar "w" ⟨.f32, [2]⟩ (Payload.zeros 8),
    .addVar "spare" ⟨.f32, [2]⟩ (Payload.zeros 8),
    .addConst "k" ⟨.f32, [2]⟩ (Payload.zeros 8),
    .createOp Builtin.relu.operator {},
    .connectInput 0 0 "x",
    .createOutput 0 0 "a",
    .createOp Builtin.accumulateInplace.operator {},
    .connectInput 1 0 "w",
    .connectInput 1 1 "x",
    .createOutput 1 0 "b",
    .createOp Builtin.relu.operator {},
    .connectInput 2 0 "w",
    .createOutput 2 0 "y",
    .createOp Builtin.relu.operator {},
    .connectInput 3 0 "a",
    .createOutput 3 0 "c",
    .addConstraint 3 2,
    .addConstraint 2 1,
    .markOutput "y"]
  calls.foldl (fun w c => c.run w) {}

theorem accumulator_prunedTo :
    ∃ report g', Graph.prune [] accumulator.graph = .ok report g' ∧
      (∃ (ops : Set OpId) (tensors : Set TensorId),
        IsLeast { choice : Set OpId × Set TensorId |
          accumulator.graph.ClosedUnderNeed [] choice.1 choice.2 } (ops, tensors) ∧
        accumulator.graph.PrunedTo ops tensors g') ∧
      g'.opIds = [1, 2] ∧ g'.tensorIds = ["b", "spare", "w", "x", "y"] ∧ g'.inputs = ["x"] ∧
      g'.constraints.toList = [⟨2, 1⟩] := by
  have hreachable : accumulator.Reachable := Reachable.run (.start "") _
  have hresult : (match Graph.prune [] accumulator.graph with
      | .ok _ g' => (g'.opIds, g'.tensorIds, g'.inputs, g'.constraints.toList)
      | .error _ _ => ([], [], [], [])) =
        ([1, 2], ["b", "spare", "w", "x", "y"], ["x"], [⟨2, 1⟩]) := by
    decide +kernel
  cases hrun : Graph.prune [] accumulator.graph with
  | error e g' =>
    rw [hrun] at hresult
    cases hresult
  | ok report g' =>
    rw [hrun] at hresult
    simp only [Prod.mk.injEq] at hresult
    exact ⟨report, g', rfl, prunedTo_of_reachable hreachable [] hrun, hresult⟩

end Workspace

end Dataflow
