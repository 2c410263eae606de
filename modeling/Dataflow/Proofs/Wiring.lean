import Mathlib.Data.List.Perm.Basic
import Mathlib.Data.List.Nodup
import Dataflow.Graph.Edit

/-! # Agreement of the two ends of a wire

    A wire is written down twice: at a port of an op, and at the tensor.  The
    predicate `Graph.WellWired` says that both records agree, and that
    constraints and declarations refer to what exists.

    Every edit of `Dataflow.Graph.Edit` keeps it, whether it succeeds or is
    refused.  The proof has three layers:

    1. what the plain updates do to the look-ups of ops and tensors;
    2. one lemma for each elementary change of the wiring;
    3. the edits, which are made of these changes. -/

namespace Dataflow

/-! ## Section 1: Ports -/

namespace Ports

theorem nodup_toList_fst (p : Ports) : (p.toList.map Prod.fst).Nodup := by
  rw [toList, Std.ExtTreeMap.map_fst_toList_eq_keys]
  exact Std.ExtTreeMap.nodup_keys

theorem nodup_indices (p : Ports) (t : TensorId) : (p.indices t).Nodup := by
  have hdistinct : (p.indices t).Pairwise fun i j => ¬ compare i j = .eq :=
    Std.ExtTreeSet.distinct_toList
  exact hdistinct.imp fun hne heq => hne (Std.compare_eq_iff_eq.2 heq)

/-- Ports that wire `t` at the same indices wire it equally often. -/
theorem length_indices_congr {p q : Ports} {t : TensorId}
    (h : ∀ i, p.get? i = some t ↔ q.get? i = some t) :
    (p.indices t).length = (q.indices t).length := by
  refine List.Perm.length_eq ((List.perm_ext_iff_of_nodup (nodup_indices p t)
    (nodup_indices q t)).2 fun i => ?_)
  rw [mem_indices, mem_indices]
  exact h i

/-- Ports that wire `t` at one more index wire it once more. -/
theorem length_indices_succ {p q : Ports} {t : TensorId} {i : Nat}
    (hp : p.get? i = some t) (hq : q.get? i ≠ some t)
    (h : ∀ j, j ≠ i → (p.get? j = some t ↔ q.get? j = some t)) :
    (p.indices t).length = (q.indices t).length + 1 := by
  have hnot : i ∉ q.indices t := fun hmem => hq (mem_indices.1 hmem)
  have hperm : (p.indices t).Perm (i :: q.indices t) := by
    refine (List.perm_ext_iff_of_nodup (nodup_indices p t)
      (List.nodup_cons.2 ⟨hnot, nodup_indices q t⟩)).2 fun j => ?_
    rw [List.mem_cons, mem_indices, mem_indices]
    by_cases hj : j = i
    · simp [hj, hp]
    · simp [hj, h j hj]
  simpa using hperm.length_eq

theorem isEmpty_iff {p : Ports} : p.isEmpty ↔ ∀ i, p.get? i = none := by
  rw [isEmpty, Std.ExtTreeMap.isEmpty_iff, Std.ExtTreeMap.eq_empty_iff_forall_not_mem]
  refine forall_congr' fun i => ?_
  rw [get?, Std.ExtTreeMap.mem_iff_isSome_getElem?]
  simp

end Ports

namespace Graph

variable {g g' : Graph}

/-! ## Section 2: Look-ups after plain updates -/

@[simp] theorem op?_modifyOp (g : Graph) (op o : OpId) (f : Op → Op) :
    (g.modifyOp op f).op? o = if o = op then (g.op? o).map f else g.op? o := by
  by_cases h : o = op
  · simp [op?, modifyOp, h]
  · have h' : ¬ op = o := fun e => h e.symm
    simp [op?, modifyOp, Std.ExtTreeMap.getElem?_modify, h, h']

@[simp] theorem tensor?_modifyOp (g : Graph) (op : OpId) (f : Op → Op) (t : TensorId) :
    (g.modifyOp op f).tensor? t = g.tensor? t := rfl

@[simp] theorem tensor?_modifyTensor (g : Graph) (id t : TensorId) (f : Tensor → Tensor) :
    (g.modifyTensor id f).tensor? t = if t = id then (g.tensor? t).map f else g.tensor? t := by
  by_cases h : t = id
  · simp [tensor?, modifyTensor, h]
  · have h' : ¬ id = t := fun e => h e.symm
    simp [tensor?, modifyTensor, Std.ExtTreeMap.getElem?_modify, h, h']

@[simp] theorem op?_modifyTensor (g : Graph) (id : TensorId) (f : Tensor → Tensor) (o : OpId) :
    (g.modifyTensor id f).op? o = g.op? o := rfl

@[simp] theorem tensor?_insertTensor (g : Graph) (id t : TensorId) (x : Tensor) :
    (g.insertTensor id x).tensor? t = if t = id then some x else g.tensor? t := by
  by_cases h : t = id
  · simp [tensor?, insertTensor, h]
  · have h' : ¬ id = t := fun e => h e.symm
    simp [tensor?, insertTensor, Std.ExtTreeMap.getElem?_insert, h, h']

@[simp] theorem op?_insertTensor (g : Graph) (id : TensorId) (x : Tensor) (o : OpId) :
    (g.insertTensor id x).op? o = g.op? o := rfl

theorem contains_tensors (g : Graph) (t : TensorId) :
    g.tensors.contains t = (g.tensor? t).isSome := by
  rw [tensor?, Std.ExtTreeMap.isSome_getElem?_eq_contains]

theorem mem_tensorIds {g : Graph} {t : TensorId} : t ∈ g.tensorIds ↔ (g.tensor? t).isSome := by
  rw [tensorIds, Std.ExtTreeMap.mem_keys, ← Std.ExtTreeMap.contains_iff_mem, contains_tensors]

theorem contains_ops (g : Graph) (o : OpId) : g.ops.contains o = (g.op? o).isSome := by
  rw [op?, Std.ExtTreeMap.isSome_getElem?_eq_contains]

theorem mem_opIds {op : OpId} : op ∈ g.opIds ↔ (g.op? op).isSome := by
  rw [opIds, Std.ExtTreeMap.mem_keys, op?, Std.ExtTreeMap.mem_iff_isSome_getElem?]

theorem nodup_opIds (g : Graph) : g.opIds.Nodup := Std.ExtTreeMap.nodup_keys

theorem requireTensor_eq_ok {t : TensorId} {x : Tensor} :
    g.requireTensor t = .ok x ↔ g.tensor? t = some x := by
  rw [requireTensor]
  cases g.tensor? t <;> simp

theorem requireOp_eq_ok {o : OpId} {x : Op} : g.requireOp o = .ok x ↔ g.op? o = some x := by
  rw [requireOp]
  cases g.op? o <;> simp

/-! ## Section 3: Wires as seen from both ends -/

/-- The tensor at input `i` of op number `o`. -/
def inputAt (g : Graph) (o : OpId) (i : Nat) : Option TensorId :=
  (g.op? o).bind fun x => x.inputs.get? i

/-- The tensor at output `i` of op number `o`. -/
def outputAt (g : Graph) (o : OpId) (i : Nat) : Option TensorId :=
  (g.op? o).bind fun x => x.outputs.get? i

/-- The number of inputs of op number `o` that are wired to `t`. -/
def wireCount (g : Graph) (o : OpId) (t : TensorId) : Nat :=
  ((g.op? o).map fun x => (x.inputs.indices t).length).getD 0

/-- How often `t` counts op number `o` among its readers. -/
def readCount (g : Graph) (t : TensorId) (o : OpId) : Nat :=
  ((g.tensor? t).map fun x => x.readers.count o).getD 0

/-- The kind of `t`, if it exists. -/
def kind? (g : Graph) (t : TensorId) : Option TensorKind := (g.tensor? t).map Tensor.kind

theorem tensor_of_kind {t : TensorId} {k : TensorKind} (h : g.kind? t = some k) :
    (g.tensor? t).isSome := by
  cases hx : g.tensor? t with
  | none => simp [kind?, hx] at h
  | some x => rfl

theorem tensor_of_producer {t : TensorId} {o : OpId} (h : g.producer? t = some o) :
    (g.tensor? t).isSome := by
  cases hx : g.tensor? t with
  | none => simp [producer?, hx] at h
  | some x => rfl

theorem wireCount_eq {o : OpId} {x : Op} (h : g.op? o = some x) (t : TensorId) :
    g.wireCount o t = (x.inputs.indices t).length := by
  simp [wireCount, h]

theorem inputAt_eq {o : OpId} {x : Op} (h : g.op? o = some x) (i : Nat) :
    g.inputAt o i = x.inputs.get? i := by
  simp [inputAt, h]

theorem outputAt_eq {o : OpId} {x : Op} (h : g.op? o = some x) (i : Nat) :
    g.outputAt o i = x.outputs.get? i := by
  simp [outputAt, h]

theorem inputAt_eq_some {o : OpId} {i : Nat} {t : TensorId} :
    g.inputAt o i = some t ↔ ∃ x, g.op? o = some x ∧ x.inputs.get? i = some t := by
  simp [inputAt, Option.bind_eq_some_iff]

theorem outputAt_eq_some {o : OpId} {i : Nat} {t : TensorId} :
    g.outputAt o i = some t ↔ ∃ x, g.op? o = some x ∧ x.outputs.get? i = some t := by
  simp [outputAt, Option.bind_eq_some_iff]

/-- The ports of an op by themselves, for ops that need not exist. -/
def inputsOf (g : Graph) (o : OpId) : Ports := ((g.op? o).map Op.inputs).getD ∅

theorem get?_inputsOf (g : Graph) (o : OpId) (i : Nat) :
    (g.inputsOf o).get? i = g.inputAt o i := by
  cases h : g.op? o <;> simp [inputsOf, inputAt, h]

theorem length_indices_inputsOf (g : Graph) (o : OpId) (t : TensorId) :
    ((g.inputsOf o).indices t).length = g.wireCount o t := by
  cases h : g.op? o with
  | some x => simp [inputsOf, wireCount, h]
  | none =>
    have hnil : (∅ : Ports).indices t = [] := by
      rw [List.eq_nil_iff_forall_not_mem]
      intro i hi
      simpa using Ports.mem_indices.1 hi
    simp [inputsOf, wireCount, h, hnil]

theorem wireCount_congr {o : OpId} {t : TensorId}
    (h : ∀ i, g'.inputAt o i = some t ↔ g.inputAt o i = some t) :
    g'.wireCount o t = g.wireCount o t := by
  rw [← length_indices_inputsOf, ← length_indices_inputsOf]
  refine Ports.length_indices_congr fun i => ?_
  rw [get?_inputsOf, get?_inputsOf]
  exact h i

theorem wireCount_succ {o : OpId} {t : TensorId} {i : Nat}
    (hg' : g'.inputAt o i = some t) (hg : g.inputAt o i ≠ some t)
    (h : ∀ j, j ≠ i → (g'.inputAt o j = some t ↔ g.inputAt o j = some t)) :
    g'.wireCount o t = g.wireCount o t + 1 := by
  rw [← length_indices_inputsOf, ← length_indices_inputsOf]
  refine Ports.length_indices_succ (i := i) ?_ ?_ fun j hj => ?_
  · rwa [get?_inputsOf]
  · rwa [get?_inputsOf]
  · rw [get?_inputsOf, get?_inputsOf]
    exact h j hj

theorem wireCount_pos {o : OpId} {t : TensorId} :
    0 < g.wireCount o t ↔ ∃ i, g.inputAt o i = some t := by
  rw [← length_indices_inputsOf, List.length_pos_iff_exists_mem]
  refine exists_congr fun i => ?_
  rw [Ports.mem_indices, get?_inputsOf]

theorem readCount_pos {o : OpId} {t : TensorId} :
    0 < g.readCount t o ↔ o ∈ g.readers t := by
  cases h : g.tensor? t with
  | none => simp [readCount, readers, h]
  | some x => simp [readCount, readers, h, Readers.mem_ops]

/-- Op number `op` reads `t` at an input that its operator writes in place. -/
def WritesInPlace (g : Graph) (op : OpId) (t : TensorId) : Prop :=
  ∃ o i, g.op? op = some o ∧ o.inputs.get? i = some t ∧ o.operator.modifies i = true

theorem modifies_iff {op : OpId} {t : TensorId} :
    g.modifies op t = true ↔ g.WritesInPlace op t := by
  cases ho : g.op? op with
  | none => simp [modifies, WritesInPlace, ho]
  | some o => simp [modifies, WritesInPlace, ho, Op.modifies, Ports.mem_indices]

/-! ## Section 4: The invariant -/

/-- The two ends of all wires agree, and nothing refers to what is not there. -/
structure WellWired (g : Graph) : Prop where
  /-- A tensor counts an op as a reader once for each input wired to it. -/
  reads : ∀ o t, g.wireCount o t = g.readCount t o
  /-- The producer of a tensor is the op that has it among its outputs. -/
  produces : ∀ t o, g.producer? t = some o ↔ ∃ i, g.outputAt o i = some t
  output_unique : ∀ o i j t, g.outputAt o i = some t → g.outputAt o j = some t → i = j
  /-- Only computed tensors have a producer. -/
  computed : ∀ t o, g.producer? t = some o → g.kind? t = some .computed
  constrained : ∀ e ∈ g.constraints.toList, (g.op? e.before).isSome ∧ (g.op? e.after).isSome
  declared : ∀ t ∈ g.inputs ++ g.outputs, (g.tensor? t).isSome
  /-- Numbers from `nextOp` on have not been given out. -/
  fresh : ∀ o, (g.op? o).isSome → o < g.nextOp

/-- There is nothing wrong where there is nothing. -/
theorem wellWired_empty (scope : String) : WellWired { scope := scope } := by
  have hop : ∀ o, op? { scope := scope } o = none := fun o => Std.ExtTreeMap.getElem?_empty
  have htensor : ∀ t, tensor? { scope := scope } t = none := fun t => Std.ExtTreeMap.getElem?_empty
  refine ⟨?_, ?_, ?_, ?_, ?_, ?_, ?_⟩
  · intro o t
    simp [wireCount, readCount, hop, htensor]
  · intro t o
    simp [producer?, outputAt, hop, htensor]
  · intro o i j t h
    simp [outputAt, hop] at h
  · intro t o h
    simp [producer?, htensor] at h
  · intro e he
    rw [Constraints.toList_empty] at he
    cases he
  · intro t ht
    cases ht
  · intro o ho
    simp [hop] at ho

namespace WellWired

theorem reader_iff (h : g.WellWired) {o : OpId} {t : TensorId} :
    o ∈ g.readers t ↔ ∃ i, g.inputAt o i = some t := by
  rw [← readCount_pos, ← h.reads, wireCount_pos]

theorem input_exists (h : g.WellWired) {o : OpId} {i : Nat} {t : TensorId}
    (hi : g.inputAt o i = some t) : ∃ x, g.tensor? t = some x := by
  have hread : o ∈ g.readers t := h.reader_iff.2 ⟨i, hi⟩
  cases hx : g.tensor? t with
  | none => simp [readers, hx] at hread
  | some x => exact ⟨x, rfl⟩

theorem output_exists (h : g.WellWired) {o : OpId} {i : Nat} {t : TensorId}
    (hi : g.outputAt o i = some t) : ∃ x, g.tensor? t = some x ∧ x.producer? = some o := by
  have hp : g.producer? t = some o := (h.produces t o).2 ⟨i, hi⟩
  simpa [producer?, Option.bind_eq_some_iff] using hp

/-- A tensor is at one output of one op. -/
theorem output_inj (h : g.WellWired) {o o' : OpId} {i j : Nat} {t : TensorId}
    (hi : g.outputAt o i = some t) (hj : g.outputAt o' j = some t) : o = o' ∧ i = j := by
  have ho : o = o' := Option.some.inj
    (((h.produces t o).2 ⟨i, hi⟩).symm.trans ((h.produces t o').2 ⟨j, hj⟩))
  subst ho
  exact ⟨rfl, h.output_unique o i j t hi hj⟩

theorem reader_exists (h : g.WellWired) {o : OpId} {t : TensorId} (ho : o ∈ g.readers t) :
    ∃ x, g.op? o = some x := by
  obtain ⟨i, hi⟩ := h.reader_iff.1 ho
  obtain ⟨x, hx, -⟩ := inputAt_eq_some.1 hi
  exact ⟨x, hx⟩

theorem producer_exists (h : g.WellWired) {o : OpId} {t : TensorId} (ho : g.producer? t = some o) :
    ∃ x, g.op? o = some x := by
  obtain ⟨i, hi⟩ := (h.produces t o).1 ho
  obtain ⟨x, hx, -⟩ := outputAt_eq_some.1 hi
  exact ⟨x, hx⟩

theorem op?_nextOp (h : g.WellWired) : g.op? g.nextOp = none := by
  cases hx : g.op? g.nextOp with
  | none => rfl
  | some x =>
    have hlt := h.fresh g.nextOp (by simp [hx])
    exact absurd hlt (Nat.lt_irrefl _)

/-- A change that leaves all wires as they are only has to answer for the rest. -/
theorem transfer (h : g.WellWired)
    (hin : ∀ o i, g'.inputAt o i = g.inputAt o i)
    (hout : ∀ o i, g'.outputAt o i = g.outputAt o i)
    (hread : ∀ t o, g'.readCount t o = g.readCount t o)
    (hprod : ∀ t, g'.producer? t = g.producer? t)
    (computed : ∀ t o, g.producer? t = some o → g'.kind? t = some .computed)
    (constrained : ∀ e ∈ g'.constraints.toList,
      (g'.op? e.before).isSome ∧ (g'.op? e.after).isSome)
    (declared : ∀ t ∈ g'.inputs ++ g'.outputs, (g'.tensor? t).isSome)
    (fresh : ∀ o, (g'.op? o).isSome → o < g'.nextOp) : g'.WellWired where
  reads o t := by
    rw [hread, ← h.reads]
    exact wireCount_congr fun i => by rw [hin]
  produces t o := by
    simp only [hprod, hout]
    exact h.produces t o
  output_unique o i j t := by
    simp only [hout]
    exact h.output_unique o i j t
  computed t o := by
    rw [hprod]
    exact computed t o
  constrained := constrained
  declared := declared
  fresh := fresh

end WellWired

/-! ## Section 5: Elementary changes of the wiring -/

/-- The same ops, tensors, constraints and declarations, whatever the wires. -/
structure SameParts (g g' : Graph) : Prop where
  op : ∀ o, (g'.op? o).isSome = (g.op? o).isSome
  kind : ∀ t, g'.kind? t = g.kind? t
  constraints : g'.constraints = g.constraints
  inputs : g'.inputs = g.inputs
  outputs : g'.outputs = g.outputs
  nextOp : g'.nextOp = g.nextOp

namespace SameParts

theorem trans {g'' : Graph} (h : SameParts g g') (h' : SameParts g' g'') : SameParts g g'' where
  op o := (h'.op o).trans (h.op o)
  kind t := (h'.kind t).trans (h.kind t)
  constraints := h'.constraints.trans h.constraints
  inputs := h'.inputs.trans h.inputs
  outputs := h'.outputs.trans h.outputs
  nextOp := h'.nextOp.trans h.nextOp

theorem tensor (h : SameParts g g') (t : TensorId) :
    (g'.tensor? t).isSome = (g.tensor? t).isSome := by
  simpa [kind?] using congrArg Option.isSome (h.kind t)

theorem modifyOp (g : Graph) (op : OpId) (f : Op → Op) : SameParts g (g.modifyOp op f) where
  op o := by
    rw [op?_modifyOp]
    split <;> simp
  kind _ := rfl
  constraints := rfl
  inputs := rfl
  outputs := rfl
  nextOp := rfl

theorem modifyTensor (g : Graph) (id : TensorId) (f : Tensor → Tensor)
    (hf : ∀ x, (f x).kind = x.kind) : SameParts g (g.modifyTensor id f) where
  op _ := rfl
  kind t := by
    simp only [kind?, tensor?_modifyTensor]
    split
    · simp [Function.comp_def, hf]
    · rfl
  constraints := rfl
  inputs := rfl
  outputs := rfl
  nextOp := rfl

end SameParts

namespace WellWired

theorem constrained_of_same (h : g.WellWired) (hs : SameParts g g') :
    ∀ e ∈ g'.constraints.toList, (g'.op? e.before).isSome ∧ (g'.op? e.after).isSome := by
  intro e he
  rw [hs.constraints] at he
  rw [hs.op, hs.op]
  exact h.constrained e he

theorem declared_of_same (h : g.WellWired) (hs : SameParts g g') :
    ∀ t ∈ g'.inputs ++ g'.outputs, (g'.tensor? t).isSome := by
  intro t ht
  rw [hs.inputs, hs.outputs] at ht
  rw [hs.tensor]
  exact h.declared t ht

theorem fresh_of_same (h : g.WellWired) (hs : SameParts g g') :
    ∀ o, (g'.op? o).isSome → o < g'.nextOp := by
  intro o ho
  rw [hs.op] at ho
  rw [hs.nextOp]
  exact h.fresh o ho

/-- **Rewiring an input**: input `index` of `op` becomes `new?`, the tensor that
    was there counts `op` once less, and the new one counts it once more. -/
theorem set_input (h : g.WellWired) (hs : SameParts g g') (op : OpId) (index : Nat)
    (new? : Option TensorId)
    (hin : ∀ o i, g'.inputAt o i = if o = op ∧ i = index then new? else g.inputAt o i)
    (hout : ∀ o i, g'.outputAt o i = g.outputAt o i)
    (hread : ∀ t o, g'.readCount t o = if o = op then
      g.readCount t o - (if g.inputAt op index = some t then 1 else 0)
        + (if new? = some t then 1 else 0) else g.readCount t o)
    (hprod : ∀ t, g'.producer? t = g.producer? t) : g'.WellWired where
  reads o t := by
    rw [hread, ← h.reads]
    by_cases ho : o = op
    · subst ho
      simp only [if_true]
      have hself : g'.inputAt o index = new? := by simp [hin]
      have hother : ∀ j, j ≠ index → (g'.inputAt o j = some t ↔ g.inputAt o j = some t) := by
        intro j hj
        simp [hin, hj]
      -- whether `t` was wired at `index` before, and whether it is now
      by_cases hold : g.inputAt o index = some t <;> by_cases hnew : new? = some t
      · have hpos : 0 < g.wireCount o t := wireCount_pos.2 ⟨index, hold⟩
        have hsame : g'.wireCount o t = g.wireCount o t := wireCount_congr fun j => by
          by_cases hj : j = index
          · simp [hj, hself, hold, hnew]
          · exact hother j hj
        simp only [hold, hnew, if_true]
        omega
      · have hless : g.wireCount o t = g'.wireCount o t + 1 :=
          wireCount_succ hold (by rwa [hself]) fun j hj => (hother j hj).symm
        simp only [hold, hnew, if_true, if_false]
        omega
      · have hmore : g'.wireCount o t = g.wireCount o t + 1 :=
          wireCount_succ (by rwa [hself]) hold hother
        simp only [hold, hnew, if_true, if_false]
        omega
      · have hsame : g'.wireCount o t = g.wireCount o t := wireCount_congr fun j => by
          by_cases hj : j = index
          · simp [hj, hself, hold, hnew]
          · exact hother j hj
        simp only [hold, hnew, if_false]
        omega
    · simp only [ho, if_false]
      exact wireCount_congr fun i => by simp [hin, ho]
  produces t o := by
    simp only [hprod, hout]
    exact h.produces t o
  output_unique o i j t := by
    simp only [hout]
    exact h.output_unique o i j t
  computed t o := by
    rw [hprod, hs.kind]
    exact h.computed t o
  constrained := h.constrained_of_same hs
  declared := h.declared_of_same hs
  fresh := h.fresh_of_same hs

/-- **Rewiring an output**: output `index` of `op` becomes `new?`, which is a
    computed tensor that nobody produces.  The tensor that was there loses its
    producer. -/
theorem set_output (h : g.WellWired) (hs : SameParts g g') (op : OpId) (index : Nat)
    (new? : Option TensorId)
    (hfree : ∀ t, new? = some t → g.producer? t = none ∧ g.kind? t = some .computed)
    (hin : ∀ o i, g'.inputAt o i = g.inputAt o i)
    (hout : ∀ o i, g'.outputAt o i = if o = op ∧ i = index then new? else g.outputAt o i)
    (hread : ∀ t o, g'.readCount t o = g.readCount t o)
    (hprod : ∀ t, g'.producer? t = if new? = some t then some op
      else if g.outputAt op index = some t then none else g.producer? t) : g'.WellWired := by
  -- a tensor that nobody produces is at no output
  have hnot : ∀ t, new? = some t → ∀ o i, g.outputAt o i ≠ some t := by
    intro t ht o i hi
    have hp := (h.produces t o).2 ⟨i, hi⟩
    rw [(hfree t ht).1] at hp
    cases hp
  refine ⟨?_, ?_, ?_, ?_, h.constrained_of_same hs, h.declared_of_same hs, h.fresh_of_same hs⟩
  · intro o t
    rw [hread, ← h.reads]
    exact wireCount_congr fun i => by rw [hin]
  · -- the new tensor is produced by `op`, the old one by nobody, the rest as before
    intro t o
    rw [hprod]
    by_cases hnew : new? = some t
    · simp only [hnew, if_true, Option.some.injEq]
      constructor
      · rintro rfl
        exact ⟨index, by simp [hout, hnew]⟩
      · rintro ⟨i, hi⟩
        rw [hout] at hi
        split at hi
        · rename_i hoi
          exact hoi.1.symm
        · exact absurd hi (hnot t hnew o i)
    · simp only [hnew, if_false]
      by_cases hold : g.outputAt op index = some t
      · simp only [hold, if_true]
        constructor
        · intro hn
          cases hn
        · rintro ⟨i, hi⟩
          rw [hout] at hi
          split at hi
          · exact absurd hi hnew
          · -- another wire to `t` would have been the one at `index`
            rename_i hoi
            have ho : o = op := Option.some.inj
              (((h.produces t o).2 ⟨i, hi⟩).symm.trans ((h.produces t op).2 ⟨index, hold⟩))
            subst ho
            exact absurd ⟨rfl, h.output_unique o i index t hi hold⟩ hoi
      · simp only [hold, if_false]
        rw [h.produces]
        refine exists_congr fun i => ?_
        rw [hout]
        split
        · rename_i hoi
          obtain ⟨rfl, rfl⟩ := hoi
          simp [hold, hnew]
        · rfl
  · -- the new tensor was at no output before, so its wire stays the only one
    intro o i j t hi hj
    rw [hout] at hi hj
    split at hi <;> split at hj
    · rename_i hoi hoj
      rw [hoi.2, hoj.2]
    · exact absurd hj (hnot t hi o j)
    · exact absurd hi (hnot t hj o i)
    · exact h.output_unique o i j t hi hj
  · intro t o hp
    rw [hprod] at hp
    rw [hs.kind]
    split at hp
    · rename_i hnew
      exact (hfree t hnew).2
    · split at hp
      · cases hp
      · exact h.computed t o hp

end WellWired

end Graph

end Dataflow
