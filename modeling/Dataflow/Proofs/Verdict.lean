import Mathlib.Data.Set.Card
import Dataflow.Proofs.Consistency

/-! # The verdict of the consistency check

    `Graph.Consistent` says what it means for the two ends of all wires to
    agree, as a property of any graph: ops, tensors and declarations may have
    been tampered with at will.  Only the two sides of a table of ports or of
    constraints cannot disagree, by their type.  The check passes exactly if it
    holds.

    The check looks at a wire from the op, where it compares counts, and at a
    reader from the tensor, where it only asks whether there is a wire at all.
    Neither side is enough.  Where an op has no wire to a tensor the ports say
    nothing, and the count has to be zero because every reader is backed by a
    wire; where it has one the ports have compared the counts already. -/

namespace Dataflow

namespace Graph

variable {g : Graph} {op : OpId} {o : Op} {tensor : TensorId} {t : Tensor}

/-! ## Section 1: Consistency -/

/-- The two ends of all wires agree, computed tensors come from somewhere, and
    constraints and declarations refer to what exists.  Ops and tensors that do
    not exist count as having no wires. -/
structure Consistent (g : Graph) : Prop where
  /-- A tensor counts an op once for each input of the op that is wired to it. -/
  reads : ∀ op tensor, Set.ncard {i | g.inputAt op i = some tensor} = g.readCount tensor op
  wired : ∀ op i tensor, g.inputAt op i = some tensor ∨ g.outputAt op i = some tensor →
    (g.tensor? tensor).isSome
  /-- A tensor names an op as its producer exactly if the op is there and has
      the tensor at an output. -/
  produces : ∀ tensor op, g.producer? tensor = some op ↔
    ∃ o, g.op? op = some o ∧ ∃ i, o.outputs.get? i = some tensor
  sourced : ∀ tensor, g.kind? tensor = some .computed → g.producer? tensor = none →
    tensor ∈ g.inputs
  constrained : ∀ e ∈ g.constraints.toList, (g.op? e.before).isSome ∧ (g.op? e.after).isSome
  declared : ∀ tensor, tensor ∈ g.inputs ∨ tensor ∈ g.outputs → (g.tensor? tensor).isSome

/-- The number of wires is the number of the inputs that are wired. -/
theorem wireCount_eq_ncard (g : Graph) (op : OpId) (tensor : TensorId) :
    g.wireCount op tensor = Set.ncard {i | g.inputAt op i = some tensor} := by
  have hset : {i | g.inputAt op i = some tensor} =
      (((g.inputsOf op).indices tensor).toFinset : Set Nat) := by
    ext i
    rw [List.coe_toFinset, Set.mem_ofPred_eq, Set.mem_ofPred_eq, Ports.mem_indices, get?_inputsOf]
  rw [hset, Set.ncard_coe_finset, List.toFinset_card_of_nodup (Ports.nodup_indices _ _),
    length_indices_inputsOf]

/-! ## Section 2: What each test asks -/

theorem readCount_eq (ht : g.tensor? tensor = some t) (op : OpId) :
    g.readCount tensor op = t.readers.count op := by
  simp [readCount, ht]

theorem checkInput_eq_ok (ho : g.op? op = some o) : g.checkInput op o tensor = .ok () ↔
    (g.tensor? tensor).isSome ∧ g.wireCount op tensor = g.readCount tensor op := by
  unfold checkInput
  cases ht : g.tensor? tensor with
  | none => simp
  | some t =>
    rw [wireCount_eq ho, readCount_eq ht]
    simp

theorem checkOutput_eq_ok :
    g.checkOutput op tensor = .ok () ↔ g.producer? tensor = some op := by
  unfold checkOutput producer?
  cases g.tensor? tensor <;> simp

theorem readsTensor_iff : g.readsTensor op tensor = true ↔ ∃ i, g.inputAt op i = some tensor := by
  unfold readsTensor
  cases ho : g.op? op with
  | none => simp [inputAt, ho]
  | some o =>
    show o.inputs.contains tensor = true ↔ _
    rw [Ports.contains_iff]
    simp [inputAt, ho]

theorem writesTensor_iff :
    g.writesTensor op tensor = true ↔ ∃ i, g.outputAt op i = some tensor := by
  unfold writesTensor
  cases ho : g.op? op with
  | none => simp [outputAt, ho]
  | some o =>
    show o.outputs.contains tensor = true ↔ _
    rw [Ports.contains_iff]
    simp [outputAt, ho]

theorem checkProducer_eq_ok (ht : g.tensor? tensor = some t) :
    g.checkProducer tensor t = .ok () ↔
      (∀ op, g.producer? tensor = some op → ∃ i, g.outputAt op i = some tensor) ∧
      (g.kind? tensor = some .computed → g.producer? tensor = none → tensor ∈ g.inputs) := by
  have hproducer : g.producer? tensor = t.producer? := by simp [producer?, ht]
  have hkind : g.kind? tensor = some t.kind := by simp [kind?, ht]
  unfold checkProducer
  rw [hproducer, hkind]
  cases t.producer? with
  | none => by_cases hcomputed : t.kind = .computed <;> simp [hcomputed]
  | some op => simp [← writesTensor_iff]

/-! ## Section 3: The ports of an op, and the back references of a tensor -/

/-- **The ports of an op** pass if each of their wires is known at its tensor. -/
theorem checkOp_eq_ok (ho : g.op? op = some o) : g.checkOp op o = .ok () ↔
    (∀ i tensor, g.inputAt op i = some tensor →
      (g.tensor? tensor).isSome ∧ g.wireCount op tensor = g.readCount tensor op) ∧
    (∀ i tensor, g.outputAt op i = some tensor → g.producer? tensor = some op) := by
  unfold checkOp
  rw [except_then_eq_ok, except_forM_eq_ok, except_forM_eq_ok]
  simp only [Prod.forall, Ports.mem_toList, checkInput_eq_ok ho, checkOutput_eq_ok,
    inputAt_eq ho, outputAt_eq ho]

/-- **The back references of a tensor** pass if each of them is backed by a
    wire, and one is there if the tensor cannot do without. -/
theorem checkTensor_eq_ok (ht : g.tensor? tensor = some t) : g.checkTensor tensor t = .ok () ↔
    ((∀ op, g.producer? tensor = some op → ∃ i, g.outputAt op i = some tensor) ∧
      (g.kind? tensor = some .computed → g.producer? tensor = none → tensor ∈ g.inputs)) ∧
    ∀ op, 0 < g.readCount tensor op → ∃ i, g.inputAt op i = some tensor := by
  unfold checkTensor
  rw [except_then_eq_ok, except_forM_eq_ok, checkProducer_eq_ok ht]
  simp [Readers.mem_ops, readCount_eq ht, ← readsTensor_iff]

theorem checkConstraint_eq_ok {e : Edge} : g.checkConstraint e = .ok () ↔
    (g.op? e.before).isSome ∧ (g.op? e.after).isSome := by
  unfold checkConstraint
  rw [contains_ops, contains_ops]
  cases (g.op? e.before).isSome <;> cases (g.op? e.after).isSome <;>
    simp [throw, throwThe, MonadExceptOf.throw, bind, Except.bind, pure, Except.pure]

/-! ## Section 4: The verdict -/

/-- What the check asks, each thing from the end from which it asks it. -/
structure Mirrored (g : Graph) : Prop where
  inputs : ∀ op i tensor, g.inputAt op i = some tensor →
    (g.tensor? tensor).isSome ∧ g.wireCount op tensor = g.readCount tensor op
  outputs : ∀ op i tensor, g.outputAt op i = some tensor → g.producer? tensor = some op
  producers : ∀ tensor op, g.producer? tensor = some op → ∃ i, g.outputAt op i = some tensor
  sources : ∀ tensor, g.kind? tensor = some .computed → g.producer? tensor = none →
    tensor ∈ g.inputs
  readers : ∀ tensor op, 0 < g.readCount tensor op → ∃ i, g.inputAt op i = some tensor
  constraints : ∀ e ∈ g.constraints.toList, (g.op? e.before).isSome ∧ (g.op? e.after).isSome
  boundary : ∀ tensor ∈ g.inputs ++ g.outputs, (g.tensor? tensor).isSome

theorem checkOps_eq_ok : (g.ops.toList.forM fun x => g.checkOp x.1 x.2) = .ok () ↔
    (∀ op i tensor, g.inputAt op i = some tensor →
      (g.tensor? tensor).isSome ∧ g.wireCount op tensor = g.readCount tensor op) ∧
    (∀ op i tensor, g.outputAt op i = some tensor → g.producer? tensor = some op) := by
  rw [except_forM_eq_ok]
  constructor
  · intro h
    have hports := fun op o (ho : g.op? op = some o) =>
      (checkOp_eq_ok ho).1 (h (op, o) (Std.ExtTreeMap.mem_toList_iff_getElem?_eq_some.2 ho))
    constructor
    · intro op i tensor hi
      obtain ⟨o, ho, -⟩ := inputAt_eq_some.1 hi
      exact (hports op o ho).1 i tensor hi
    · intro op i tensor hi
      obtain ⟨o, ho, -⟩ := outputAt_eq_some.1 hi
      exact (hports op o ho).2 i tensor hi
  · intro ⟨hinputs, houtputs⟩ (op, o) hmem
    have ho : g.op? op = some o := Std.ExtTreeMap.mem_toList_iff_getElem?_eq_some.1 hmem
    exact (checkOp_eq_ok ho).2 ⟨hinputs op, houtputs op⟩

theorem checkTensors_eq_ok : (g.tensors.toList.forM fun x => g.checkTensor x.1 x.2) = .ok () ↔
    ((∀ tensor op, g.producer? tensor = some op → ∃ i, g.outputAt op i = some tensor) ∧
      ∀ tensor, g.kind? tensor = some .computed → g.producer? tensor = none →
        tensor ∈ g.inputs) ∧
    ∀ tensor op, 0 < g.readCount tensor op → ∃ i, g.inputAt op i = some tensor := by
  rw [except_forM_eq_ok]
  constructor
  · intro h
    have hback := fun tensor t (ht : g.tensor? tensor = some t) =>
      (checkTensor_eq_ok ht).1
        (h (tensor, t) (Std.ExtTreeMap.mem_toList_iff_getElem?_eq_some.2 ht))
    -- whatever has a producer, a kind or a reader exists
    constructor
    · constructor
      · intro tensor op hp
        obtain ⟨t, ht⟩ := Option.isSome_iff_exists.1 (tensor_of_producer hp)
        exact (hback tensor t ht).1.1 op hp
      · intro tensor hkind
        obtain ⟨t, ht⟩ := Option.isSome_iff_exists.1 (tensor_of_kind hkind)
        exact (hback tensor t ht).1.2 hkind
    · intro tensor op hpos
      cases ht : g.tensor? tensor with
      | none => simp [readCount, ht] at hpos
      | some t => exact (hback tensor t ht).2 op hpos
  · rintro ⟨⟨hproducers, hsources⟩, hreaders⟩ ⟨tensor, t⟩ hmem
    have ht : g.tensor? tensor = some t := Std.ExtTreeMap.mem_toList_iff_getElem?_eq_some.1 hmem
    exact (checkTensor_eq_ok ht).2 ⟨⟨hproducers tensor, hsources tensor⟩, hreaders tensor⟩

theorem check_eq_ok : g.check = .ok () ↔ g.Mirrored := by
  have hboundary : ∀ tensor, (if g.tensors.contains tensor then .ok ()
      else .error (.unknownBoundary tensor) : Except ConsistencyError Unit) = .ok () ↔
      (g.tensor? tensor).isSome := by
    intro tensor
    rw [contains_tensors]
    cases (g.tensor? tensor).isSome <;> simp
  unfold check
  rw [except_then_eq_ok, except_then_eq_ok, except_then_eq_ok, checkOps_eq_ok, checkTensors_eq_ok,
    except_forM_eq_ok, except_forM_eq_ok]
  simp only [checkConstraint_eq_ok, hboundary]
  constructor
  · intro ⟨⟨hinputs, houtputs⟩, ⟨⟨hproducers, hsources⟩, hreaders⟩, hconstraints, hdeclared⟩
    exact ⟨hinputs, houtputs, hproducers, hsources, hreaders, hconstraints, hdeclared⟩
  · intro h
    exact ⟨⟨h.inputs, h.outputs⟩, ⟨⟨h.producers, h.sources⟩, h.readers⟩, h.constraints,
      h.boundary⟩

/-- **What one end leaves open the other one settles.** -/
theorem Mirrored.reads (h : g.Mirrored) (op : OpId) (tensor : TensorId) :
    g.wireCount op tensor = g.readCount tensor op := by
  by_cases hwire : ∃ i, g.inputAt op i = some tensor
  · obtain ⟨i, hi⟩ := hwire
    exact (h.inputs op i tensor hi).2
  · -- without a wire both counts are zero, for a reader would be backed by one
    have hzero : ¬ 0 < g.wireCount op tensor := fun hpos => hwire (wireCount_pos.1 hpos)
    have hnone : ¬ 0 < g.readCount tensor op := fun hpos => hwire (h.readers tensor op hpos)
    omega

theorem Mirrored.consistent (h : g.Mirrored) : g.Consistent where
  reads op tensor := by
    rw [← wireCount_eq_ncard]
    exact h.reads op tensor
  wired op i tensor hwire := by
    cases hwire with
    | inl hi => exact (h.inputs op i tensor hi).1
    | inr hi => exact tensor_of_producer (h.outputs op i tensor hi)
  produces tensor op := by
    constructor
    · intro hp
      obtain ⟨i, hi⟩ := h.producers tensor op hp
      obtain ⟨o, ho, hi⟩ := outputAt_eq_some.1 hi
      exact ⟨o, ho, i, hi⟩
    · intro ⟨o, ho, i, hi⟩
      exact h.outputs op i tensor (outputAt_eq_some.2 ⟨o, ho, hi⟩)
  sourced := h.sources
  constrained := h.constraints
  declared tensor hmem := h.boundary tensor (List.mem_append.2 hmem)

theorem Consistent.mirrored (h : g.Consistent) : g.Mirrored := by
  have hreads : ∀ op tensor, g.wireCount op tensor = g.readCount tensor op := by
    intro op tensor
    rw [wireCount_eq_ncard]
    exact h.reads op tensor
  exact {
    inputs := fun op i tensor hi => ⟨h.wired op i tensor (.inl hi), hreads op tensor⟩
    outputs := by
      intro op i tensor hi
      obtain ⟨o, ho, hi⟩ := outputAt_eq_some.1 hi
      exact (h.produces tensor op).2 ⟨o, ho, i, hi⟩
    producers := by
      intro tensor op hp
      obtain ⟨o, ho, i, hi⟩ := (h.produces tensor op).1 hp
      exact ⟨i, outputAt_eq_some.2 ⟨o, ho, hi⟩⟩
    sources := h.sourced
    readers := by
      intro tensor op hpos
      rw [← hreads] at hpos
      exact wireCount_pos.1 hpos
    constraints := h.constrained
    boundary := fun tensor hmem => h.declared tensor (List.mem_append.1 hmem) }

/-- **The check is sound and complete**: it passes exactly the consistent
    graphs, whatever the ops, the tensors and the boundary say of each other. -/
theorem check_iff_consistent (g : Graph) : g.check = .ok () ↔ g.Consistent := by
  rw [check_eq_ok]
  constructor
  · intro h
    exact h.consistent
  · intro h
    exact h.mirrored

/-- A reader without a wire is found from the tensor. -/
example : (insertTensor {} "x" { kind := .stream, readers := .add ∅ 3 }).check =
    .error (.staleBackReference "x" 3) := by decide +kernel

end Graph

end Dataflow
