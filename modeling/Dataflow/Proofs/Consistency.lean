import Dataflow.Graph.Consistency
import Dataflow.Proofs.Wiring
import Dataflow.Proofs.Runs

/-! # The consistency check and the wiring

    Of the violations that the check can report, a well wired graph only ever
    shows one: a computed tensor that has lost its producer.  Where every
    computed tensor has a producer, the check passes. -/

namespace Dataflow

/-! ## Section 1: Loops of tests -/

/-- A loop of tests fails at one of them. -/
theorem forM_eq_error {ε α : Type} {f : α → Except ε Unit} {xs : List α} {e : ε}
    (h : xs.forM f = .error e) : ∃ x ∈ xs, f x = .error e := by
  induction xs with
  | nil => cases h
  | cons x rest ih =>
    replace h : (f x >>= fun _ => rest.forM f) = .error e := h
    rcases except_bind_eq_error.1 h with hx | ⟨_, -, hrest⟩
    · exact ⟨x, List.mem_cons_self, hx⟩
    · obtain ⟨y, hy, hfail⟩ := ih hrest
      exact ⟨y, List.mem_cons_of_mem x hy, hfail⟩

namespace Graph

variable {g : Graph}

/-! ## Section 2: The checks of a well wired graph -/

theorem checkInput_ok (h : g.WellWired) {op : OpId} {o : Op} (ho : g.op? op = some o) {i : Nat}
    {tensor : TensorId} (hi : o.inputs.get? i = some tensor) :
    g.checkInput op o tensor = .ok () := by
  obtain ⟨x, hx⟩ := h.input_exists (inputAt_eq_some.2 ⟨o, ho, hi⟩)
  have hcount : (o.inputs.indices tensor).length = x.readers.count op := by
    have hreads := h.reads op tensor
    rwa [wireCount_eq ho, readCount, hx] at hreads
  unfold checkInput
  rw [hx]
  simp only
  rw [if_pos hcount]

theorem checkOutput_ok (h : g.WellWired) {op : OpId} {o : Op} (ho : g.op? op = some o) {i : Nat}
    {tensor : TensorId} (hi : o.outputs.get? i = some tensor) :
    g.checkOutput op tensor = .ok () := by
  obtain ⟨x, hx, hp⟩ := h.output_exists (outputAt_eq_some.2 ⟨o, ho, hi⟩)
  unfold checkOutput
  rw [hx]
  simp only
  rw [if_pos hp]

theorem checkOp_ne_error (h : g.WellWired) {op : OpId} {o : Op} (ho : g.op? op = some o)
    (e : ConsistencyError) : g.checkOp op o ≠ .error e := by
  intro herr
  rcases except_bind_eq_error.1 herr with herr | ⟨_, -, herr⟩
  · obtain ⟨⟨i, tensor⟩, hmem, herr⟩ := forM_eq_error herr
    have hok := checkInput_ok h ho (Ports.mem_toList.1 hmem)
    cases hok.symm.trans herr
  · obtain ⟨⟨i, tensor⟩, hmem, herr⟩ := forM_eq_error herr
    have hok := checkOutput_ok h ho (Ports.mem_toList.1 hmem)
    cases hok.symm.trans herr

/-- The producer of a tensor has it among its outputs, so the check of a
    producer only fails where there should be one and is none. -/
theorem checkProducer_error (h : g.WellWired) {tensor : TensorId} {t : Tensor}
    (ht : g.tensor? tensor = some t) {e : ConsistencyError}
    (herr : g.checkProducer tensor t = .error e) :
    e = .missingProducer tensor ∧ t.kind = .computed ∧ t.producer? = none ∧ tensor ∉ g.inputs := by
  unfold checkProducer at herr
  split at herr
  · rename_i op hp
    have hproducer : g.producer? tensor = some op := by simp [producer?, ht, hp]
    obtain ⟨i, hi⟩ := (h.produces tensor op).1 hproducer
    obtain ⟨o, ho, hi⟩ := outputAt_eq_some.1 hi
    have hwrites : g.writesTensor op tensor = true := by
      unfold writesTensor
      rw [ho]
      exact Ports.contains_iff.2 ⟨i, hi⟩
    rw [if_pos hwrites] at herr
    cases herr
  · rename_i hp
    split at herr
    · rename_i hkind
      cases herr
      simp only [Bool.and_eq_true, decide_eq_true_eq, Bool.not_eq_true', List.contains_eq_mem,
        decide_eq_false_iff_not] at hkind
      exact ⟨rfl, hkind.1, hp, hkind.2⟩
    · cases herr

theorem readsTensor_of_reader (h : g.WellWired) {op : OpId} {tensor : TensorId}
    (hr : op ∈ g.readers tensor) : g.readsTensor op tensor = true := by
  obtain ⟨i, hi⟩ := h.reader_iff.1 hr
  obtain ⟨o, ho, hi⟩ := inputAt_eq_some.1 hi
  unfold readsTensor
  rw [ho]
  exact Ports.contains_iff.2 ⟨i, hi⟩

/-- **The only violation of a well wired graph** is a computed tensor without
    a producer that is no declared input. -/
theorem WellWired.check_error (h : g.WellWired) {e : ConsistencyError}
    (herr : g.check = .error e) :
    ∃ tensor t, e = .missingProducer tensor ∧ g.tensor? tensor = some t ∧ t.kind = .computed ∧
      t.producer? = none ∧ tensor ∉ g.inputs := by
  rcases except_bind_eq_error.1 herr with herr | ⟨_, -, herr⟩
  · obtain ⟨⟨op, o⟩, hmem, herr⟩ := forM_eq_error herr
    have ho : g.op? op = some o := Std.ExtTreeMap.mem_toList_iff_getElem?_eq_some.1 hmem
    exact absurd herr (checkOp_ne_error h ho e)
  rcases except_bind_eq_error.1 herr with herr | ⟨_, -, herr⟩
  · obtain ⟨⟨tensor, t⟩, hmem, herr⟩ := forM_eq_error herr
    have ht : g.tensor? tensor = some t := Std.ExtTreeMap.mem_toList_iff_getElem?_eq_some.1 hmem
    rcases except_bind_eq_error.1 herr with herr | ⟨_, -, herr⟩
    · obtain ⟨heq, hkind, hp, hin⟩ := checkProducer_error h ht herr
      exact ⟨tensor, t, heq, ht, hkind, hp, hin⟩
    · obtain ⟨op, hop, herr⟩ := forM_eq_error herr
      have hr : op ∈ g.readers tensor := by
        unfold readers
        rw [ht]
        exact hop
      rw [if_pos (readsTensor_of_reader h hr)] at herr
      cases herr
  rcases except_bind_eq_error.1 herr with herr | ⟨_, -, herr⟩
  · obtain ⟨c, hc, herr⟩ := forM_eq_error herr
    obtain ⟨hb, ha⟩ := h.constrained c hc
    unfold checkConstraint at herr
    rw [contains_ops, contains_ops, hb, ha] at herr
    cases herr
  · obtain ⟨t, ht, herr⟩ := forM_eq_error herr
    rw [contains_tensors, h.declared t ht] at herr
    cases herr

/-- **A passed check** rules out computed tensors without a producer, unless
    they are declared inputs. -/
theorem mem_inputs_of_check (hcheck : g.check = .ok ()) {tensor : TensorId} {t : Tensor}
    (ht : g.tensor? tensor = some t) (hkind : t.kind = .computed) (hp : t.producer? = none) :
    tensor ∈ g.inputs := by
  obtain ⟨_, -, hrest⟩ := except_bind_eq_ok.1 hcheck
  obtain ⟨_, htensors, -⟩ := except_bind_eq_ok.1 hrest
  have hmem : (tensor, t) ∈ g.tensors.toList := Std.ExtTreeMap.mem_toList_iff_getElem?_eq_some.2 ht
  obtain ⟨_, hproducer, -⟩ := except_bind_eq_ok.1 (except_forM_eq_ok.1 htensors _ hmem)
  by_contra hnot
  simp [checkProducer, hp, hkind, hnot] at hproducer

/-- Every computed tensor has a producer. -/
def Produced (g : Graph) : Prop :=
  ∀ t, g.kind? t = some .computed → (g.producer? t).isSome

/-- **The check passes** where every computed tensor has a producer. -/
theorem WellWired.check_ok (h : g.WellWired) (hp : g.Produced) : g.check = .ok () := by
  cases hcheck : g.check with
  | ok u => rfl
  | error e =>
    obtain ⟨tensor, t, -, ht, hkind, hnone, -⟩ := h.check_error hcheck
    have hsome := hp tensor (by simp [kind?, ht, hkind])
    simp [producer?, ht, hnone] at hsome

end Graph

end Dataflow
