import Dataflow.Proofs.Reachability

/-! # What a refused output leaves behind

    An output is created by two edits in a row.  A computed tensor is put into
    the graph, and then it is wired.  Wiring takes itself back when it is
    refused, but the tensor that it was meant for stays.

    Wiring is only ever refused by inference, and inference only runs for an op
    that is settled.  So creating an output is all or nothing for an op that
    is not settled (`unchanged_unless_settled`).  For a settled op a refusal
    leaves a computed tensor that nothing produces: the check of the graph
    fails from then on, and the name is taken. -/

namespace Dataflow

open Dataflow.Graph

variable {g g' : Graph}

/-! ## Section 1: Creating an output, case by case -/

namespace Edit

variable {op : OpId} {index : Nat} {tensor : TensorId}

/-- A name that is taken is refused. -/
theorem createOutput_of_taken (op : OpId) (index : Nat) (h : (g.tensor? tensor).isSome) :
    createOutput op index tensor g = .error (.duplicateTensor tensor) g := by
  have hcontains : g.tensors.contains tensor = true := by
    rw [contains_tensors]
    exact h
  simp [createOutput, bind, EStateM.bind, ask, hcontains]

theorem createOutput_of_missing (index : Nat) (h : g.tensor? tensor = none)
    (ho : g.op? op = none) : createOutput op index tensor g = .error (.unknownOp op) g := by
  have hcontains : g.tensors.contains tensor = false := by
    rw [contains_tensors, h]
    rfl
  simp [createOutput, bind, EStateM.bind, ask, hcontains, requireOp, ho]

/-- Otherwise the tensor is put in, and all that follows is its wiring. -/
theorem createOutput_of_new (index : Nat) (h : g.tensor? tensor = none) {o : Op}
    (ho : g.op? op = some o) :
    createOutput op index tensor g
      = connectOutput op index tensor (g.insertTensor tensor { kind := .computed }) := by
  have hcontains : g.tensors.contains tensor = false := by
    rw [contains_tensors, h]
    rfl
  simp [createOutput, bind, EStateM.bind, ask, hcontains, requireOp, ho, change]

/-- Without inference there is nothing that could refuse a computed tensor
    without a producer. -/
theorem connectOutput_of_unsettled (index : Nat) {t : Tensor} {o : Op}
    (ht : g.tensor? tensor = some t) (hp : t.producer? = none) (hk : t.kind = .computed)
    (ho : g.op? op = some o) (hs : o.isSettled = false) :
    connectOutput op index tensor g
      = .ok () (g.wireOutput op index (o.outputs.get? index) tensor) := by
  simp [connectOutput, bind, EStateM.bind, ask, requireTensor, ht, hp, hk, requireOp, ho, hs,
    rewireOutput_run]

/-- **A refused output**: nothing has happened because the name is taken or the
    op is not there, or a settled op has rejected the new tensor, which stays. -/
theorem createOutput_eq_error (hg : g.WellWired) {e : GraphError}
    (h : createOutput op index tensor g = .error e g') :
    g' = g ∧ ((g.tensor? tensor).isSome ∨ g.isSettled op = false) ∨
    g' = g.insertTensor tensor { kind := .computed } ∧ g.tensor? tensor = none ∧
      g.isSettled op = true := by
  cases ht : g.tensor? tensor with
  | some t =>
    rw [createOutput_of_taken op index (by simp [ht])] at h
    cases h
    exact .inl ⟨rfl, .inl rfl⟩
  | none =>
    cases ho : g.op? op with
    | none =>
      rw [createOutput_of_missing index ht ho] at h
      cases h
      exact .inl ⟨rfl, .inr (by simp [isSettled, ho])⟩
    | some o =>
      rw [createOutput_of_new index ht ho] at h
      have hwired : (g.insertTensor tensor { kind := .computed }).WellWired :=
        insertTensor_wellWired hg ht rfl Readers.count_empty
      refine .inr ⟨connectOutput_refused hwired h, rfl, ?_⟩
      cases hs : o.isSettled with
      | true => simp [isSettled, ho, hs]
      | false =>
        have hnew : (g.insertTensor tensor { kind := .computed }).tensor? tensor
            = some { kind := .computed } := by simp
        rw [connectOutput_of_unsettled index hnew rfl rfl (o := o) ho hs] at h
        cases h

end Edit

/-! ## Section 2: All or nothing, and when not -/

/-- `g'` is `g` with a computed tensor that nothing produces.  A check that has
    passed fails because of it, and it keeps its name from being used again. -/
structure Graph.Leftover (tensor : TensorId) (g g' : Graph) : Prop where
  eq : g' = g.insertTensor tensor { kind := .computed }
  noticed : g.check = .ok () → g'.check = .error (.missingProducer tensor)
  taken : ∀ op index,
    Edit.createOutput op index tensor g' = .error (.duplicateTensor tensor) g'

theorem Graph.WellWired.leftover (hg : g.WellWired) {tensor : TensorId}
    (ht : g.tensor? tensor = none) :
    g.Leftover tensor (g.insertTensor tensor { kind := .computed }) := by
  have hwired : (g.insertTensor tensor { kind := .computed }).WellWired :=
    Edit.insertTensor_wellWired hg ht rfl Readers.count_empty
  have hnew : (g.insertTensor tensor { kind := .computed }).tensor? tensor
      = some { kind := .computed } := by simp
  have hundeclared : tensor ∉ g.inputs := by
    intro hmem
    have hexists := hg.declared tensor (List.mem_append_left _ hmem)
    simp [ht] at hexists
  refine ⟨rfl, fun hcheck => ?_, fun op index => Edit.createOutput_of_taken op index (by simp)⟩
  cases hafter : (g.insertTensor tensor { kind := .computed }).check with
  | ok u => exact absurd (mem_inputs_of_check hafter hnew rfl rfl) hundeclared
  | error e =>
    obtain ⟨id, t, rfl, hid, hkind, hp, hnot⟩ := hwired.check_error hafter
    by_cases hsame : id = tensor
    · rw [hsame]
    · -- any other violation would have been there before
      rw [tensor?_insertTensor, if_neg hsame] at hid
      exact absurd (mem_inputs_of_check hcheck hid hkind hp) hnot

namespace Workspace

/-- **Creating an output is all or nothing, unless the op is settled.**
    Whatever calls were made before, if the output is refused, the graph is as
    before exactly if the op is not settled or the name was taken.  Otherwise
    the new tensor is left over. -/
theorem unchanged_unless_settled {w : Workspace} (h : w.Reachable) {op : OpId} {index : Nat}
    {tensor : TensorId} {e : GraphError} {g' : Graph}
    (hrun : Edit.createOutput op index tensor w.graph = .error e g') :
    (g' = w.graph ↔ w.graph.isSettled op = false ∨ (w.graph.tensor? tensor).isSome) ∧
    (g' ≠ w.graph → w.graph.Leftover tensor g') := by
  have hg := h.sound.wellWired
  rcases Edit.createOutput_eq_error hg hrun with ⟨rfl, hwhy⟩ | ⟨rfl, hnew, hsettled⟩
  · exact ⟨⟨fun _ => hwhy.symm, fun _ => rfl⟩, fun hne => absurd rfl hne⟩
  · have hne : w.graph.insertTensor tensor { kind := .computed } ≠ w.graph := by
      intro heq
      have htensor := congrArg (fun k : Graph => (k.tensor? tensor).isSome) heq
      simp [hnew] at htensor
    refine ⟨⟨fun heq => absurd heq hne, fun hwhy => ?_⟩, fun _ => hg.leftover hnew⟩
    simp [hsettled, hnew] at hwhy

/-- An activation that is settled, and one that is not. -/
def twoActivations : Workspace :=
  let calls : List Call := [
    .addInput "x" ⟨.f32, [2]⟩,
    .createOp Builtin.relu.operator {},
    .connectInput 0 0 "x",
    .createOutput 0 0 "y",
    .settle 0,
    .createOp Builtin.relu.operator {},
    .connectInput 1 0 "y",
    .createOutput 1 0 "z"]
  calls.foldl (fun w c => c.run w) {}

/-- The second activation is refused a name that is taken, and nothing changes.
    The first one is refused a second output, which is left over. -/
theorem twoActivations_leftover :
    (∃ e, Edit.createOutput 1 1 "y" twoActivations.graph = .error e twoActivations.graph) ∧
    ∃ e g', Edit.createOutput 0 1 "s" twoActivations.graph = .error e g' ∧
      twoActivations.graph.Leftover "s" g' := by
  have hreachable : twoActivations.Reachable := Reachable.run (.start "") _
  obtain ⟨e₁, htaken⟩ := eq_error_of_fails
    (show succeeds (Edit.createOutput 1 1 "y" twoActivations.graph) = false by decide +kernel)
  obtain ⟨e₂, hrefused⟩ := eq_error_of_fails
    (show succeeds (Edit.createOutput 0 1 "s" twoActivations.graph) = false by decide +kernel)
  have hsame := (unchanged_unless_settled hreachable htaken).1.2 (.inr (by decide +kernel))
  refine ⟨⟨e₁, htaken.trans (by rw [hsame])⟩, e₂, _, hrefused, ?_⟩
  obtain ⟨hiff, hleft⟩ := unchanged_unless_settled hreachable hrefused
  exact hleft (mt hiff.1 (by decide +kernel))

/-- An activation has one output.  When it is asked for a second one, the edit
    is refused, and the graph is not as before: the check that has passed
    before fails, and the same edit is then refused for another reason. -/
theorem twoActivations_changed :
    twoActivations.Reachable ∧ twoActivations.graph.check = .ok () ∧
    ∃ g', Edit.createOutput 0 1 "s" twoActivations.graph
        = .error (.outputCount "Relu(0)" 2 1) g' ∧
      g' ≠ twoActivations.graph ∧ g'.check = .error (.missingProducer "s") ∧
      Edit.createOutput 0 1 "s" g' = .error (.duplicateTensor "s") g' := by
  have hreachable : twoActivations.Reachable := Reachable.run (.start "") _
  have hcheck : twoActivations.graph.check = .ok () := by decide +kernel
  have hnew : twoActivations.graph.tensor? "s" = none := by decide +kernel
  have herror : (match Edit.createOutput 0 1 "s" twoActivations.graph with
      | .ok _ _ => none
      | .error e _ => some e) = some (.outputCount "Relu(0)" 2 1) := by
    decide +kernel
  cases hrun : Edit.createOutput 0 1 "s" twoActivations.graph with
  | ok u g' =>
    rw [hrun] at herror
    cases herror
  | error e g' =>
    rw [hrun] at herror
    cases herror
    rcases Edit.createOutput_eq_error hreachable.sound.wellWired hrun with
      ⟨-, hwhy⟩ | ⟨rfl, -, -⟩
    · exact absurd hwhy (by decide +kernel)
    · have hleftover := hreachable.sound.wellWired.leftover hnew
      have hafter := hleftover.noticed hcheck
      refine ⟨hreachable, hcheck, _, rfl, ?_, hafter, hleftover.taken 0 1⟩
      intro heq
      rw [heq, hcheck] at hafter
      cases hafter

end Workspace

end Dataflow
