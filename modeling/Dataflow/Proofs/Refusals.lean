import Dataflow.Proofs.Outcomes
import Dataflow.Proofs.Rules
import Dataflow.Proofs.Typing

/-! # Refusals

    An error is a refusal if it tells the caller what is wrong with the call,
    and not that a contract inside the graph is broken.  The builtin inference
    rules only ever refuse, and as long as operators do, so do the edits that
    differentiation is made of: none of the reasons why a step of growth fails
    is a broken contract.  What it enters in its ledgers is left to the modules
    that follow. -/

namespace Dataflow

open Dataflow.Graph

/-- The error is no broken contract. -/
def GraphError.IsRefusal (e : GraphError) : Prop := e.isInternal = false

/-- The error is no broken contract. -/
def GradientError.IsRefusal (e : GradientError) : Prop := e.isInternal = false

/-! ## Section 1: Operators -/

/-- Inference by the operator succeeds or refuses. -/
def Operator.Infers (k : Operator) : Prop :=
  ∀ inputs, ErrsOnly GraphError.IsRefusal (k.infer inputs)

theorem GradBuiltin.infers (b : GradBuiltin) : b.operator.Infers :=
  b.errsOnly_infer fun _ => rfl

theorem sum_infers : Builtin.sum.operator.Infers := Rule.errsOnly_variadic fun _ => rfl

/-- The types of all tensors at the ports of an op are known. -/
def Graph.Knows (g : Graph) (o : Op) : Prop :=
  ∀ i t, o.inputs.get? i = some t ∨ o.outputs.get? i = some t → (g.type? t).isSome

/-- Op number `op` breaks no contract on its own account: once the types of its
    tensors are known, it describes its gradient ops or refuses, and inference
    by these ops succeeds or refuses. -/
def Op.Dependable (o : Op) (op : OpId) : Prop :=
  ∀ g : Graph, g.Knows o → ErrsOnly GraphError.IsRefusal (o.operator.gradSpecs (g.view op o)) ∧
    ∀ specs, o.operator.gradSpecs (g.view op o) = .ok specs → ∀ spec ∈ specs, spec.operator.Infers

theorem typeOf_eq_ok {g : Graph} {t : TensorId} {type : TensorType} :
    g.typeOf t = .ok type ↔ g.type? t = some type := by
  cases ht : g.tensor? t with
  | none =>
    have ht' : g.tensors[t]? = none := ht
    simp [typeOf, typeIn, type?, ht, ht']
  | some x =>
    have ht' : g.tensors[t]? = some x := ht
    cases hx : x.type? <;> simp [typeOf, typeIn, type?, ht, ht', hx]

theorem typeOf_refuses {g : Graph} {t : TensorId} (ht : (g.type? t).isSome) :
    ErrsOnly GraphError.IsRefusal (g.typeOf t) := by
  obtain ⟨type, htype⟩ := Option.isSome_iff_exists.1 ht
  rw [typeOf_eq_ok.2 htype]
  exact .ok _

/-- **The builtin operators are dependable.** -/
theorem Builtin.dependable {o : Op} {b : Builtin} (h : o.operator = b.operator) (op : OpId) :
    o.Dependable op := by
  intro g hknown
  rw [h]
  refine ⟨b.errsOnly_gradSpecs rfl fun x hx => typeOf_refuses (hknown 0 x (.inl hx)),
    fun specs hrun spec hmem => ?_⟩
  obtain ⟨k, hk⟩ := Builtin.gradSpecs_operator hrun spec hmem
  rw [hk]
  exact k.infers

/-! ## Section 2: Steps of growth -/

namespace Edit

theorem requireOp_refuses {g : Graph} {op : OpId} :
    ErrsOnly GraphError.IsRefusal (g.requireOp op) := by
  intro e he
  rw [(requireOp_eq_error.1 he).1]
  rfl

theorem requireTensor_refuses {g : Graph} (t : TensorId) :
    ErrsOnly GraphError.IsRefusal (g.requireTensor t) := by
  intro e he
  rw [(requireTensor_eq_error.1 he).1]
  rfl

end Edit

/-- An op that cannot be settled is refused, as long as its operator refuses. -/
theorem Graph.SettlingFails.isRefusal {g : Graph} {op : OpId} {o : Op} {e : GraphError}
    (h : SettlingFails g op o e) (hinfer : o.operator.Infers) : e.IsRefusal := by
  cases h with
  | input => rfl
  | infer he =>
    have hrefuses := hinfer _ _ he
    unfold nameInference
    split
    · rfl
    · exact hrefuses
  | outputs => rfl

namespace Growth

variable {α : Type} {b : Backward}

theorem ask_refuses {question : Graph → Except GraphError α}
    (h : ErrsOnly GraphError.IsRefusal (question b.graph)) :
    FailsOnly GradientError.IsRefusal (ask question) b :=
  failsOnly_edit fun e _ he => h e (Edit.ask_fails he).1

/-- An op whose tensors have known types describes its gradient ops or refuses. -/
theorem describe_refuses {forward : OpId} {o : Op} (ho : b.graph.op? forward = some o)
    (hdep : o.Dependable forward) (hknown : b.graph.Knows o) :
    FailsOnly GradientError.IsRefusal (describe forward) b :=
  failsOnly_describe ho (fun _ => rfl) (hdep b.graph hknown).1
    fun specs _ => errsOnly_checkSpecs (fun _ => rfl) o specs []

/-- The targets of descriptions that pass the check are there. -/
theorem errsOnly_targetTensors {P : GradientError → Prop} {label : String} {o : Op}
    {spec : GradSpec Operator}
    (hwired : ∀ x ∈ spec.targets.toList, (o.inputs.get? x.2).isSome) :
    ErrsOnly P (targetTensors label o spec) := by
  refine ErrsOnly.mapM fun x hx => ?_
  obtain ⟨t, ht⟩ := Option.isSome_iff_exists.1 (hwired x hx)
  simp only [ht]
  exact .ok _

theorem wireGradOp_refuses {options : GradientOptions} {forward : OpId} {label : String}
    {spec : GradSpec Operator} {phase? : Option Int} {o : Op}
    (ho : b.graph.op? forward = some o)
    (hwired : ∀ x ∈ spec.targets.toList, (o.inputs.get? x.2).isSome) :
    FailsOnly GradientError.IsRefusal (wireGradOp options forward label spec phase?) b := by
  intro e b' he
  cases ((ends_wireGradOp ..).error e b' he).1 with
  | op => rfl
  | inputs _ hinputs => exact errsOnly_wiring (fun _ => rfl) _ _ _ e hinputs
  | targets ho' htargets =>
    cases ho'.symm.trans ho
    exact errsOnly_targetTensors hwired e htargets
  | input => rfl
  | output => rfl

theorem settleNew_refuses {g : Graph} {o : Op} (hgrowing : Growing g o b.graph)
    (hinfer : o.operator.Infers) : FailsOnly GradientError.IsRefusal (settleNew g.nextOp) b :=
  (ends_settleNew (E := fun e _ => e.IsRefusal) hgrowing fun _ he => he.isRefusal hinfer).error

/-- **A sum** that cannot be grown is refused. -/
theorem growSum_refuses (tensor : TensorId) (partials : List TensorId) :
    FailsOnly GradientError.IsRefusal (growSum tensor partials) b := by
  refine failsOnly_growSum (fun e he => ?_) fun _ _ _ _ he => he.isRefusal sum_infers
  cases he with
  | input => rfl
  | output => rfl

/-- **An output** that is inspected is refused only if the types do not match. -/
theorem inspect_refuses {label : String} {op : OpId} {output : Nat} {tensor grad : TensorId}
    {o : Op} (htensor : (b.graph.type? tensor).isSome) (ho : b.graph.op? op = some o)
    (hout : o.outputs.get? output = some grad) (hgrad : (b.graph.type? grad).isSome) :
    FailsOnly GradientError.IsRefusal (inspect label op output tensor) b :=
  failsOnly_inspect ho hout (typeOf_refuses htensor) (typeOf_refuses hgrad) fun _ _ => rfl

/-- **Telling a producer** goes wrong only if the ledger does not accept it. -/
theorem tellProducer_refuses {towardLoss : List OpId} {tensor : TensorId}
    (hb : b.graph.WellWired)
    (hinsert : ∀ op o index, IsSourceOf b.graph towardLoss tensor op o index →
      ∃ l, OutputGradients.insert op o index b.outputs = .ok () l) :
    FailsOnly GradientError.IsRefusal (tellProducer towardLoss tensor) b := by
  refine failsOnly_tellProducer hb (fun _ => rfl) fun op o index hsource => ?_
  obtain ⟨l, hl⟩ := hinsert op o index hsource
  exact .of_ok hl

/-- **A tensor with partial gradients** is summed or refused, as long as its
    producer can be told. -/
theorem growGradient_refuses {options : GradientOptions} {towardLoss : List OpId}
    {tensor : TensorId} {partials : List TensorId} (hne : partials ≠ [])
    (htell : ∀ total b₁, growSum tensor partials b = .ok total b₁ →
      FailsOnly GradientError.IsRefusal (tellProducer towardLoss tensor) b₁) :
    FailsOnly GradientError.IsRefusal (growGradient options towardLoss tensor partials) b :=
  failsOnly_growGradient (fun _ => rfl) (fun hnil => absurd hnil hne)
    (fun _ _ _ _ => growSum_refuses tensor partials) htell

end Growth

end Dataflow
