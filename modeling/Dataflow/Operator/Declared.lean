import Dataflow.Operator.Rule

/-! # Declared operators

    An operator given as data: each output takes its type from an input or
    has a fixed one, and gradient ops are listed rather than worked out.
    Nothing is asked of the inputs beyond what the outputs need. -/

namespace Dataflow

/-- Where the type of an output comes from. -/
inductive OutputRule where
  /-- The type of the input at an index, which has to be wired. -/
  | like (index : Nat)
  | fixed (type : TensorType)
  deriving DecidableEq, Repr, Inhabited

/-- When the gradient ops of an op can be built. -/
inductive Readiness where
  /-- Once the gradients of all required outputs are available. -/
  | whenAll
  /-- Once the gradient of any output is available. -/
  | whenAny
  | never
  deriving DecidableEq, Repr, Inhabited

/-- A gradient op of a declared operator. -/
structure DeclaredGrad where
  operator : Operator
  wires : List GradWire
  /-- Gradient outputs, each with a forward input that it is the gradient of.
      Of the pairs for one output that are not left out, the last counts. -/
  targets : List (Nat × Nat)
  /-- Whether gradients of unwired inputs are left out. -/
  onlyWired : Bool := false

/-- An operator given as data. -/
structure Declaration where
  typeName : String
  /-- The reason for which inference breaks down, if it does. -/
  failure? : Option String := none
  outputs : List OutputRule := []
  /-- The gradient ops, unless the operator is not differentiable. -/
  grads? : Option (List DeclaredGrad) := none
  readiness : Readiness := .whenAll
  optionalInputs : Std.ExtTreeSet Nat := ∅
  /-- The inputs that are written in place. -/
  modified : Std.ExtTreeSet Nat := ∅
  hasSideEffect : Bool := false
  isLoss : Bool := false

namespace DeclaredGrad

/-- The targets that are not left out for an op. -/
def targetsFor (grad : DeclaredGrad) (view : OpView) : List (Nat × Nat) :=
  if grad.onlyWired then grad.targets.filter fun (_, input) => view.inputs.hasIndex input
  else grad.targets

/-- The gradient op for one op.  It is dropped if only wired inputs receive a
    gradient and none of its targets is wired. -/
def spec? (view : OpView) (grad : DeclaredGrad) : Option (GradSpec Operator) :=
  let targets := grad.targetsFor view
  if grad.onlyWired && targets.isEmpty then none
  else some {
    operator := grad.operator
    wires := grad.wires
    targets := Std.ExtTreeMap.ofList targets }

end DeclaredGrad

namespace Declaration

/-- The type of an output. -/
def outputType (d : Declaration) (inputs : Rule.Inputs) :
    OutputRule → Except GraphError TensorType
  | .like index => Rule.input d.typeName inputs index
  | .fixed type => .ok type

/-- How the output types follow from the input types. -/
def infer (d : Declaration) (inputs : Rule.Inputs) : Except GraphError (List TensorType) :=
  match d.failure? with
  | some reason => .error (.internal reason)
  | none => d.outputs.mapM (d.outputType inputs)

/-- The gradient ops of an op. -/
def gradSpecs (d : Declaration) (view : OpView) : Except GraphError (List (GradSpec Operator)) :=
  match d.grads? with
  | none => .error (.notDifferentiable view.label)
  | some grads => .ok (grads.filterMap (DeclaredGrad.spec? view))

/-- When the gradient ops can be built. -/
def isReady (d : Declaration) (available required : Std.ExtTreeSet Nat) : Bool :=
  match d.readiness with
  | .whenAll => required.toList.all available.contains
  | .whenAny => !available.isEmpty
  | .never => false

/-- The operator as a graph sees it. -/
def operator (d : Declaration) : Operator where
  typeName := d.typeName
  infer := d.infer
  gradSpecs := d.gradSpecs
  isReady := d.isReady
  optionalInputs := d.optionalInputs
  modifies := d.modified.contains
  hasSideEffect := d.hasSideEffect
  isLoss := d.isLoss

end Declaration

end Dataflow
