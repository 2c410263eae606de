import Dataflow.Graph.Constraints
import Dataflow.Graph.Error
import Dataflow.Op.Ports
import Dataflow.Op.Settings

/-! # Operators

    An operator is what an op computes, as far as a graph has to know it: how
    output types follow from input types, which gradient ops it asks for, and
    what it does to its inputs.  It is an open record of functions, so any
    operator can take part in a graph.

    Only the name and the inference rule are mandatory.  The other fields
    describe gradients, scheduling and pruning, and default to the common
    case. -/

namespace Dataflow

/-- Where an input of a gradient op comes from, seen from its forward op. -/
inductive GradSource where
  /-- A forward input. -/
  | input
  /-- A forward output. -/
  | output
  /-- The gradient of a forward output. -/
  | outputGrad
  deriving DecidableEq, Repr, Inhabited

/-- The word for a source in listings and messages. -/
def GradSource.name : GradSource → String
  | input => "In"
  | output => "Out"
  | outputGrad => "GradOut"

/-- Input `slot` of a gradient op reads index `index` of the forward op, on
    the side that `source` names. -/
structure GradWire where
  slot : Nat
  source : GradSource
  index : Nat
  deriving DecidableEq, Repr, Inhabited

/-- A gradient op that an operator asks for. -/
structure GradSpec (κ : Type) where
  operator : κ
  wires : List GradWire
  /-- Which forward input each gradient output is the gradient of. -/
  targets : Std.ExtTreeMap Nat Nat

/-- What shows of an op from outside: all but the functions of its operator. -/
structure OpFace where
  typeName : String
  settings : OpSettings
  inputs : Ports
  outputs : Ports
  isGradient : Bool
  isSettled : Bool

/-- What an operator may look at when it describes the gradient ops of one
    of its ops: that op, and all of the graph around it. -/
structure OpView where
  op : OpId
  label : String
  settings : OpSettings
  inputs : Ports
  outputs : Ports
  tensors : Std.ExtTreeMap TensorId Tensor
  face? : OpId → Option OpFace
  constraints : Constraints
  /-- The declared inputs and outputs of the graph. -/
  graphInputs : List TensorId
  graphOutputs : List TensorId

/-- The type of the tensor called `id` in a table of tensors.  It has to be
    known. -/
def typeIn (tensors : Std.ExtTreeMap TensorId Tensor) (id : TensorId) :
    Except GraphError TensorType :=
  match tensors[id]? with
  | none => .error (.unknownTensor id)
  | some t =>
    match t.type? with
    | some type => .ok type
    | none => .error (.internal s!"tensor '{id}' has no info")

/-- The type of a tensor of the graph. -/
def OpView.typeOf (view : OpView) : TensorId → Except GraphError TensorType := typeIn view.tensors

/-- What an op computes, as far as a graph has to know it. -/
structure Operator where
  typeName : String
  /-- Output types from the types of the inputs wired so far.  An entry is
      absent when its index is unwired. -/
  infer : List (Option TensorType) → Except GraphError (List TensorType)
  /-- The gradient ops of an op. -/
  gradSpecs : OpView → Except GraphError (List (GradSpec Operator)) :=
    fun view => .error (.notDifferentiable view.label)
  /-- Whether enough gradients of outputs are `available` to build the
      gradient ops.  The outputs on a path to the loss are `required`. -/
  isReady (available required : Std.ExtTreeSet Nat) : Bool := required.toList.all available.contains
  /-- Inputs that may stay unwired. -/
  optionalInputs : Std.ExtTreeSet Nat := ∅
  /-- Whether the input at an index is written in place. -/
  modifies : Nat → Bool := fun _ => false
  hasSideEffect : Bool := false
  isLoss : Bool := false

instance : Inhabited Operator := ⟨{ typeName := "", infer := fun _ => .ok [] }⟩

end Dataflow
