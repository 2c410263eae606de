import Dataflow.Op.Operator

/-! # Ops

    One operator at work in a graph: its wiring on both sides, its settings,
    and whether its output types have been inferred.  The number of an op is
    the key under which the graph stores it. -/

namespace Dataflow

/-- How a gradient op relates to the op it was grown for. -/
structure GradOrigin where
  forward : OpId
  wires : List GradWire
  targets : Std.ExtTreeMap Nat Nat

/-- One op of a graph. -/
structure Op where
  operator : Operator
  settings : OpSettings := {}
  inputs : Ports := ∅
  outputs : Ports := ∅
  /-- Present on the ops that differentiation has grown. -/
  origin? : Option GradOrigin := none
  /-- Whether the types of the outputs have been inferred. -/
  isSettled : Bool := false
  deriving Inhabited

namespace Op

/-- How op number `id` is called in messages: type and number, and the given
    name if there is one. -/
def label (op : Op) (id : OpId) : String :=
  if op.settings.name.isEmpty then s!"{op.operator.typeName}({id})"
  else s!"{op.operator.typeName}({id}):{op.settings.name}"

/-- Whether differentiation has grown the op. -/
def isGradient (op : Op) : Bool := op.origin?.isSome

/-- Whether the op writes `tensor` in place at some index where it reads it. -/
def modifies (op : Op) (tensor : TensorId) : Bool :=
  (op.inputs.indices tensor).any op.operator.modifies

/-- What shows of the op from outside. -/
def face (op : Op) : OpFace where
  typeName := op.operator.typeName
  settings := op.settings
  inputs := op.inputs
  outputs := op.outputs
  isGradient := op.isGradient
  isSettled := op.isSettled

/-- Whether no tensor is wired to the op. -/
def isDetached (op : Op) : Bool := op.inputs.isEmpty && op.outputs.isEmpty

end Op

end Dataflow
