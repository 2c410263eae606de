import Dataflow.Op

/-! # Graphs

    A graph owns its tensors and ops outright; everything else refers to
    them by name or number.  Wiring is recorded at both ends: an op lists the
    tensors at its ports, a tensor lists its producer and its readers.

    This module holds the type, the questions that can be put to it, and the
    plain updates out of which the edits of `Dataflow.Graph.Edit` are made. -/

namespace Dataflow

/-- A dataflow graph. -/
structure Graph where
  /-- The scope of the names in the graph.  The root graph has the empty scope. -/
  scope : String := ""
  tensors : Std.ExtTreeMap TensorId Tensor := ∅
  ops : Std.ExtTreeMap OpId Op := ∅
  constraints : Constraints := ∅
  /-- The declared inputs and outputs, in order of declaration. -/
  inputs : List TensorId := []
  outputs : List TensorId := []
  /-- The number of the next op.  Numbers are never reused. -/
  nextOp : OpId := 0
  deriving Inhabited

namespace Graph

/-! ## Section 1: Questions -/

/-- The tensor called `id`. -/
def tensor? (g : Graph) (id : TensorId) : Option Tensor := g.tensors[id]?

/-- Op number `op`. -/
def op? (g : Graph) (op : OpId) : Option Op := g.ops[op]?

/-- The tensor called `id`, which has to exist. -/
def requireTensor (g : Graph) (id : TensorId) : Except GraphError Tensor :=
  match g.tensor? id with
  | some t => .ok t
  | none => .error (.unknownTensor id)

/-- Op number `op`, which has to exist. -/
def requireOp (g : Graph) (op : OpId) : Except GraphError Op :=
  match g.op? op with
  | some o => .ok o
  | none => .error (.unknownOp op)

/-- The type of the tensor called `id`, which has to be known. -/
def typeOf (g : Graph) (id : TensorId) : Except GraphError TensorType := typeIn g.tensors id

/-- The numbers of all ops, ascending. -/
def opIds (g : Graph) : List OpId := g.ops.keys

/-- The names of all tensors, sorted. -/
def tensorIds (g : Graph) : List TensorId := g.tensors.keys

/-- Number of ops. -/
def opCount (g : Graph) : Nat := g.ops.size

/-- The ops of type `typeName`, in order of creation. -/
def opsOfType (g : Graph) (typeName : String) : List OpId :=
  g.ops.toList.filterMap fun (id, o) =>
    if o.operator.typeName = typeName then some id else none

/-- The tensors of one kind, sorted by name. -/
def tensorsOfKind (g : Graph) (kind : TensorKind) : List TensorId :=
  g.tensors.toList.filterMap fun (id, t) => if t.kind = kind then some id else none

/-- The position of `id` among the declared inputs. -/
def inputIndex? (g : Graph) (id : TensorId) : Option Nat := g.inputs.idxOf? id

/-- The position of `id` among the declared outputs. -/
def outputIndex? (g : Graph) (id : TensorId) : Option Nat := g.outputs.idxOf? id

/-- Whether op number `op` exists and its output types have been inferred. -/
def isSettled (g : Graph) (op : OpId) : Bool :=
  match g.op? op with
  | some o => o.isSettled
  | none => false

/-- Whether op number `op` writes `tensor` in place. -/
def modifies (g : Graph) (op : OpId) (tensor : TensorId) : Bool :=
  match g.op? op with
  | some o => o.modifies tensor
  | none => false

/-- The op that produces `tensor`. -/
def producer? (g : Graph) (tensor : TensorId) : Option OpId :=
  (g.tensor? tensor).bind Tensor.producer?

/-- The ops that read `tensor`, ascending. -/
def readers (g : Graph) (tensor : TensorId) : List OpId :=
  match g.tensor? tensor with
  | some t => t.readers.ops
  | none => []

/-- What the operator of an op may see of it. -/
def view (g : Graph) (id : OpId) (o : Op) : OpView where
  op := id
  label := o.label id
  settings := o.settings
  inputs := o.inputs
  outputs := o.outputs
  tensors := g.tensors
  face? := fun op => (g.op? op).map Op.face
  constraints := g.constraints
  graphInputs := g.inputs
  graphOutputs := g.outputs

/-- The forward op of a gradient op. -/
def forwardOf (g : Graph) (op : OpId) : Except GraphError OpId := do
  let o ← g.requireOp op
  match o.origin? with
  | some origin => return origin.forward
  | none =>
    throw (.internal s!"{o.label op} is not a gradient op and has no forward partner")

/-- `id` inside the scope of the graph. -/
def addScope (g : Graph) (id : String) : String := Naming.addScope g.scope id

/-- `id` without the scope of the graph. -/
def removeScope (g : Graph) (id : String) : Except GraphError String :=
  match Naming.removeScope? g.scope id with
  | some rest => .ok rest
  | none => .error (.scopeMismatch g.scope id)

/-! ## Section 2: Plain updates

    None of these keeps the two ends of a wire in agreement on its own. -/

/-- Change the tensor called `id`, if it exists. -/
def modifyTensor (g : Graph) (id : TensorId) (f : Tensor → Tensor) : Graph :=
  { g with tensors := g.tensors.modify id f }

/-- Change op number `op`, if it exists. -/
def modifyOp (g : Graph) (op : OpId) (f : Op → Op) : Graph :=
  { g with ops := g.ops.modify op f }

/-- Store a tensor under a name. -/
def insertTensor (g : Graph) (id : TensorId) (t : Tensor) : Graph :=
  { g with tensors := g.tensors.insert id t }

/-- Count one more edge from `tensor` to `op`. -/
def addReader (g : Graph) (tensor : TensorId) (op : OpId) : Graph :=
  g.modifyTensor tensor fun t => { t with readers := t.readers.add op }

/-- Count one edge fewer from `tensor` to `op`. -/
def dropReader (g : Graph) (tensor : TensorId) (op : OpId) : Graph :=
  g.modifyTensor tensor fun t => { t with readers := t.readers.drop op }

/-- Make `producer?` the producer of `tensor`. -/
def setProducer (g : Graph) (tensor : TensorId) (producer? : Option OpId) : Graph :=
  g.modifyTensor tensor fun t => { t with producer? := producer? }

end Graph

end Dataflow
