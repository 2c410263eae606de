import Dataflow.Graph.Basic

/-! # Consistency of the wiring

    A wire is recorded at both ends, and the two records have to agree.  The
    check runs from both sides: over the ports of all ops, and over the
    producers and readers of all tensors.  The first violation is reported. -/

namespace Dataflow

/-- The ways in which the wiring of a graph can be inconsistent. -/
inductive ConsistencyError where
  /-- An op refers to a tensor that the graph does not own. -/
  | danglingTensor (op : OpId) (tensor : TensorId)
  /-- A tensor counts an op as a reader more or less often than it is wired. -/
  | consumerMismatch (op : OpId) (tensor : TensorId) (expected found : Nat)
  /-- An output of an op does not name that op as its producer. -/
  | producerMismatch (op : OpId) (tensor : TensorId) (producer? : Option OpId)
  /-- A tensor names an op that is not wired to it. -/
  | staleBackReference (tensor : TensorId) (op : OpId)
  /-- A computed tensor that is not a declared input has no producer. -/
  | missingProducer (tensor : TensorId)
  /-- An ordering constraint mentions an op that does not exist. -/
  | danglingConstraint (op : OpId)
  /-- A declared input or output does not exist. -/
  | unknownBoundary (tensor : TensorId)
  deriving DecidableEq, Repr, Inhabited

/-- The wording of each violation. -/
def ConsistencyError.message : ConsistencyError → String
  | danglingTensor op t => s!"op {op} refers to unknown tensor '{t}'"
  | consumerMismatch op t expected found =>
    s!"tensor '{t}' lists op {op} as consumer {found} times, op wires it {expected} times"
  | producerMismatch op t producer? =>
    let producer := match producer? with
      | some p => s!"Some(OpId({p}))"
      | none => "None"
    s!"tensor '{t}' is an output of op {op} but names producer {producer}"
  | staleBackReference t op =>
    s!"tensor '{t}' refers back to op {op}, which does not wire it"
  | missingProducer t => s!"computed tensor '{t}' has no producer"
  | danglingConstraint op => s!"ordering constraint refers to unknown op {op}"
  | unknownBoundary t => s!"declared graph input/output '{t}' does not exist"

namespace Graph

/-- The tensor at an input of `op` counts it as often as it is wired. -/
def checkInput (g : Graph) (op : OpId) (o : Op) (tensor : TensorId) :
    Except ConsistencyError Unit :=
  match g.tensor? tensor with
  | none => .error (.danglingTensor op tensor)
  | some t =>
    let expected := (o.inputs.indices tensor).length
    let found := t.readers.count op
    if expected = found then .ok () else .error (.consumerMismatch op tensor expected found)

/-- The tensor at an output of `op` names it as its producer. -/
def checkOutput (g : Graph) (op : OpId) (tensor : TensorId) : Except ConsistencyError Unit :=
  match g.tensor? tensor with
  | none => .error (.danglingTensor op tensor)
  | some t =>
    if t.producer? = some op then .ok () else .error (.producerMismatch op tensor t.producer?)

/-- The ports of `op` agree with the tensors wired to them. -/
def checkOp (g : Graph) (op : OpId) (o : Op) : Except ConsistencyError Unit := do
  o.inputs.toList.forM fun (_, tensor) => g.checkInput op o tensor
  o.outputs.toList.forM fun (_, tensor) => g.checkOutput op tensor

/-- Whether op number `op` has `tensor` among its inputs. -/
def readsTensor (g : Graph) (op : OpId) (tensor : TensorId) : Bool :=
  match g.op? op with
  | some o => o.inputs.contains tensor
  | none => false

/-- Whether op number `op` has `tensor` among its outputs. -/
def writesTensor (g : Graph) (op : OpId) (tensor : TensorId) : Bool :=
  match g.op? op with
  | some o => o.outputs.contains tensor
  | none => false

/-- The producer of a tensor is wired to it, or the tensor may do without one. -/
def checkProducer (g : Graph) (tensor : TensorId) (t : Tensor) : Except ConsistencyError Unit :=
  match t.producer? with
  | some op =>
    if g.writesTensor op tensor then .ok () else .error (.staleBackReference tensor op)
  | none =>
    if t.kind = .computed && !g.inputs.contains tensor then .error (.missingProducer tensor)
    else .ok ()

/-- The producer and the readers of a tensor are wired to it. -/
def checkTensor (g : Graph) (tensor : TensorId) (t : Tensor) : Except ConsistencyError Unit := do
  g.checkProducer tensor t
  t.readers.ops.forM fun op =>
    if g.readsTensor op tensor then .ok () else .error (.staleBackReference tensor op)

/-- Both ends of an ordering constraint exist. -/
def checkConstraint (g : Graph) (e : Edge) : Except ConsistencyError Unit := do
  unless g.ops.contains e.before do throw (.danglingConstraint e.before)
  unless g.ops.contains e.after do throw (.danglingConstraint e.after)

/-- Every wire of the graph is recorded in the same way at both ends, and
    constraints and declarations refer to what exists. -/
def check (g : Graph) : Except ConsistencyError Unit := do
  g.ops.toList.forM fun (op, o) => g.checkOp op o
  g.tensors.toList.forM fun (id, t) => g.checkTensor id t
  g.constraints.toList.forM g.checkConstraint
  (g.inputs ++ g.outputs).forM fun id =>
    if g.tensors.contains id then .ok () else .error (.unknownBoundary id)

end Graph

end Dataflow
