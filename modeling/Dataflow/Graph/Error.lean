import Dataflow.Tensor

/-! # Graph errors

    Why an edit of a graph, or a question to it, is refused.  Each cause has
    one wording, given by `GraphError.message`. -/

namespace Dataflow

/-- The causes for which a graph refuses an edit. -/
inductive GraphError where
  | duplicateTensor (tensor : TensorId)
  | unknownTensor (tensor : TensorId)
  | unknownOp (op : OpId)
  | reservedId (tensor : TensorId)
  | alreadyProduced (tensor : TensorId) (producer : OpId)
  | notComputed (tensor : TensorId) (kind : TensorKind)
  | unwiredInput (op : String) (index : Nat)
  | unwiredOutput (op : String) (index : Nat)
  /-- An input is wired to a tensor whose type is not known yet. -/
  | uninferredInput (op : String) (tensor : TensorId)
  /-- Inference rejects the types of the inputs. -/
  | inference (op : String) (reason : String)
  /-- An output is wired beyond those that inference describes. -/
  | outputCount (op : String) (wired inferred : Nat)
  | dataSize (tensor : TensorId) (type : TensorType) (expected found : Nat)
  | opStillConnected (op : String)
  | tensorStillConnected (tensor : TensorId)
  | notAnOutput (tensor : TensorId)
  | scopeMismatch (scope id : String)
  | notDifferentiable (op : String)
  /-- A contract that well-behaved callers never break. -/
  | internal (reason : String)
  deriving DecidableEq, Repr, Inhabited

namespace GraphError

/-- Whether the error is a broken contract, and not a refusal of the call. -/
def isInternal : GraphError → Bool
  | internal _ => true
  | _ => false

/-- The wording of each cause. -/
def message : GraphError → String
  | duplicateTensor t => s!"tensor '{t}' already exists"
  | unknownTensor t => s!"no tensor with id '{t}'"
  | unknownOp op => s!"no op with id {op}"
  | reservedId t => s!"tensor id '{t}' uses the reserved gradient prefix"
  | alreadyProduced t p => s!"tensor '{t}' is already produced by op {p}"
  | notComputed t kind => s!"tensor '{t}' is {kind.name} and cannot be an op output"
  | unwiredInput op i => s!"input {i} of {op} is not connected"
  | unwiredOutput op i => s!"output {i} of {op} is not connected"
  | uninferredInput op t => s!"input '{t}' of {op} has no shape information yet"
  | inference op reason => s!"inference failed for {op}: {reason}"
  | outputCount op wired inferred =>
    s!"{op} has {wired} wired outputs but inference produced {inferred}"
  | dataSize t type expected found =>
    s!"initial value of '{t}' has {found} bytes, {type.render} needs {expected}"
  | opStillConnected op => s!"{op} cannot be erased while it still has connected tensors"
  | tensorStillConnected t =>
    s!"tensor '{t}' cannot be removed while it has a producer or consumers"
  | notAnOutput t => s!"'{t}' is not a graph output"
  | scopeMismatch scope id => s!"'{id}' does not live in scope '{scope}'"
  | notDifferentiable op => s!"{op} has no gradient definition"
  | internal reason => s!"internal error: {reason}"

end GraphError

end Dataflow
