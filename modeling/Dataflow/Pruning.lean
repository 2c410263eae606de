import Dataflow.Closure
import Dataflow.Graph.Edit

/-! # Pruning

    What is not needed is removed.  Needed are the declared outputs and the
    targets, all ops that must not be pruned or that have a side effect, and
    then, step by step, what those need: an op needs the tensors at its
    ports, and a tensor needs its producer and every op that writes it in
    place.  Variables always survive. -/

namespace Dataflow

/-- Why a graph cannot be pruned. -/
inductive PruneError where
  /-- No op at all is needed. -/
  | nothingRequired
  | graph (error : GraphError)
  deriving DecidableEq, Repr, Inhabited

/-- The wording of each cause. -/
def PruneError.message : PruneError → String
  | nothingRequired =>
    "pruning would remove every op of the graph; check the declared outputs and anchors"
  | graph e => e.message

/-- How much has been removed. -/
structure PruneReport where
  ops : Nat
  tensors : Nat
  deriving DecidableEq, Repr, Inhabited

/-- A part of a graph: an op or a tensor. -/
inductive Part where
  | op (id : OpId)
  | tensor (id : TensorId)
  deriving DecidableEq, Repr, Inhabited

namespace Graph

/-- The parts that a part needs. -/
def needs (g : Graph) : Part → List Part
  | .op id =>
    match g.op? id with
    | some o => (o.inputs.tensors ++ o.outputs.tensors).map .tensor
    | none => []
  | .tensor id =>
    match g.tensor? id with
    | some t =>
      (t.producer?.toList ++ t.readers.ops.filter fun op => g.modifies op id).map .op
    | none => []

/-- The parts that are needed for their own sake. -/
def roots (g : Graph) (targets : List TensorId) : List Part :=
  let tensors := (g.outputs ++ targets).filter g.tensors.contains
  let ops := g.ops.toList.filterMap fun (id, o) =>
    if !o.settings.pruneable || o.operator.hasSideEffect then some id else none
  ops.map .op ++ tensors.map .tensor

/-- Everything that is needed.  Targets that do not exist are ignored. -/
def required (g : Graph) (targets : List TensorId) : List Part :=
  closure g.needs (g.ops.size + g.tensors.size) (g.roots targets)

/-- The tensors that are neither `kept` nor wired to an op nor variables. -/
def deadTensors (g : Graph) (kept : List Part) : List TensorId :=
  g.tensors.toList.filterMap fun (id, t) =>
    if !kept.contains (.tensor id) && t.kind ≠ .var && t.isDetached then some id else none

end Graph

namespace Edit

/-- Unwire some ops and remove them. -/
def eraseOps (ops : List OpId) : Edit Unit :=
  ops.forM fun op => do
    disconnectAll op
    let _ ← eraseOp op

/-- Remove some tensors. -/
def removeTensors (ids : List TensorId) : Edit Unit :=
  ids.forM fun id => do let _ ← removeTensor id

/-- Remove some ops, then the tensors that are dead without them. -/
def pruneOps (doomed : List OpId) (kept : List Part) : Edit PruneReport := do
  eraseOps doomed
  let dead := (← get).deadTensors kept
  removeTensors dead
  return { ops := doomed.length, tensors := dead.length }

/-- Remove the tensors that no op is wired to, by name.  Variables and
    constants can be retained. -/
def removeIsolated (retainVars retainConsts : Bool) : Edit (List TensorId) := do
  let g ← get
  let isolated := g.tensors.toList.filterMap fun (id, t) =>
    let goes := match t.kind with
      | .var => !retainVars
      | .const => !retainConsts
      | .stream | .computed => true
    if t.isDetached && goes then some id else none
  removeTensors isolated
  return isolated

end Edit

namespace Graph

/-- Remove every op and every tensor that is not needed for the declared
    outputs and `targets`.  A graph with ops is not left without any. -/
def prune (targets : List TensorId) : EStateM PruneError Graph PruneReport := fun g =>
  let required := g.required targets
  let doomed := g.opIds.filter fun op => !required.contains (.op op)
  if g.opCount > 0 && doomed.length = g.opCount then .error .nothingRequired g
  else
    match Edit.pruneOps doomed required g with
    | .ok report g' => .ok report g'
    | .error e g' => .error (.graph e) g'

end Graph

end Dataflow
