import Dataflow.Closure
import Dataflow.Graph.Edit

/-! # Order among ops

    Which op has to run ahead of which: an op precedes the readers of its
    outputs, and it precedes what an ordering constraint puts after it.

    An op that writes one of its inputs in place destroys the old value, so
    the other readers of that tensor have to run ahead of it.
    `orderWriters` adds the constraints that this takes. -/

namespace Dataflow.Graph

/-- The other ops that read an output of op number `op`. -/
def dataSuccessors (g : Graph) (op : OpId) : List OpId :=
  match g.op? op with
  | some o => o.outputs.toList.flatMap fun (_, tensor) => (g.readers tensor).filter (· ≠ op)
  | none => []

/-- The ops that op number `op` has to precede, through data or constraints. -/
def successors (g : Graph) (op : OpId) : Std.ExtTreeSet OpId :=
  Std.ExtTreeSet.ofList (g.dataSuccessors op ++ g.constraints.after op)

/-- Every op with the ops it has to precede. -/
def edgeMap (g : Graph) : List (OpId × List OpId) :=
  g.opIds.map fun op => (op, (g.successors op).toList)

/-- The ops that are reached from `op` in one or more steps. -/
def downstream (g : Graph) (op : OpId) : List OpId :=
  closure (fun o => (g.successors o).toList) g.opCount (g.successors op).toList

/-- Every op with a tensor that it writes in place: by op, then by tensor. -/
def writes (g : Graph) : List (OpId × TensorId) :=
  g.ops.toList.flatMap fun (op, o) =>
    (o.inputs.tensors.filter o.modifies).map fun tensor => (op, tensor)

/-- The readers of `tensor` that have to be put ahead of `writer`: those that
    do not come after it anyway, and that are not put ahead of it already.
    Of two writers, the one created first runs first. -/
def unorderedReaders (g : Graph) (writer : OpId) (tensor : TensorId) : List OpId :=
  let downstream := g.downstream writer
  (g.readers tensor).filter fun reader =>
    reader ≠ writer
      && !downstream.contains reader
      && !g.constraints.contains reader writer
      && !(reader > writer && g.modifies reader tensor)

/-- Put `readers` ahead of `writer`. -/
def putAhead (g : Graph) (readers : List OpId) (writer : OpId) : Graph :=
  { g with constraints := readers.foldl (fun c reader => c.insert reader writer) g.constraints }

/-- Put the other readers of every tensor that is written in place ahead of
    the writer.  The number of new constraints is counted. -/
def orderWriters (g : Graph) : Nat × Graph :=
  g.writes.foldl (fun (n, g) (writer, tensor) =>
    let readers := g.unorderedReaders writer tensor
    (n + readers.length, g.putAhead readers writer)) (0, g)

/-- Op number `op` gets position `pos`.  It has to exist, and may not have a
    position yet. -/
def place (g : Graph) (position : Std.ExtTreeMap OpId Nat) (op : OpId) (pos : Nat) :
    Except GraphError (Std.ExtTreeMap OpId Nat) := do
  let _ ← g.requireOp op
  if position.contains op then
    throw (.internal s!"op {op} appears twice in the schedule")
  return position.insert op pos

/-- The position of every op in `schedule`, which may name existing ops only,
    and each of them once. -/
def positions (g : Graph) (schedule : List OpId) :
    Except GraphError (Std.ExtTreeMap OpId Nat) :=
  schedule.zipIdx.foldlM (fun position x => g.place position x.1 x.2) ∅

/-- The later of `last` and the position of `reader`, which reads an output of
    the op at position `pos` and has to come later than that. -/
def awaitReader (position : Std.ExtTreeMap OpId Nat) (pos : Nat) (op : OpId) (last : Nat)
    (reader : OpId) : Except GraphError Nat :=
  match position[reader]? with
  | some p =>
    if p > pos then .ok (max last p)
    else .error (.internal s!"schedule does not run consumer {reader} after op {op}")
  | none => .error (.internal s!"schedule does not run consumer {reader} after op {op}")

/-- The latest of `last` and the positions of the readers of `tensor`, an output
    of the op at position `pos`. -/
def awaitOutput (g : Graph) (position : Std.ExtTreeMap OpId Nat) (pos : Nat) (op : OpId)
    (last : Nat) (tensor : TensorId) : Except GraphError Nat := do
  let t ← g.requireTensor tensor
  t.readers.ops.foldlM (awaitReader position pos op) last

/-- The last position at which an output of the op at position `pos` is read. -/
def lastUse (g : Graph) (position : Std.ExtTreeMap OpId Nat) (pos : Nat) (op : OpId) :
    Except GraphError Nat := do
  let o ← g.requireOp op
  o.outputs.toList.foldlM (fun last x => g.awaitOutput position pos op last x.2) pos

/-- The ops that have run by `step` of a schedule and are used later.  `lasts`
    has the last use of each op. -/
def liveAt (schedule : List OpId) (lasts : List Nat) (step : Nat) : List OpId :=
  let live := ((schedule.zip lasts).take (step + 1)).filterMap fun (op, last) =>
    if last > step then some op else none
  (Std.ExtTreeSet.ofList live).toList

/-- For each step of `schedule`, the ops that have run and whose outputs are
    still awaited by a later op. -/
def liveSets (g : Graph) (schedule : List OpId) : Except GraphError (List (List OpId)) := do
  let position ← g.positions schedule
  let lasts ← schedule.zipIdx.mapM fun (op, pos) => g.lastUse position pos op
  return (List.range schedule.length).map (liveAt schedule lasts)

end Dataflow.Graph

namespace Dataflow.Edit

/-- Put the other readers of every tensor that is written in place ahead of
    the writer.  The result is the number of new constraints. -/
def orderWriters : Edit Nat := fun g => .ok g.orderWriters.1 g.orderWriters.2

end Dataflow.Edit
