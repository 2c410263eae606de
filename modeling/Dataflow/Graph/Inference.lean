import Dataflow.Graph.Basic

/-! # Inference

    The types of the outputs of an op follow from the types of its inputs.
    An op is settled when this has been worked out.  Whenever the type of a
    tensor changes, every settled reader of it is worked out anew, so a
    change of one input travels through the graph until nothing changes any
    more, or until some op rejects its inputs. -/

namespace Dataflow

namespace Graph

/-! ## Section 1: One op -/

/-- The type of a wired input, for the op called `label`. -/
def inputType (g : Graph) (label : String) (tensor : TensorId) :
    Except GraphError TensorType := do
  let t ← g.requireTensor tensor
  match t.type? with
  | some type => return type
  | none => throw (.uninferredInput label tensor)

/-- Errors of an inference rule name the type of the operator.  Here the op
    takes its place. -/
def nameInference (label : String) : GraphError → GraphError
  | .inference _ reason => .inference label reason
  | other => other

/-- The output types of op number `op`, as they follow from its inputs.  With
    a `candidate`, its tensor is taken to be wired at its index. -/
def inferOp (g : Graph) (op : OpId) (candidate : Option (Nat × TensorId)) :
    Except GraphError (List TensorType) := do
  let o ← g.requireOp op
  let label := o.label op
  let typed ← (o.inputs.toList ++ candidate.toList).mapM fun (index, tensor) => do
    return (index, ← g.inputType label tensor)
  let known : Std.ExtTreeMap Nat TensorType := Std.ExtTreeMap.ofList typed
  let extent := match candidate with
    | some (index, _) => max o.inputs.extent (index + 1)
    | none => o.inputs.extent
  (o.operator.infer ((List.range extent).map (known[·]?))).mapError (nameInference label)

end Graph

/-! ## Section 2: Settling

    A rejection may come after many types have been written.  So every step
    keeps a record of what it writes over, and the record leads back. -/

/-- A graph in the middle of settling, with what it takes to go back. -/
structure Settling where
  graph : Graph
  /-- The types that have been written over, the latest first. -/
  types : List (TensorId × Option TensorType) := []
  /-- The ops that were not settled before, the latest first. -/
  marked : List OpId := []

namespace Settling

/-- A part of settling.  When it is refused, what was done up to that point is
    there and on record. -/
abbrev Step := EStateM GraphError Settling

/-- Put a question to the graph. -/
def ask {α : Type} (question : Graph → Except GraphError α) : Step α := fun s =>
  match question s.graph with
  | .ok a => .ok a s
  | .error e => .error e s

/-- Give a tensor its type.  The result lists the settled ops that read the
    tensor, if its type has changed. -/
def writeType (id : TensorId) (type : TensorType) : Step (List OpId) := do
  let t ← ask (·.requireTensor id)
  if t.type? = some type then
    return []
  else
    let affected ← ask fun g => .ok (t.readers.ops.filter g.isSettled)
    modify fun s => { s with
      graph := s.graph.modifyTensor id fun t => { t with type? := some type }
      types := (id, t.type?) :: s.types }
    return affected

/-- Give each tensor its type.  The result lists the settled ops that read a
    tensor whose type has changed. -/
def writeTypes : List (TensorId × TensorType) → Step (List OpId)
  | [] => return []
  | (id, type) :: rest => do
    let affected ← writeType id type
    let later ← writeTypes rest
    return affected ++ later

/-- Mark op number `op` as settled. -/
def mark (op : OpId) : Step Unit := modify fun s =>
  if s.graph.isSettled op then s
  else { s with
    graph := s.graph.modifyOp op fun o => { o with isSettled := true }
    marked := op :: s.marked }

/-- Work out the output types of one op and mark it as settled.  The result
    lists the settled ops that have to be worked out anew. -/
def settleOne (op : OpId) : Step (List OpId) := do
  let types ← ask (·.inferOp op none)
  let o ← ask (·.requireOp op)
  let outputs := o.outputs.toList
  match outputs.mapM fun (index, id) => (types[index]?).map fun type => (id, type) with
  | none => throw (.outputCount (o.label op) outputs.length types.length)
  | some typed =>
    let affected ← writeTypes typed
    mark op
    return affected

/-- Settle the waiting ops one after the other, first come first served.  No
    op is settled twice, so there are at most as many rounds as ops. -/
def settleAll : (rounds : Nat) → (waiting : List OpId) → (visited : Std.ExtTreeSet OpId) →
    Step Unit
  | 0, _, _ => return
  | rounds + 1, waiting, visited =>
    match waiting.dropWhile visited.contains with
    | [] => return
    | op :: rest => do
      let affected ← settleOne op
      settleAll rounds (rest ++ affected) (visited.insert op)

/-- Give a tensor back the type that it had. -/
def giveBack (g : Graph) (entry : TensorId × Option TensorType) : Graph :=
  g.modifyTensor entry.1 fun t => { t with type? := entry.2 }

/-- Take the mark of a settled op off again. -/
def unmark (g : Graph) (op : OpId) : Graph := g.modifyOp op fun o => { o with isSettled := false }

/-- The graph before all that is on record. -/
def undo (s : Settling) : Graph := s.marked.foldl unmark (s.types.foldl giveBack s.graph)

end Settling

end Dataflow
