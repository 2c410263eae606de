import Dataflow.Graph.Inference

/-! # Edits

    An edit takes a graph to a result and the graph it leaves behind, or to
    an error and the graph it leaves behind.  Most edits leave the graph as
    it was when they fail; those made of several edits may fail midway, and
    then leave what was done up to that point.

    Every edit keeps the two ends of all wires in agreement: an op is among
    the readers of a tensor once for each input wired to it, and is the
    producer of a tensor exactly when one of its outputs is wired to it. -/

namespace Dataflow

/-- A change of a graph that may be refused. -/
abbrev Edit := EStateM GraphError Graph

namespace Edit

/-! ## Section 1: Building blocks -/

/-- Put a question to the graph. -/
def ask {α : Type} (question : Graph → Except GraphError α) : Edit α := fun g =>
  match question g with
  | .ok a => .ok a g
  | .error e => .error e g

/-- Change the graph. -/
def change (f : Graph → Graph) : Edit Unit := fun g => .ok () (f g)

/-- Run an edit, and `undo` after it if it is refused. -/
def orUndo {α : Type} (edit : Edit α) (undo : Edit Unit) : Edit α :=
  try edit
  catch e =>
    undo
    throw e

/-- Settle op number `op` and everything that its new output types affect.  A
    rejection anywhere takes back all that was written. -/
def settle (op : OpId) : Edit Unit := fun g =>
  match Settling.settleAll (g.opCount + 1) [op] ∅ { graph := g } with
  | .ok _ s => .ok () s.graph
  | .error e s => .error e s.undo

/-! ## Section 2: Tensors -/

/-- A user may only introduce names that are not reserved and not taken. -/
def requireNewName (id : TensorId) : Edit Unit := ask fun g =>
  if Naming.isReserved id then .error (.reservedId id)
  else if g.tensors.contains id then .error (.duplicateTensor id)
  else .ok ()

/-- Add a tensor that is fed in at run time. -/
def addStream (id : TensorId) (type : TensorType) : Edit Unit := do
  requireNewName id
  change (·.insertTensor id { kind := .stream, type? := some type })

/-- Add a tensor that is fed in at run time, and declare it as an input. -/
def addInput (id : TensorId) (type : TensorType) : Edit Unit := do
  addStream id type
  change fun g => { g with inputs := g.inputs ++ [id] }

/-- Add an initialised tensor, under any new name. -/
def addInitialised (id : TensorId) (kind : TensorKind) (type : TensorType) (data : Payload) :
    Edit Unit := do
  ask fun g =>
    if g.tensors.contains id then .error (.duplicateTensor id)
    else if !data.fits type then .error (.dataSize id type type.bytes data.size)
    else .ok ()
  change (·.insertTensor id { kind := kind, type? := some type, data? := some data })

/-- Add a tensor whose value never changes. -/
def addConst (id : TensorId) (type : TensorType) (data : Payload) : Edit Unit := do
  requireNewName id
  addInitialised id .const type data

/-- Add a tensor that training updates. -/
def addVar (id : TensorId) (type : TensorType) (data : Payload) : Edit Unit := do
  requireNewName id
  addInitialised id .var type data

/-- Declare an existing tensor as an input.  A second declaration changes nothing. -/
def markInput (id : TensorId) : Edit Unit := do
  let _ ← ask (·.requireTensor id)
  change fun g => if g.inputs.contains id then g else { g with inputs := g.inputs ++ [id] }

/-- Declare an existing tensor as an output.  A second declaration changes nothing. -/
def markOutput (id : TensorId) : Edit Unit := do
  let _ ← ask (·.requireTensor id)
  change fun g => if g.outputs.contains id then g else { g with outputs := g.outputs ++ [id] }

/-- Take back the first declaration of `id` as an output. -/
def removeOutput (id : TensorId) : Edit Unit := do
  ask fun g => if g.outputs.contains id then .ok () else .error (.notAnOutput id)
  change fun g => { g with outputs := g.outputs.erase id }

/-- Remove a tensor that no op is wired to, together with its declarations. -/
def removeTensor (id : TensorId) : Edit Tensor := do
  let t ← ask (·.requireTensor id)
  unless t.isDetached do throw (.tensorStillConnected id)
  change fun g => { g with
    tensors := g.tensors.erase id
    inputs := g.inputs.filter (· ≠ id)
    outputs := g.outputs.filter (· ≠ id) }
  return t

/-! ## Section 3: Ops and their wiring -/

/-- Create an op without any wiring. -/
def createOp (operator : Operator) (settings : OpSettings) : Edit OpId := fun g =>
  .ok g.nextOp { g with
    ops := g.ops.insert g.nextOp { operator, settings }
    nextOp := g.nextOp + 1 }

/-- Change the settings of an op. -/
def configure (op : OpId) (f : OpSettings → OpSettings) : Edit Unit := do
  let _ ← ask (·.requireOp op)
  change (·.modifyOp op fun o => { o with settings := f o.settings })

/-- Wire `tensor` at input `index` of an op that has `previous?` there. -/
def rewireInput (op : OpId) (index : Nat) (previous? : Option TensorId) (tensor : TensorId) :
    Edit Unit := do
  change (·.modifyOp op fun o => { o with inputs := o.inputs.insert index tensor })
  if let some previous := previous? then
    change (·.dropReader previous op)
  change (·.addReader tensor op)

/-- Take `tensor` off input `index` of an op that had `previous?` there. -/
def restoreInput (op : OpId) (index : Nat) (previous? : Option TensorId) (tensor : TensorId) :
    Edit Unit := do
  change (·.modifyOp op fun o => { o with inputs := o.inputs.set index previous? })
  change (·.dropReader tensor op)
  if let some previous := previous? then
    change (·.addReader previous op)

/-- Wire `tensor` at input `index` of `op`, in place of whatever is wired
    there.  When the op is settled, its outputs and everything after them are
    worked out anew; a rejection anywhere takes the wire back. -/
def connectInput (op : OpId) (index : Nat) (tensor : TensorId) : Edit Unit := do
  let _ ← ask (·.requireTensor tensor)
  let o ← ask (·.requireOp op)
  if o.isSettled then
    let _ ← ask (·.inferOp op (some (index, tensor)))
  rewireInput op index (o.inputs.get? index) tensor
  if o.isSettled then
    orUndo (settle op) (restoreInput op index (o.inputs.get? index) tensor)

/-- Unwire input `index` of `op`.  The result is the tensor that was there. -/
def disconnectInput (op : OpId) (index : Nat) : Edit TensorId := do
  let o ← ask (·.requireOp op)
  match o.inputs.get? index with
  | none => throw (.unwiredInput (o.label op) index)
  | some tensor =>
    change (·.modifyOp op fun o => { o with inputs := o.inputs.erase index })
    let t ← ask (·.requireTensor tensor)
    change (·.dropReader tensor op)
    unless t.readers.contains op do
      throw (.internal s!"op {op} consumed '{tensor}' without a consumer back-reference")
    return tensor

/-- Wire `tensor` at output `index` of an op that has `previous?` there. -/
def rewireOutput (op : OpId) (index : Nat) (previous? : Option TensorId) (tensor : TensorId) :
    Edit Unit := do
  change (·.modifyOp op fun o => { o with outputs := o.outputs.insert index tensor })
  if let some previous := previous? then
    change (·.setProducer previous none)
  change (·.setProducer tensor (some op))

/-- Take `tensor` off output `index` of an op that had `previous?` there. -/
def restoreOutput (op : OpId) (index : Nat) (previous? : Option TensorId) (tensor : TensorId) :
    Edit Unit := do
  change (·.modifyOp op fun o => { o with outputs := o.outputs.set index previous? })
  change (·.setProducer tensor none)
  if let some previous := previous? then
    change (·.setProducer previous (some op))

/-- Wire an existing computed tensor without a producer at output `index` of
    `op`.  When the op is settled, its outputs are worked out anew; a
    rejection anywhere takes the wire back. -/
def connectOutput (op : OpId) (index : Nat) (tensor : TensorId) : Edit Unit := do
  let t ← ask (·.requireTensor tensor)
  if let some producer := t.producer? then
    throw (.alreadyProduced tensor producer)
  unless t.kind = .computed do
    throw (.notComputed tensor t.kind)
  let o ← ask (·.requireOp op)
  rewireOutput op index (o.outputs.get? index) tensor
  if o.isSettled then
    orUndo (settle op) (restoreOutput op index (o.outputs.get? index) tensor)

/-- Create a computed tensor and wire it at output `index` of `op`.  The
    tensor stays when the wiring is refused. -/
def createOutput (op : OpId) (index : Nat) (tensor : TensorId) : Edit Unit := do
  ask fun g => if g.tensors.contains tensor then .error (.duplicateTensor tensor) else .ok ()
  let _ ← ask (·.requireOp op)
  change (·.insertTensor tensor { kind := .computed })
  connectOutput op index tensor

/-- Unwire output `index` of `op`.  The result is the tensor that was there,
    which stays in the graph without a producer. -/
def disconnectOutput (op : OpId) (index : Nat) : Edit TensorId := do
  let o ← ask (·.requireOp op)
  match o.outputs.get? index with
  | none => throw (.unwiredOutput (o.label op) index)
  | some tensor =>
    change (·.modifyOp op fun o => { o with outputs := o.outputs.erase index })
    let _ ← ask (·.requireTensor tensor)
    change (·.setProducer tensor none)
    return tensor

/-- Unwire every input and every output of `op`. -/
def disconnectAll (op : OpId) : Edit Unit := do
  let o ← ask (·.requireOp op)
  o.inputs.toList.forM fun (index, _) => do let _ ← disconnectInput op index
  o.outputs.toList.forM fun (index, _) => do let _ ← disconnectOutput op index

/-- Remove an op that no tensor is wired to, together with the ordering
    constraints on it. -/
def eraseOp (op : OpId) : Edit Op := do
  let o ← ask (·.requireOp op)
  unless o.isDetached do throw (.opStillConnected (o.label op))
  change fun g => { g with constraints := g.constraints.erase op }
  ask fun g =>
    if g.constraints.mentions op then
      .error (.internal s!"ordering constraints still reference erased op {op}")
    else .ok ()
  change fun g => { g with ops := g.ops.erase op }
  return o

/-- The input ports that read `tensor`: by op, then by index. -/
def readingPorts (tensor : TensorId) (g : Graph) : List (OpId × Nat) :=
  (g.readers tensor).flatMap fun op =>
    match g.op? op with
    | some o => (o.inputs.indices tensor).map fun index => (op, index)
    | none => []

/-- Make every reader of `old` read `new` at the same indices, one after the
    other, and put `new` in the place of `old` among the declared outputs.
    A rejection leaves the readers already rewired as they are. -/
def replaceTensor (old new : TensorId) : Edit Unit := do
  let _ ← ask (·.requireTensor new)
  let _ ← ask (·.requireTensor old)
  let ports ← ask fun g => .ok (readingPorts old g)
  ports.forM fun (op, index) => connectInput op index new
  change fun g => { g with outputs := g.outputs.map fun id => if id = old then new else id }

/-- Wire inputs of an op, up to the first refusal. -/
def connectInputs (op : OpId) (inputs : List (Nat × TensorId)) : Edit Unit :=
  inputs.forM fun (index, tensor) => connectInput op index tensor

/-- Create the outputs of an op, up to the first refusal. -/
def createOutputs (op : OpId) (outputs : List (Nat × TensorId)) : Edit Unit :=
  outputs.forM fun (index, tensor) => createOutput op index tensor

/-- Create an op, wire its inputs and its outputs in this order, and settle
    it.  Stops at the first refusal. -/
def growOp (operator : Operator) (settings : OpSettings)
    (inputs outputs : List (Nat × TensorId)) : Edit OpId := do
  let op ← createOp operator settings
  connectInputs op inputs
  createOutputs op outputs
  settle op
  return op

/-! ## Section 4: Ordering constraints -/

/-- Require op `before` to run ahead of op `after`. -/
def addConstraint (before after : OpId) : Edit Unit := do
  let _ ← ask (·.requireOp before)
  let _ ← ask (·.requireOp after)
  change fun g => { g with constraints := g.constraints.insert before after }

end Edit

end Dataflow
