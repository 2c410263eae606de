import Dataflow.Closure
import Dataflow.Gradient.Ledger
import Dataflow.Graph.Edit
import Dataflow.Measure
import Dataflow.Operator.Builtin

/-! # Differentiation

    The backward graph of a scalar loss is grown into the graph itself.
    Gradients flow from a constant one, the gradient of the loss by itself,
    through two ledgers: each op whose output gradients are complete has its
    gradient ops grown, and each tensor whose partial gradients are complete
    has them summed.  Only ops with a data path to the loss take part.

    When differentiation fails, what has been grown so far stays. -/

namespace Dataflow

/-- What to differentiate. -/
structure GradientOptions where
  /-- The scalar tensor to differentiate. -/
  loss : TensorId
  /-- Variables that receive no gradient. -/
  doNotUpdate : Std.ExtTreeSet TensorId := ∅
  /-- Streams that receive a gradient. -/
  streamGradients : Std.ExtTreeSet TensorId := ∅
  /-- Number of forward phases.  If there is more than one, the gradient ops
      of an op in phase `p` run in phase `2 * phases - 1 - p`. -/
  phases : Nat := 0

/-- What differentiation has grown. -/
structure GradientReport where
  /-- The gradient of each variable or stream that has one. -/
  gradients : Std.ExtTreeMap TensorId TensorId := ∅
  /-- The ops that have been grown, in order of growth. -/
  grown : List OpId := []
  /-- Variables and requested streams that the loss does not depend on. -/
  missing : List TensorId := []

/-- A report as text. -/
def GradientReport.render (r : GradientReport) : String :=
  let lines := r.gradients.toList.map fun (source, grad) => s!"  {source} -> {grad}\n"
  let missing := if r.missing.isEmpty then ""
    else "Missing: " ++ ", ".intercalate r.missing ++ "\n"
  "Gradients:\n" ++ String.join lines ++ missing ++ s!"Grew {r.grown.length} ops"

/-- The ops with a data path to `target`, which is one of them. -/
def Graph.opsToward (g : Graph) (target : OpId) : List OpId :=
  closure (fun op =>
    match g.op? op with
    | some o => o.inputs.toList.filterMap fun (_, tensor) => g.producer? tensor
    | none => []) (g.opCount + 1) [target]

/-! ## Section 1: The state of growth -/

/-- A backward graph under construction. -/
structure Backward where
  graph : Graph
  partials : PartialGradients := {}
  outputs : OutputGradients := {}
  /-- The complete gradient of each tensor that has one. -/
  gradOf : Std.ExtTreeMap TensorId TensorId := ∅
  gradients : Std.ExtTreeMap TensorId TensorId := ∅
  /-- The ops that have been grown, in order of growth. -/
  grown : List OpId := []

/-- A step of growth that may fail. -/
abbrev Growth := EStateM GradientError Backward

namespace Growth

variable {α : Type}

/-- Edit the graph. -/
def edit (e : Edit α) : Growth α := fun b =>
  match e b.graph with
  | .ok a g => .ok a { b with graph := g }
  | .error err g => .error (.graph err) { b with graph := g }

/-- Put a question to the graph. -/
def ask (question : Graph → Except GraphError α) : Growth α := edit (Edit.ask question)

/-- Update the ledger of partial gradients. -/
def updatePartials (u : PartialGradients.Update α) : Growth α := fun b =>
  match u b.partials with
  | .ok a l => .ok a { b with partials := l }
  | .error err l => .error err { b with partials := l }

/-- Update the ledger of output gradients. -/
def updateOutputs (u : OutputGradients.Update α) : Growth α := fun b =>
  match u b.outputs with
  | .ok a l => .ok a { b with outputs := l }
  | .error err l => .error err { b with outputs := l }

/-- The result of a test, or its error. -/
def require (test : Except GradientError α) : Growth α := fun b =>
  match test with
  | .ok a => .ok a b
  | .error e => .error e b

/-- Note that `op` has been grown. -/
def noteGrown (op : OpId) : Growth Unit :=
  modify fun b => { b with grown := b.grown ++ [op] }

/-- Note the complete gradient of `tensor`. -/
def noteGrad (tensor grad : TensorId) : Growth Unit :=
  modify fun b => { b with gradOf := b.gradOf.insert tensor grad }

/-! ## Section 2: Gradient ops -/

/-- Each target of a gradient op is a wired forward input that has no
    gradient yet.  The result adds the targets to those `covered` before. -/
def checkTargets (label : String) (o : Op) (typeName : String) :
    List (Nat × Nat) → List Nat → Except GradientError (List Nat)
  | [], covered => .ok covered
  | (output, input) :: rest, covered =>
    if !o.inputs.hasIndex input then
      .error (.invalidGradOp label
        s!"output {output} of {typeName} maps to unwired input {input}")
    else if covered.contains input then
      .error (.invalidGradOp label s!"input {input} receives more than one gradient")
    else checkTargets label o typeName rest (input :: covered)

/-- The first slot that two wires share. -/
def repeatedSlot? : List GradWire → List Nat → Option Nat
  | [], _ => none
  | w :: rest, seen =>
    if seen.contains w.slot then some w.slot else repeatedSlot? rest (w.slot :: seen)

/-- The gradient ops that an operator describes fit the wiring of its op. -/
def checkSpecs (label : String) (o : Op) :
    List (GradSpec Operator) → List Nat → Except GradientError Unit
  | [], _ => .ok ()
  | spec :: rest, covered => do
    let covered ← checkTargets label o spec.operator.typeName spec.targets.toList covered
    match repeatedSlot? spec.wires [] with
    | some slot =>
      throw (.invalidGradOp label s!"{spec.operator.typeName} wires input {slot} twice")
    | none => checkSpecs label o rest covered

/-- The tensor that a wire of a gradient op of `o` reads, if it is there. -/
def sourceOf? (gradOf : Std.ExtTreeMap TensorId TensorId) (o : Op) (w : GradWire) :
    Option TensorId :=
  match w.source with
  | .input => o.inputs.get? w.index
  | .output => o.outputs.get? w.index
  | .outputGrad => (o.outputs.get? w.index).bind fun t => gradOf[t]?

/-- The inputs of a gradient op. -/
def wiring (label : String) (o : Op) (spec : GradSpec Operator)
    (gradOf : Std.ExtTreeMap TensorId TensorId) :
    Except GradientError (List (Nat × TensorId)) :=
  spec.wires.mapM fun w =>
    match sourceOf? gradOf o w with
    | some tensor => .ok (w.slot, tensor)
    | none => .error (.invalidGradOp label (s!"{w.source.name} index {w.index} needed by "
        ++ s!"{spec.operator.typeName} is not available"))

/-- The outputs of a gradient op, each with the forward input and the tensor
    whose gradient it is. -/
def targetTensors (label : String) (o : Op) (spec : GradSpec Operator) :
    Except GradientError (List (Nat × Nat × TensorId)) :=
  spec.targets.toList.mapM fun (output, input) =>
    match o.inputs.get? input with
    | some tensor => .ok (output, input, tensor)
    | none => .error (.internal s!"input {input} of {label} vanished")

/-- The phase of the gradient ops of an op in phase `forward?`.  Phases are
    64-bit signed numbers. -/
def backwardPhase (phases : Nat) (forward? : Option Int) : Option Int :=
  let count := toSigned phases
  match forward? with
  | some p => if count > 1 then some (toSigned (2 * count - 1 - p)) else some p
  | none => none

/-- The gradient at output `output` of the op `gradOp`, which has to have the
    type of `tensor`. -/
def inspect (label : String) (gradOp : OpId) (output : Nat) (tensor : TensorId) :
    Growth TensorId := do
  let expected ← ask (·.typeOf tensor)
  let o ← ask (·.requireOp gradOp)
  match o.outputs.get? output with
  | none => throw (.internal "gradient output vanished")
  | some grad =>
    let found ← ask (·.typeOf grad)
    if found ≠ expected then
      throw (.invalidGradOp label
        s!"gradient '{grad}' is {found.render}, '{tensor}' is {expected.render}")
    return grad

/-- Enter the gradient at output `output` of the op `gradOp` among the partial
    gradients of `tensor`. -/
def deliver (label : String) (gradOp : OpId) (output : Nat) (tensor : TensorId) :
    Growth Unit := do
  let grad ← inspect label gradOp output tensor
  updatePartials (PartialGradients.insert tensor grad)

/-- Wire one gradient op of op `forward`.  The result is its number and what
    its outputs are for. -/
def wireGradOp (options : GradientOptions) (forward : OpId) (label : String)
    (spec : GradSpec Operator) (phase? : Option Int) :
    Growth (OpId × List (Nat × Nat × TensorId)) := do
  let o ← ask (·.requireOp forward)
  let gradOf := (← get).gradOf
  let inputs ← require (wiring label o spec gradOf)
  let targets ← require (targetTensors label o spec)
  let gradOp ← edit (Edit.createOp spec.operator { phase? := backwardPhase options.phases phase? })
  inputs.forM fun (slot, tensor) => edit (Edit.connectInput gradOp slot tensor)
  targets.forM fun (output, input, tensor) =>
    edit (Edit.createOutput gradOp output (Naming.edgeGrad tensor forward input))
  edit (Edit.change (·.modifyOp gradOp fun o =>
    { o with origin? := some ⟨forward, spec.wires, spec.targets⟩ }))
  return (gradOp, targets)

/-- Settle an op that has been wired, and note it. -/
def settleNew (op : OpId) : Growth Unit := do
  edit (Edit.settle op)
  noteGrown op

/-- Grow one gradient op of op `forward`. -/
def growGradOp (options : GradientOptions) (forward : OpId) (label : String)
    (spec : GradSpec Operator) (phase? : Option Int) : Growth Unit := do
  let (gradOp, targets) ← wireGradOp options forward label spec phase?
  settleNew gradOp
  targets.forM fun (output, _, tensor) => deliver label gradOp output tensor

/-- The gradient ops that op `forward` asks for, once they have been checked. -/
def describe (forward : OpId) : Growth (Op × List (GradSpec Operator)) := do
  let o ← ask (·.requireOp forward)
  if o.isGradient then throw (.gradOfGradOp (o.label forward))
  let specs ← ask fun g => o.operator.gradSpecs (g.view forward o)
  require (checkSpecs (o.label forward) o specs [])
  return (o, specs)

/-- The inputs of an op that none of its gradient ops covers. -/
def uncovered (o : Op) (specs : List (GradSpec Operator)) : List (Nat × TensorId) :=
  o.inputs.toList.filter fun (index, _) =>
    !(specs.flatMap fun spec => spec.targets.values).contains index

/-- Grow all gradient ops of op `forward`.  The edges of the inputs that none
    of them covers will never deliver. -/
def growGradOps (options : GradientOptions) (forward : OpId) : Growth Unit := do
  let (o, specs) ← describe forward
  specs.forM fun spec => growGradOp options forward (o.label forward) spec o.settings.phase?
  let o ← ask (·.requireOp forward)
  (uncovered o specs).forM fun x => updatePartials (PartialGradients.waive x.2)

/-! ## Section 3: Sums of partial gradients -/

/-- The gradient of `tensor` is complete: tell its producer, if that has a
    path to the loss. -/
def tellProducer (towardLoss : List OpId) (tensor : TensorId) : Growth Unit := do
  let t ← ask (·.requireTensor tensor)
  match t.producer? with
  | none => pure ()
  | some producer =>
    if towardLoss.contains producer then
      let o ← ask (·.requireOp producer)
      (o.outputs.indices tensor).forM fun index =>
        updateOutputs (OutputGradients.insert producer o index)

/-- Strike off the output that `tensor` comes from.  The result is its op, if
    no output of that is left. -/
def strike (towardLoss : List OpId) (tensor : TensorId) : Growth (Option (OpId × Op)) := do
  let t ← ask (·.requireTensor tensor)
  match t.producer? with
  | none => return none
  | some producer =>
    if towardLoss.contains producer then
      let o ← ask (·.requireOp producer)
      let waived ← (o.outputs.indices tensor).mapM fun index =>
        updateOutputs fun l =>
          let (given, l) := l.waive producer o index
          .ok given l
      return if waived.any id then some (producer, o) else none
    else return none

/-- `tensor` will never have a gradient.  When this holds for all outputs of
    its producer, the edges of the producer's inputs will not deliver either. -/
def giveUpProducer (towardLoss : List OpId) (tensor : TensorId) : Growth Unit := do
  match ← strike towardLoss tensor with
  | none => pure ()
  | some (_, o) =>
    o.inputs.toList.forM fun x => updatePartials (PartialGradients.waive x.2)

/-- Whether a tensor of this kind and name is to have a gradient. -/
def isWanted (options : GradientOptions) (kind : TensorKind) (tensor : TensorId) : Bool :=
  match kind with
  | .const => false
  | .stream => options.streamGradients.contains tensor
  | .var => !options.doNotUpdate.contains tensor
  | .computed => true

/-- The phase of the producer of a partial gradient. -/
def phaseOf? (g : Graph) (grad : TensorId) : Option Int :=
  ((g.producer? grad).bind g.op?).bind fun o => o.settings.phase?

/-- Different names in ascending order. -/
def byName (ids : List TensorId) : List TensorId := (Std.ExtTreeSet.ofList ids).toList

/-- Wire the op that sums the partial gradients of `tensor`, sorted by name, in
    the latest phase in which one of them is produced. -/
def wireSum (tensor : TensorId) (partials : List TensorId) : Growth OpId := do
  let sorted := byName partials
  let phase? ← ask fun g => .ok (sorted.filterMap (phaseOf? g)).max?
  let sum ← edit (Edit.createOp Builtin.sum.operator { name := s!"GradSum:{tensor}", phase? })
  sorted.zipIdx.forM fun (grad, index) => edit (Edit.connectInput sum index grad)
  edit (Edit.createOutput sum 0 (Naming.grad tensor))
  return sum

/-- Sum the partial gradients of `tensor`.  The result is its gradient. -/
def growSum (tensor : TensorId) (partials : List TensorId) : Growth TensorId := do
  let sum ← wireSum tensor partials
  settleNew sum
  noteGrad tensor (Naming.grad tensor)
  return Naming.grad tensor

/-- All partial gradients of `tensor` have arrived. -/
def growGradient (options : GradientOptions) (towardLoss : List OpId) (tensor : TensorId)
    (partials : List TensorId) : Growth Unit := do
  let t ← ask (·.requireTensor tensor)
  if partials.isEmpty then
    giveUpProducer towardLoss tensor
  else if isWanted options t.kind tensor then
    let total ← growSum tensor partials
    match t.kind with
    | .var | .stream =>
      modify fun b => { b with gradients := b.gradients.insert tensor total }
    | .const | .computed => tellProducer towardLoss tensor

/-! ## Section 4: The whole backward graph -/

/-- What a round takes out of the ledgers: ops, and tensors with the partial
    gradients that have arrived. -/
structure Round where
  ops : List OpId
  arrivals : List (TensorId × List TensorId)

/-- Whether nothing was complete. -/
def Round.isIdle (r : Round) : Bool := r.ops.isEmpty && r.arrivals.isEmpty

end Growth

/-- What is complete. -/
def Backward.round (b : Backward) : Growth.Round :=
  ⟨b.outputs.takeComplete.1, b.partials.takeComplete.1⟩

/-- The state once that has been taken out of the ledgers. -/
def Backward.cleared (b : Backward) : Backward :=
  { b with outputs := b.outputs.takeComplete.2, partials := b.partials.takeComplete.2 }

namespace Growth

/-- Take out of the ledgers what is complete. -/
def takeRound : Growth Round := fun b => .ok b.round b.cleared

/-- Each op of a round has its gradient ops grown, and then each tensor its sum. -/
def turns (options : GradientOptions) (towardLoss : List OpId) (r : Round) : Growth Unit := do
  r.ops.forM (growGradOps options)
  r.arrivals.forM fun x => growGradient options towardLoss x.1 x.2

/-- Grow until nothing is complete any more.  No op and no tensor is complete
    twice, which bounds the number of rounds. -/
def propagate (options : GradientOptions) (towardLoss : List OpId) : (rounds : Nat) → Growth Unit
  | 0 => pure ()
  | rounds + 1 => do
    let r ← takeRound
    if r.isIdle then
      pure ()
    else
      turns options towardLoss r
      propagate options towardLoss rounds

/-- A constant one is the gradient of the loss by itself. -/
def seed (loss : TensorId) (type : TensorType) (towardLoss : List OpId) : Growth Unit := do
  let grad := Naming.grad loss
  edit (Edit.addInitialised grad .const type (Payload.one type.element))
  noteGrad loss grad
  tellProducer towardLoss loss

end Growth

namespace Backward

/-- How often each tensor is read by `ops`. -/
def readCounts (g : Graph) (ops : List OpId) : Std.ExtTreeMap TensorId Nat :=
  let reads := ops.flatMap fun op =>
    match g.op? op with
    | some o => o.inputs.toList.map Prod.snd
    | none => []
  reads.foldl (fun counts tensor => counts.insert tensor (counts.getD tensor 0 + 1)) ∅

/-- The outputs of an op that `reads` mentions, and the loss. -/
def neededOutputs (reads : Std.ExtTreeMap TensorId Nat) (loss : TensorId) (o : Op) :
    Std.ExtTreeSet Nat :=
  Std.ExtTreeSet.ofList (o.outputs.toList.filterMap fun (index, tensor) =>
    if reads.contains tensor || tensor = loss then some index else none)

/-- Require, one op after the other, the outputs that are needed of each. -/
def requireAll (g : Graph) (reads : Std.ExtTreeMap TensorId Nat) (loss : TensorId)
    (ops : List OpId) (l : OutputGradients) : OutputGradients :=
  ops.foldl (fun l op =>
    match g.op? op with
    | some o => l.require op (neededOutputs reads loss o)
    | none => l) l

/-- The state before anything is grown: a partial gradient is expected for
    every edge into an op with a path to the loss. -/
def start (g : Graph) (loss : TensorId) (towardLoss : List OpId) : Backward :=
  let reads := readCounts g towardLoss
  { graph := g
    partials := { expected := reads }
    outputs := requireAll g reads loss towardLoss {} }

/-- Variables and requested streams that have no gradient. -/
def missing (b : Backward) (options : GradientOptions) : List TensorId :=
  let untrained := (b.graph.tensorsOfKind .var).filter fun id =>
    !options.doNotUpdate.contains id && !b.gradients.contains id
  let streams := options.streamGradients.toList.filter fun id => !b.gradients.contains id
  untrained ++ streams

/-- What has been grown. -/
def report (b : Backward) (options : GradientOptions) : GradientReport where
  gradients := b.gradients
  grown := b.grown
  missing := b.missing options

end Backward

namespace Graph

/-- The type and the producer of a tensor that can be differentiated, in a
    graph without reserved names. -/
def lossProducer (g : Graph) (loss : TensorId) : Except GradientError (TensorType × OpId) := do
  if let some id := g.tensorIds.find? Naming.isReserved then
    throw (.reservedId id)
  match g.tensor? loss with
  | none => throw (.unknownLoss loss)
  | some t =>
    match t.type? with
    | none => throw (.internal s!"loss '{loss}' has no shape")
    | some type =>
      if type.count ≠ 1 then throw (.lossNotScalar loss type)
      match t.producer? with
      | none => throw (.lossWithoutProducer loss)
      | some producer => return (type, producer)

/-- Grow the backward graph of a loss into the graph. -/
def differentiate (options : GradientOptions) : EStateM GradientError Graph GradientReport :=
  fun g =>
    match g.lossProducer options.loss with
    | .error e => .error e g
    | .ok (type, producer) =>
      let towardLoss := g.opsToward producer
      let start := Backward.start g options.loss towardLoss
      let rounds := towardLoss.length + start.partials.expected.size + 1
      let growth : Growth Unit := do
        Growth.seed options.loss type towardLoss
        Growth.propagate options towardLoss rounds
      match growth start with
      | .ok _ b => .ok (b.report options) b.graph
      | .error e b => .error e b.graph

end Graph

end Dataflow
