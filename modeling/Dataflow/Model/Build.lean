import Dataflow.Graph.Edit
import Dataflow.Model.Description
import Dataflow.Operator.Catalogue

/-! # Building a graph from a model

    Tensors come first, then the nodes in order; each node is settled as soon
    as it is wired, so its inputs have to exist and its types have to fit. -/

namespace Dataflow

/-- Why a model is not turned into a graph. -/
inductive ModelError where
  /-- The text is not a model description. -/
  | malformed
  | catalogue (node : String) (error : CatalogueError)
  | unwiredInput (node : String) (index : Nat)
  | valueCount (id : TensorId) (expected found : Nat)
  | valueType (id : TensorId) (element : ElementType)
  | graph (error : GraphError)
  deriving DecidableEq, Repr, Inhabited

/-- The wording of each cause. -/
def ModelError.message : ModelError → String
  | malformed => "malformed model description"
  | catalogue node e => s!"node {node}: {e.message}"
  | unwiredInput node index => s!"node {node}: input {index} may not be left unwired"
  | valueCount id expected found =>
    s!"initializer '{id}' holds {found} values, expected {expected}"
  | valueType id element =>
    s!"initializer '{id}' gives values for non-float type {element.name}"
  | graph e => e.message

namespace Model

/-- The initial value of a tensor.  Values are given in single precision only,
    and take precedence over bytes. -/
def initialData (d : InitialDescription) (type : TensorType) : Except ModelError Payload :=
  match d.values? with
  | some values =>
    if d.element ≠ .f32 then .error (.valueType d.id d.element)
    else if values.length ≠ type.count then
      .error (.valueCount d.id type.count values.length)
    else .ok (Payload.ofFloats values)
  | none =>
    match d.bytes? with
    | some bytes => .ok ⟨bytes.toArray⟩
    | none => .ok (Payload.zeros type.bytes)

/-- Apply an edit to a graph that is dropped when the edit fails. -/
def apply {α : Type} (e : Edit α) (g : Graph) : Except ModelError (α × Graph) :=
  match e g with
  | .ok a g' => .ok (a, g')
  | .error err _ => .error (.graph err)

/-- Add a streamed input. -/
def addInput (g : Graph) (d : InputDescription) : Except ModelError Graph := do
  let (_, g) ← apply (Edit.addInput d.id ⟨d.element, d.shape⟩) g
  return g

/-- Add an initialised tensor. -/
def addInitial (g : Graph) (d : InitialDescription) : Except ModelError Graph := do
  let type : TensorType := ⟨d.element, d.shape⟩
  let data ← initialData d type
  let (_, g) ← match d.kind with
    | .var => apply (Edit.addVar d.id type data) g
    | .const => apply (Edit.addConst d.id type data) g
  return g

/-- How the node at position `index` is called in messages. -/
def nodeLabel (index : Nat) (d : NodeDescription) : String :=
  if d.name.isEmpty then s!"#{index} ({d.opType})" else s!"'{d.name}' ({d.opType})"

/-- The inputs of a node that are wired, with their indices. -/
def wiredInputs (d : NodeDescription) : List (Nat × TensorId) :=
  d.inputs.zipIdx.filterMap fun (id, index) => if id.isEmpty then none else some (index, id)

/-- Add the op of the node at position `index`. -/
def addNode (catalogue : Catalogue) (g : Graph) (d : NodeDescription) (index : Nat) :
    Except ModelError Graph := do
  let label := nodeLabel index d
  let operator ← (catalogue.create d.opType d.attributes d.inputs.length).mapError
    (ModelError.catalogue label)
  let unwired := d.inputs.zipIdx.find? fun (id, i) =>
    id.isEmpty && !operator.optionalInputs.contains i
  if let some (_, i) := unwired then
    throw (.unwiredInput label i)
  if let some id := d.outputs.find? Naming.isReserved then
    throw (.graph (.reservedId id))
  let settings : OpSettings := {
    name := d.name
    priority := d.priority
    phase? := d.phase?
    pruneable := d.pruneable }
  let outputs := d.outputs.zipIdx.map fun (id, i) => (i, id)
  let (_, g) ← apply (Edit.growOp operator settings (wiredInputs d) outputs) g
  return g

/-- Declare an output. -/
def addOutput (g : Graph) (id : TensorId) : Except ModelError Graph := do
  let (_, g) ← apply (Edit.markOutput id) g
  return g

/-- The graph of a model, with all ops settled. -/
def build (m : Model) (catalogue : Catalogue) : Except ModelError Graph := do
  let g : Graph := { scope := m.scope }
  let g ← m.inputs.foldlM addInput g
  let g ← m.initials.foldlM addInitial g
  let g ← m.nodes.zipIdx.foldlM (fun g (d, index) => addNode catalogue g d index) g
  m.outputs.foldlM addOutput g

end Model

end Dataflow
