import Dataflow.Operator.Attribute
import Dataflow.Tensor.Naming
import Dataflow.Tensor.Payload
import Dataflow.Text.Json

/-! # Model descriptions

    What a model consists of, before it is a graph: streamed inputs,
    initialised tensors, nodes in order of creation, and declared outputs.
    A description is read from a document. -/

namespace Dataflow

/-- A tensor that is fed in at run time. -/
structure InputDescription where
  id : TensorId
  element : ElementType
  shape : List Nat

/-- Whether training updates an initialised tensor. -/
inductive InitialKind where
  | var
  | const
  deriving DecidableEq, Repr, Inhabited

/-- An initialised tensor.  Without values and bytes it is all zeros. -/
structure InitialDescription where
  id : TensorId
  kind : InitialKind
  element : ElementType
  shape : List Nat
  values? : Option (List Float32) := none
  bytes? : Option (List UInt8) := none

/-- An op.  An empty name leaves its input unwired. -/
structure NodeDescription where
  opType : String
  inputs : List TensorId := []
  outputs : List TensorId
  attributes : Attributes := ∅
  name : String := ""
  priority : Binary64 := .zero
  phase? : Option Int := none
  pruneable : Bool := true

/-- A model. -/
structure Model where
  /-- The scope of the graph, empty for the root graph. -/
  scope : String := ""
  inputs : List InputDescription := []
  initials : List InitialDescription := []
  nodes : List NodeDescription := []
  outputs : List TensorId := []

/-! ## Section 1: Reading the parts -/

/-- An element type, by name. -/
def ElementType.ofDocument? (doc : Document) : Option ElementType :=
  doc.caseName?.bind ElementType.ofName?

/-- A tensor type: element type and shape. -/
def TensorType.ofDocument? (doc : Document) : Option TensorType := do
  let fields ← doc.record? ["dtype", "shape"]
  return {
    element := ← Document.required ElementType.ofDocument? fields[0]?
    shape := ← Document.required (Document.list? Document.nat?) fields[1]? }

/-- The value of an attribute: an integer if possible, else a number, a text
    or a list of integers. -/
def AttrValue.ofDocument? (doc : Document) : Option AttrValue :=
  match doc with
  | .number n =>
    match n.int? with
    | some i => some (.int (Int64.ofInt i))
    | none => n.float?.map .float
  | .text t => t.map .text
  | .list items => (items.mapM Document.int?).map fun is => .ints (is.map Int64.ofInt)
  | _ => none

/-- Attributes.  Of several values under one name the last one counts, but
    all of them have to be attribute values. -/
def Attributes.ofDocument? (doc : Document) : Option Attributes := do
  let members ← doc.members?
  let values ← members.mapM fun (key, value) => do
    return (key, ← AttrValue.ofDocument? value)
  return Std.ExtTreeMap.ofList values

/-- The kind of an initialised tensor, by either of its two names. -/
def InitialKind.ofDocument? (doc : Document) : Option InitialKind := do
  let name ← doc.caseName?
  if name = "var" || name = "variable" then some .var
  else if name = "const" || name = "constant" then some .const
  else none

/-- A streamed input. -/
def InputDescription.ofDocument? (doc : Document) : Option InputDescription := do
  let fields ← doc.record? ["id", "dtype", "shape"]
  return {
    id := ← Document.required Document.text? fields[0]?
    element := ← Document.required ElementType.ofDocument? fields[1]?
    shape := ← Document.required (Document.list? Document.nat?) fields[2]? }

/-- An initialised tensor. -/
def InitialDescription.ofDocument? (doc : Document) : Option InitialDescription := do
  let fields ← doc.record? ["id", "kind", "dtype", "shape", "values", "bytes"]
  return {
    id := ← Document.required Document.text? fields[0]?
    kind := ← Document.required InitialKind.ofDocument? fields[1]?
    element := ← Document.required ElementType.ofDocument? fields[2]?
    shape := ← Document.required (Document.list? Document.nat?) fields[3]?
    values? := ← Document.withDefault
      (Document.optional? (Document.list? Document.float32?)) none fields[4]?
    bytes? := ← Document.withDefault
      (Document.optional? (Document.list? Document.byte?)) none fields[5]? }

/-- An op. -/
def NodeDescription.ofDocument? (doc : Document) : Option NodeDescription := do
  let fields ← doc.record?
    ["op_type", "inputs", "outputs", "attributes", "name", "priority", "phase", "pruneable"]
  return {
    opType := ← Document.required Document.text? fields[0]?
    inputs := ← Document.withDefault (Document.list? Document.text?) [] fields[1]?
    outputs := ← Document.required (Document.list? Document.text?) fields[2]?
    attributes := ← Document.withDefault Attributes.ofDocument? ∅ fields[3]?
    name := ← Document.withDefault Document.text? "" fields[4]?
    priority := ← Document.withDefault Document.binary64? .zero fields[5]?
    phase? := ← Document.withDefault (Document.optional? Document.int?) none fields[6]?
    pruneable := ← Document.withDefault Document.bool? true fields[7]? }

/-! ## Section 2: Reading a model -/

/-- A model. -/
def Model.ofDocument? (doc : Document) : Option Model := do
  let fields ← doc.record? ["graph", "inputs", "initializers", "nodes", "outputs"]
  return {
    scope := ← Document.withDefault Document.text? "" fields[0]?
    inputs := ← Document.withDefault (Document.list? InputDescription.ofDocument?) [] fields[1]?
    initials := ← Document.withDefault
      (Document.list? InitialDescription.ofDocument?) [] fields[2]?
    nodes := ← Document.withDefault (Document.list? NodeDescription.ofDocument?) [] fields[3]?
    outputs := ← Document.withDefault (Document.list? Document.text?) [] fields[4]? }

/-- The model that a JSON text describes. -/
def Model.ofJson? (source : String) : Option Model :=
  (Json.parse? source).bind Model.ofDocument?

end Dataflow
