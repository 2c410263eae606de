import Dataflow.Graph.Order
import Dataflow.Text.Quoted

/-! # Listings

    A graph and a schedule as text.  Tensors are listed by name and ops in
    order of creation, so the text depends on the contents of the graph
    only. -/

namespace Dataflow.Graph

/-- A tensor with its type, as far as that is known. -/
def showTyped (g : Graph) (id : TensorId) : String :=
  match (g.tensor? id).bind Tensor.type? with
  | some type => s!"{id}:{type.render}"
  | none => id

/-- The line of a tensor that no op produces. -/
def showTensor (id : TensorId) (t : Tensor) : String :=
  let type := match t.type? with
    | some type => type.render
    | none => "?"
  s!"  {t.kind.name} {id} : {type}\n"

/-- The line of an op. -/
def showOp (g : Graph) (op : OpId) (o : Op) : String :=
  let inputs := o.inputs.toList.map fun (index, id) => s!"{index}:{id}"
  let outputs := o.outputs.toList.map fun (_, id) => g.showTyped id
  let call := s!"  %{op} = {o.operator.typeName}(" ++ ", ".intercalate inputs ++ ")"
  let results := if outputs.isEmpty then "" else " -> " ++ ", ".intercalate outputs
  let origin := match o.origin? with
    | some origin => s!" grad_of=%{origin.forward}"
    | none => ""
  let name := if o.settings.name.isEmpty then "" else " name=" ++ Quoted.render o.settings.name
  let phase := match o.settings.phase? with
    | some phase => s!" phase={phase}"
    | none => ""
  call ++ results ++ origin ++ name ++ phase ++ "\n"

/-- The whole graph as text. -/
def listing (g : Graph) : String :=
  let tensors := g.tensors.toList.filter fun (_, t) => t.producer?.isNone
  let opening := s!"graph {Naming.showScope g.scope} \x7b\n"
  let closing := "\x7d  // inputs = [" ++ ", ".intercalate g.inputs ++ "], outputs = ["
    ++ ", ".intercalate g.outputs ++ "]\n"
  opening
    ++ String.join (tensors.map fun (id, t) => showTensor id t)
    ++ String.join (g.ops.toList.map fun (op, o) => g.showOp op o)
    ++ String.join (g.constraints.toList.map fun e =>
        s!"  constraint %{e.before} -> %{e.after}\n")
    ++ closing

/-- `text` at the right end of a column of at least `width` characters. -/
def rightAligned (width : Nat) (text : String) : String :=
  String.ofList (List.replicate (width - text.length) ' ') ++ text

/-- One line for each step of a schedule: its number, the op, and the ops
    that are live after it if the schedule is in order. -/
def scheduleListing (g : Graph) (schedule : List OpId) : String :=
  let live? := (g.liveSets schedule).toOption
  String.join (schedule.zipIdx.map fun (op, step) =>
    let name := match g.op? op with
      | some o => o.label op
      | none => s!"<missing {op}>"
    let live := match live? with
      | some sets =>
        "  live=[" ++ " ".intercalate ((sets.getD step []).map fun o => s!"%{o}") ++ "]"
      | none => ""
    rightAligned 4 s!"{step}" ++ s!"  {name}" ++ live ++ "\n")

end Dataflow.Graph
