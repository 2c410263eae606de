import Dataflow.Graph.Order
import Dataflow.Schedule.Planner

/-! # Scheduling a graph

    The dependency graph of a graph.  Its nodes are the ops in order of their
    numbers.  When phases are respected, a barrier follows each phase but the
    last: every op of a phase precedes its barrier, which precedes every op
    of the next phase.  Allocations are the tensors that are not trained
    state, attached to every op that touches them, apart from the inputs
    which an op overwrites. -/

namespace Dataflow

/-- Further ordering constraints for one query: each op with the ops that
    have to run ahead of it. -/
abbrev ExtraOrder := Std.ExtTreeMap OpId (List OpId)

namespace Graph

/-! ## Section 1: Allocations -/

/-- Allocations in order of first use. -/
structure AllocTable where
  numbers : Std.ExtTreeMap TensorId Nat := ∅
  sizes : Array Nat := #[]

/-- The allocation of a tensor of `bytes` bytes, which may be a new one. -/
def AllocTable.number (table : AllocTable) (id : TensorId) (bytes : Nat) : Nat × AllocTable :=
  match table.numbers[id]? with
  | some n => (n, table)
  | none => (table.sizes.size, {
      numbers := table.numbers.insert id table.sizes.size
      sizes := table.sizes.push bytes })

/-- The tensors that an op touches: the inputs that it does not overwrite,
    then the outputs. -/
def touched (o : Op) : List TensorId :=
  let inputs := o.inputs.toList.filter fun (index, _) => !o.operator.modifies index
  (inputs ++ o.outputs.toList).map Prod.snd

/-- The allocations of some tensors, without repetition, in order of their
    first occurrence. -/
def allocsOf (g : Graph) (op : OpId) :
    List TensorId → List Nat → AllocTable → Except ScheduleError (List Nat × AllocTable)
  | [], allocs, table => .ok (allocs, table)
  | id :: rest, allocs, table =>
    match g.tensor? id with
    | none => .error (.internal s!"op {op} refers to unknown tensor '{id}'")
    | some t =>
      if t.kind = .var then g.allocsOf op rest allocs table
      else
        let (n, table) := table.number id t.bytes
        g.allocsOf op rest (if allocs.contains n then allocs else allocs ++ [n]) table

/-- The nodes of some ops, and the allocations that they use. -/
def opNodes (g : Graph) :
    List (OpId × Op) → AllocTable → Except ScheduleError (List Node × AllocTable)
  | [], table => .ok ([], table)
  | (op, o) :: rest, table => do
    let (allocs, table) ← g.allocsOf op (touched o) [] table
    let (nodes, table) ← g.opNodes rest table
    return ({ op? := some op, allocs, priority := o.settings.priority } :: nodes, table)

/-! ## Section 2: Edges -/

/-- The nodes of the ops, by number. -/
def nodeNumbers (g : Graph) : Std.ExtTreeMap OpId Nat :=
  Std.ExtTreeMap.ofList g.opIds.zipIdx

/-- The edges along which data flows between different ops. -/
def dataEdges (g : Graph) (number : Std.ExtTreeMap OpId Nat) : List Edge :=
  g.opIds.zipIdx.flatMap fun (op, node) =>
    (g.dataSuccessors op).filterMap fun reader =>
      (number[reader]?).map fun target => ⟨node, target⟩

/-- The edges that ordering constraints demand. -/
def constraintEdges (g : Graph) (number : Std.ExtTreeMap OpId Nat) : List Edge :=
  g.constraints.toList.filterMap fun e =>
    match number[e.before]?, number[e.after]? with
    | some b, some a => some ⟨b, a⟩
    | _, _ => none

/-- The node of an op that a query names. -/
def namedNode (number : Std.ExtTreeMap OpId Nat) (op : OpId) : Except ScheduleError Nat :=
  match number[op]? with
  | some node => .ok node
  | none => .error (.unknownOp op)

/-- The edges that a query demands on top.  No op is put ahead of itself. -/
def extraEdges (number : Std.ExtTreeMap OpId Nat) (extra : ExtraOrder) :
    Except ScheduleError (List Edge) := do
  let edges ← extra.toList.mapM fun (after, befores) => do
    let a ← namedNode number after
    befores.mapM fun before => do
      let b ← namedNode number before
      return (⟨b, a⟩ : Edge)
  return edges.flatten.filter fun e => e.before ≠ e.after

/-! ## Section 3: Phases -/

/-- The phase of an op, counted from zero.  An op without a phase runs in the
    first one. -/
def binOf (op : OpId) (o : Op) : Except ScheduleError Nat :=
  let phase := o.settings.phase?.getD (-1)
  if phase < -1 then .error (.invalidPhase op phase) else .ok (phase + 1).toNat

/-- The edges between ops and barriers: op `v` of bin `k` comes after barrier
    `k - 1` and before barrier `k`, and the barriers come one after another. -/
def barrierEdges (bins : List Nat) (barriers : Nat) : List Edge :=
  let n := bins.length
  let ops := bins.zipIdx.flatMap fun (bin, v) =>
    (if bin < barriers then [⟨v, n + bin⟩] else [])
      ++ (if bin > 0 then [⟨n + bin - 1, v⟩] else [])
  let chain := (List.range' 1 (barriers - 1)).map fun k => ⟨n + k - 1, n + k⟩
  ops ++ chain

/-! ## Section 4: The dependency graph -/

/-- What scheduling needs to know of the graph. -/
def dependencies (g : Graph) (extra : ExtraOrder) (options : ScheduleOptions) :
    Except ScheduleError DependencyGraph := do
  let ops := g.ops.toList
  let (nodes, table) ← g.opNodes ops {}
  let number := g.nodeNumbers
  let edges := g.dataEdges number ++ g.constraintEdges number ++ (← extraEdges number extra)
  if options.phases > 1 then
    let bins ← ops.mapM fun (op, o) => binOf op o
    let barriers := bins.foldl max 0
    let opNodes := (nodes.zip bins).map fun (node, bin) => { node with bin := bin }
    let barrierNodes := (List.range barriers).map fun k => ({ op? := none, bin := k } : Node)
    return {
      nodes := (opNodes ++ barrierNodes).toArray
      allocSizes := table.sizes
      edges := Std.ExtTreeSet.ofList (edges ++ barrierEdges bins barriers) }
  else
    return {
      nodes := nodes.toArray
      allocSizes := table.sizes
      edges := Std.ExtTreeSet.ofList edges }

/-- Whether any valid order of all ops exists. -/
def isSchedulable (g : Graph) (extra : ExtraOrder) (options : ScheduleOptions) : Bool :=
  match g.dependencies extra options with
  | .ok d => (d.listOrder options false).isOk
  | .error _ => false

end Graph

namespace Planner

/-- An order of all ops of a graph. -/
def scheduleGraph (p : Planner) (g : Graph) (extra : ExtraOrder) (optimal : Bool)
    (chance : Chance := .ofOptions p.options) : Except ScheduleError (List OpId) × Planner :=
  match g.dependencies extra p.options with
  | .ok d => p.schedule d optimal chance
  | .error e => (.error e, p)

/-- Pin the annealed order of all ops: each op is constrained to run right
    after the one before it. -/
def freeze (p : Planner) (g : Graph) (extra : ExtraOrder)
    (chance : Chance := .ofOptions p.options) : Except ScheduleError Graph × Planner :=
  match p.scheduleGraph g extra true chance with
  | (.ok order, p) =>
    let constraints := (order.zip order.tail).foldl
      (fun c (before, after) => c.insert before after) g.constraints
    (.ok { g with constraints }, p)
  | (.error e, p) => (.error e, p)

end Planner

end Dataflow
