import Dataflow.Edge
import Dataflow.Schedule.Options

/-! # Dependency graphs

    What scheduling needs to know of a graph.  The nodes are the ops, in
    order of their numbers, followed by the barriers between phases.  Edges
    say which node has to come before which.  Allocations are pieces of
    memory; a node uses those that hold the tensors it touches. -/

namespace Dataflow

/-- One thing to be put in order. -/
structure Node where
  /-- The op, or nothing for a barrier. -/
  op? : Option OpId
  /-- The allocations in use while the node runs, each of them once. -/
  allocs : List Nat := []
  priority : Binary64 := .zero
  /-- The phase, counted from zero.  Nodes of different bins never change places. -/
  bin : Nat := 0
  deriving BEq, Inhabited

/-- Nodes to be put in order, the order among them, and the memory they use. -/
structure DependencyGraph where
  nodes : Array Node
  /-- The size of each allocation in bytes. -/
  allocSizes : Array Nat
  edges : EdgeSet
  deriving BEq, Inhabited

namespace DependencyGraph

variable (d : DependencyGraph)

/-- Number of nodes, barriers included. -/
def size : Nat := d.nodes.size

/-- The op behind a node. -/
def op? (node : Nat) : Option OpId := (d.nodes[node]?).bind Node.op?

/-- Whether a node is no op. -/
def isBarrier (node : Nat) : Bool := (d.op? node).isNone

/-- Number of ops. -/
def opCount : Nat := d.nodes.countP fun n => n.op?.isSome

/-- Number of barriers. -/
def barrierCount : Nat := d.nodes.countP fun n => n.op?.isNone

/-- The node of an op. -/
def nodeOf? (op : OpId) : Option Nat := d.nodes.findIdx? fun n => n.op? == some op

/-- The phase of a node. -/
def bin (node : Nat) : Nat := (d.nodes[node]?.map Node.bin).getD 0

/-- The priority of a node. -/
def priority (node : Nat) : Binary64 := (d.nodes[node]?.map Node.priority).getD .zero

/-- The allocations that a node uses. -/
def allocs (node : Nat) : List Nat := (d.nodes[node]?.map Node.allocs).getD []

/-- Number of allocations. -/
def allocCount : Nat := d.allocSizes.size

/-- The size of an allocation. -/
def allocSize (alloc : Nat) : Nat := d.allocSizes.getD alloc 0

/-- The nodes that use an allocation, ascending. -/
def users (alloc : Nat) : List Nat :=
  (List.range d.size).filter fun node => (d.allocs node).contains alloc

/-- The nodes that use each allocation. -/
def userTable : Array (List Nat) := ((List.range d.allocCount).map d.users).toArray

/-- Whether `before` has an edge to `after`. -/
def hasEdge (before after : Nat) : Bool := d.edges.contains ⟨before, after⟩

/-- The nodes to which `node` has an edge, ascending. -/
def successors (node : Nat) : List Nat :=
  d.edges.toList.filterMap fun e => if e.before = node then some e.after else none

/-- The nodes that have an edge to `node`, ascending. -/
def predecessors (node : Nat) : List Nat :=
  d.edges.toList.filterMap fun e => if e.after = node then some e.before else none

/-- The ops of a node order, without the barriers. -/
def opsIn (order : List Nat) : List OpId := order.filterMap d.op?

/-- The barriers from number `next` on that end before a node of bin `bin`. -/
def barriersBefore (next bin : Nat) : List Nat :=
  (List.range' next (min bin d.barrierCount - next)).map fun k => d.opCount + k

/-- Put the barriers back into an order of ops: each one right before the
    first op of a later bin, and the remaining ones at the end. -/
def nodesFrom (schedule : List OpId) (seen : List Nat) (next : Nat) :
    Except ScheduleError (List Nat) :=
  match schedule with
  | [] => .ok (d.barriersBefore next d.barrierCount)
  | op :: rest =>
    match d.nodeOf? op with
    | none => .error (.unknownOp op)
    | some node => do
      if seen.contains node then
        throw (.internal s!"op {op} appears twice in the schedule")
      let barriers := d.barriersBefore next (d.bin node)
      let later ← nodesFrom rest (node :: seen) (next + barriers.length)
      return barriers ++ node :: later

/-- The node order that belongs to an order of ops. -/
def nodesOf (schedule : List OpId) : Except ScheduleError (List Nat) :=
  d.nodesFrom schedule [] 0

end DependencyGraph

end Dataflow
