import Dataflow.Measure
import Dataflow.Random.Dice
import Dataflow.Schedule.DependencyGraph
import Dataflow.Schedule.NodeSet

/-! # Ordering by readiness

    A node is ready when all its predecessors have been taken.  Among the
    ready nodes those of the highest priority are candidates, and a tie-break
    picks one of them.  When nodes remain but none is ready, they hold a
    cycle. -/

namespace Dataflow

/-- A ready node, with a number that says when it became ready. -/
structure Ready where
  node : Nat
  turn : Nat
  deriving Inhabited

/-- How eagerly a candidate is picked: smaller values go first, the earlier
    entries counting more. -/
structure Eagerness where
  growth : Int
  descendants : Nat
  turn : Nat

/-- Comparison of the entries from left to right. -/
def Eagerness.before (a b : Eagerness) : Bool :=
  a.growth < b.growth || a.growth = b.growth &&
    (a.descendants < b.descendants || a.descendants = b.descendants && a.turn < b.turn)

/-- A partial order under construction. -/
structure Traversal (σ : Type) where
  /-- For each node, its predecessors that have not been taken. -/
  inDegree : Array Nat
  /-- For each allocation, its users that have not been taken. -/
  remaining : Array Nat
  /-- For each allocation, whether a user has been taken. -/
  started : Array Bool
  ready : Array Ready
  /-- The number of nodes that have become ready. -/
  turn : Nat
  /-- The nodes taken so far, the latest first. -/
  taken : List Nat
  dice : σ

namespace Traversal

variable {σ : Type} (d : DependencyGraph)

/-- Make a node ready. -/
def push (t : Traversal σ) (node : Nat) : Traversal σ :=
  { t with ready := t.ready.push ⟨node, t.turn⟩, turn := t.turn + 1 }

/-- Nothing has been taken, and the nodes without predecessors are ready. -/
def start (dice : σ) : Traversal σ :=
  let inDegree := (Array.range d.size).map fun v => (d.predecessors v).length
  let t : Traversal σ := {
    inDegree
    remaining := (Array.range d.allocCount).map fun a => (d.users a).length
    started := Array.replicate d.allocCount false
    ready := #[]
    turn := 0
    taken := []
    dice }
  (List.range d.size).foldl (fun t v => if inDegree.getD v 0 = 0 then t.push v else t) t

/-- Bytes that become live less bytes that are released when `node` is taken
    next. -/
def increase (t : Traversal σ) (node : Nat) : Int :=
  ((d.allocs node).map fun a =>
    let size : Int := d.allocSize a
    let opens := if t.started.getD a false then 0 else size
    let closes := if t.remaining.getD a 0 = 1 then size else 0
    opens - closes).foldr (· + ·) 0

/-- The increase as a 64-bit signed number.  It wraps around: opening an
    allocation of half the word range or more looks like releasing memory. -/
def growth (t : Traversal σ) (node : Nat) : Int :=
  toSigned (t.increase d node)

/-- The places in the ready list whose nodes have the highest priority. -/
def candidates (t : Traversal σ) : List Nat :=
  let ranks := t.ready.toList.map fun r => (d.priority r.node).rank
  match ranks.max? with
  | some top => ranks.zipIdx.filterMap fun (rank, i) => if rank = top then some i else none
  | none => []

/-- How eagerly the ready node at place `i` is picked. -/
def eagerness (t : Traversal σ) (tieBreak : TieBreak) (descendants? : Option (Array Nat))
    (i : Nat) : Eagerness :=
  let r := t.ready.getD i default
  match tieBreak with
  | .greedy => {
      growth := t.growth d r.node
      descendants := (descendants?.map fun counts => counts.getD r.node 0).getD 0
      turn := r.turn }
  | .fifo | .random => { growth := 0, descendants := 0, turn := r.turn }

/-- The most eager of some places. -/
def mostEager (eagerness : Nat → Eagerness) : List Nat → Option Nat
  | [] => none
  | i :: rest => some (rest.foldl (fun best j =>
      if (eagerness j).before (eagerness best) then j else best) i)

/-- The place in the ready list of the node to be taken next. -/
def pick (t : Traversal σ) (dice : Dice σ) (tieBreak : TieBreak)
    (descendants? : Option (Array Nat)) : Option Nat × σ :=
  let candidates := t.candidates d
  match tieBreak with
  | .random =>
    let (k, s) := dice.below candidates.length t.dice
    (candidates[k]?, s)
  | .fifo | .greedy => (mostEager (t.eagerness d tieBreak descendants?) candidates, t.dice)

/-- One predecessor of `node` has been taken. -/
def release (t : Traversal σ) (node : Nat) : Traversal σ :=
  let left := t.inDegree.getD node 0 - 1
  let t := { t with inDegree := t.inDegree.setIfInBounds node left }
  if left = 0 then t.push node else t

/-- One user of `alloc` has been taken. -/
def useAlloc (t : Traversal σ) (alloc : Nat) : Traversal σ :=
  { t with
    started := t.started.setIfInBounds alloc true
    remaining := t.remaining.modify alloc (· - 1) }

/-- Take the node at place `i` of the ready list.  The last ready node moves
    to its place. -/
def take (t : Traversal σ) (i : Nat) : Traversal σ :=
  match t.ready[i]? with
  | none => t
  | some r =>
    let t := { t with
      ready := (t.ready.swapIfInBounds i (t.ready.size - 1)).pop
      taken := r.node :: t.taken }
    let t := (d.allocs r.node).foldl useAlloc t
    (d.successors r.node).foldl release t

/-- Take nodes until none is ready, in at most `rounds` rounds. -/
def run (dice : Dice σ) (tieBreak : TieBreak) (descendants? : Option (Array Nat)) :
    (rounds : Nat) → Traversal σ → Except ScheduleError (Traversal σ)
  | 0, t => .ok t
  | rounds + 1, t =>
    if t.ready.isEmpty then .ok t
    else
      match t.pick d dice tieBreak descendants? with
      | (none, _) => .error (.internal "no ready node to pick")
      | (some i, s) => run dice tieBreak descendants? rounds (({ t with dice := s }).take d i)

end Traversal

namespace DependencyGraph

variable (d : DependencyGraph)

/-- Walk from a node to its first predecessor among the `left` nodes, and on
    from there, until a node comes up again.  The path so far has the latest
    node first. -/
def walkBack (left : Nat → Bool) : (steps : Nat) → (path : List Nat) → List Nat
  | 0, path => path.reverse
  | steps + 1, path =>
    match path with
    | [] => []
    | current :: _ =>
      match (d.predecessors current).find? left with
      | none => path.reverse
      | some prev =>
        if path.contains prev then path.takeWhile (· ≠ prev) ++ [prev]
        else walkBack left steps (prev :: path)

/-- The ops of one cycle among the nodes that still wait for a predecessor.
    Each of them waits for another one of them, so a walk from predecessor to
    predecessor has to come back to where it was. -/
def findCycle (inDegree : Array Nat) : List OpId :=
  let left := fun v => decide (inDegree.getD v 0 > 0)
  match (List.range d.size).find? left with
  | none => []
  | some start => d.opsIn (d.walkBack left d.size [start])

/-- Put all nodes in order, taking ready nodes by priority and tie-break. -/
def traverse {σ : Type} (dice : Dice σ) (tieBreak : TieBreak) (descendants? : Option (Array Nat))
    (s : σ) : Except ScheduleError (List Nat) := do
  let t ← Traversal.run d dice tieBreak descendants? d.size (Traversal.start d s)
  if t.taken.length < d.size then
    throw (.cycle (d.findCycle t.inDegree))
  return t.taken.reverse

/-- The nodes that each node reaches through one or more edges, worked out
    from the end of an order. -/
def descendants (order : List Nat) : Array (NodeSet d.size) :=
  order.foldr (fun node reach =>
    reach.setIfInBounds node ((d.successors node).foldl
      (fun set next => set.insert next ∪ reach.getD next ∅) ∅))
    (Array.replicate d.size ∅)

/-- The number of nodes that each node reaches. -/
def descendantCounts (order : List Nat) : Array Nat :=
  (d.descendants order).map NodeSet.size

/-- An order of all nodes, under any source of random decisions.  With
    `useClosure`, greedy ties go to the node with fewer descendants, so that
    short branches are finished before long ones are opened. -/
def listOrderWith {σ : Type} (dice : Dice σ) (s : σ) (tieBreak : TieBreak) (useClosure : Bool) :
    Except ScheduleError (List Nat) := do
  if useClosure && d.size > 1 then
    let order ← d.traverse dice .fifo none s
    d.traverse dice tieBreak (some (d.descendantCounts order)) s
  else
    d.traverse dice tieBreak none s

/-- An order of all nodes. -/
def listOrder (options : ScheduleOptions) (useClosure : Bool) : Except ScheduleError (List Nat) :=
  d.listOrderWith Keystream.dice (.ofSeed options.seed) options.tieBreak useClosure

end DependencyGraph

end Dataflow
