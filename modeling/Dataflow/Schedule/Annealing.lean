import Dataflow.Measure
import Dataflow.Random.Dice
import Dataflow.Schedule.Liveness

/-! # Annealing

    A valid order is improved by exchanging neighbours that do not depend on
    each other.  An order is judged by its peak of live bytes, then by the
    sum of live bytes over all positions.

    `LiveOrder` keeps the profile of an order up to date while neighbours
    are exchanged: only the two positions of an exchange can change. -/

namespace Dataflow

/-- What an order is judged by: its peak first, then its total. -/
structure Objective where
  peak : Nat
  total : Nat
  deriving DecidableEq, Repr, Inhabited

/-- Whether an objective is better than another one. -/
def Objective.isBetter (a b : Objective) : Bool :=
  a.peak < b.peak || a.peak = b.peak && a.total < b.total

/-! ## Section 1: An order with its profile -/

/-- An order of nodes with all that is needed to judge it. -/
structure LiveOrder where
  order : Array Nat
  /-- The position of each node. -/
  position : Array Nat
  /-- The live bytes at each position. -/
  profile : Array Nat
  /-- How often each value occurs in the profile. -/
  levels : Std.ExtTreeMap Nat Nat
  /-- The sum of the profile. -/
  total : Nat
  /-- The nodes that use each allocation. -/
  users : Array (List Nat)

namespace LiveOrder

variable (d : DependencyGraph)

/-- Count one more position with `value` live bytes. -/
def addLevel (levels : Std.ExtTreeMap Nat Nat) (value : Nat) : Std.ExtTreeMap Nat Nat :=
  levels.insert value (levels.getD value 0 + 1)

/-- Count one position fewer with `value` live bytes. -/
def dropLevel (levels : Std.ExtTreeMap Nat Nat) (value : Nat) : Std.ExtTreeMap Nat Nat :=
  let count := levels.getD value 0
  if count > 1 then levels.insert value (count - 1) else levels.erase value

/-- An order with its profile, worked out from scratch. -/
def ofOrder (order : List Nat) : LiveOrder :=
  let profile := d.profile order
  { order := order.toArray
    position := order.zipIdx.foldl (fun table (node, pos) => table.setIfInBounds node pos)
      (Array.replicate d.size 0)
    profile := profile.toArray
    levels := profile.foldl addLevel ∅
    total := wordTotal profile
    users := d.userTable }

/-- What the order is judged by. -/
def objective (l : LiveOrder) : Objective :=
  { peak := l.levels.maxKey?.getD 0, total := l.total }

/-- The first and the last position at which an allocation is used. -/
def span (l : LiveOrder) (alloc : Nat) : Nat × Nat :=
  (DependencyGraph.hull ((l.users.getD alloc []).map fun node => l.position.getD node 0)).getD
    (0, 0)

/-- The bytes of an allocation that are live at position `pos`. -/
def bytesAt (l : LiveOrder) (pos alloc : Nat) : Nat :=
  DependencyGraph.liveAt pos (some (l.span alloc)) (d.allocSize alloc)

/-- What is left of the live bytes `level` at position `pos` when some
    allocations are taken out of them, one after the other. -/
def takeOut (l : LiveOrder) (pos : Nat) (allocs : List Nat) (level : Nat) : Nat :=
  allocs.foldl (fun level a => toWord ((level : Int) - l.bytesAt d pos a)) level

/-- What the live bytes `level` at position `pos` become when some allocations
    are put into them, one after the other. -/
def putIn (l : LiveOrder) (pos : Nat) (allocs : List Nat) (level : Nat) : Nat :=
  allocs.foldl (fun level a => toWord ((level : Int) + l.bytesAt d pos a)) level

/-- Make `value` the live bytes at position `pos`. -/
def setLevel (l : LiveOrder) (pos value : Nat) : LiveOrder :=
  let old := l.profile.getD pos 0
  if old = value then l
  else { l with
    profile := l.profile.setIfInBounds pos value
    levels := addLevel (dropLevel l.levels old) value
    total := toWord ((toWord ((l.total : Int) - old) : Int) + value) }

/-- The allocations that the nodes at positions `i` and `i + 1` use. -/
def touched (l : LiveOrder) (i : Nat) : List Nat :=
  (d.allocs (l.order.getD i 0) ++ d.allocs (l.order.getD (i + 1) 0)).eraseDups

/-- The nodes at positions `i` and `i + 1` have changed places, and the profile
    does not know of it yet. -/
def exchanged (l : LiveOrder) (i : Nat) : LiveOrder :=
  let a := l.order.getD i 0
  let b := l.order.getD (i + 1) 0
  { l with
    order := (l.order.setIfInBounds i b).setIfInBounds (i + 1) a
    position := (l.position.setIfInBounds a (i + 1)).setIfInBounds b i }

/-- The live bytes at position `pos` after the nodes at `i` and `i + 1` have
    changed places.  Of the allocations that these two use, the old lifetimes
    are taken out, and the new ones are put in. -/
def levelAfter (l : LiveOrder) (i pos : Nat) : Nat :=
  let touched := l.touched d i
  (l.exchanged i).putIn d pos touched (l.takeOut d pos touched (l.profile.getD pos 0))

/-- Exchange the nodes at positions `i` and `i + 1`.  The profile is brought up
    to date at these positions only. -/
def swap (l : LiveOrder) (i : Nat) : LiveOrder :=
  ((l.exchanged i).setLevel i (l.levelAfter d i i)).setLevel (i + 1) (l.levelAfter d i (i + 1))

end LiveOrder

/-! ## Section 2: The search -/

/-- The state of a search for a better order. -/
structure Annealing (σ : Type) where
  current : LiveOrder
  bestOrder : Array Nat
  best : Objective
  proposals : Nat := 0
  accepted : Nat := 0
  /-- Proposals since the best order was found. -/
  stall : Nat := 0
  dice : σ

/-- How a search went. -/
structure AnnealReport where
  proposals : Nat
  accepted : Nat
  initial : Objective
  best : Objective
  deriving DecidableEq, Repr, Inhabited

namespace Annealing

variable {σ : Type} (d : DependencyGraph) (dice : Dice σ)

/-- Neighbours may change places when both are ops of the same phase, and no
    edge joins them. -/
def isLegal (a b : Nat) : Bool :=
  !d.isBarrier a && !d.isBarrier b && d.bin a == d.bin b && !d.hasEdge a b

/-- Whether to keep an exchange of `a` and `b`.  A node of lower priority
    moves ahead of one of higher priority only if the peak drops.  Otherwise
    better orders are kept, and of the neutral ones a quarter. -/
def accepts (a b : Nat) (before after : Objective) (s : σ) : Bool × σ :=
  if d.priority b < d.priority a then (after.peak < before.peak, s)
  else if after.isBetter before then (true, s)
  else if after = before then dice.quarter s
  else (false, s)

/-- Propose to exchange the nodes at positions `i` and `i + 1`. -/
def consider (st : Annealing σ) (i : Nat) : Annealing σ :=
  let a := st.current.order.getD i 0
  let b := st.current.order.getD (i + 1) 0
  if !isLegal d a b then st
  else
    let before := st.current.objective
    let swapped := st.current.swap d i
    let after := swapped.objective
    let (keep, s) := accepts d dice a b before after st.dice
    if !keep then { st with dice := s, current := swapped.swap d i }
    else
      let st := { st with dice := s, current := swapped, accepted := st.accepted + 1 }
      if after.isBetter st.best then
        { st with best := after, bestOrder := swapped.order, stall := 0 }
      else st

/-- Propose to exchange two neighbours at a random place. -/
def propose (st : Annealing σ) : Annealing σ :=
  let st := { st with proposals := st.proposals + 1, stall := st.stall + 1 }
  let (i, s) := dice.below (st.current.order.size - 1) st.dice
  consider d dice { st with dice := s } i

/-- The clock is looked at once in this many proposals. -/
def clockInterval : Nat := 64

/-- Go on proposing until the swaps or the time are used up, the peak is as
    low as it can be, or no better order has turned up for long. -/
def search (isTimeUp : Nat → Bool) (lowerBound stallLimit : Nat) :
    (swaps : Nat) → Annealing σ → Annealing σ
  | 0, st => st
  | swaps + 1, st =>
    if st.proposals % clockInterval = 0 && isTimeUp st.proposals then st
    else if st.best.peak ≤ lowerBound || st.stall ≥ stallLimit then st
    else search isTimeUp lowerBound stallLimit swaps (propose d dice st)

end Annealing

namespace DependencyGraph

variable (d : DependencyGraph)

/-- Proposals without a better order after which a search gives up. -/
def stallLimit (n : Nat) : Nat := max (20 * n) 1000

/-- Improve an order of all nodes, under any source of random decisions and
    any clock.  The result is the best order that was met. -/
def annealWith {σ : Type} (dice : Dice σ) (s : σ) (isTimeUp : Nat → Bool) (swapLimit : Nat)
    (order : List Nat) : List Nat × AnnealReport :=
  let live := LiveOrder.ofOrder d order
  let initial := live.objective
  if order.length < 2 then (order, { proposals := 0, accepted := 0, initial, best := initial })
  else
    let start : Annealing σ :=
      { current := live, bestOrder := live.order, best := initial, dice := s }
    let last := Annealing.search d dice isTimeUp d.lowerBound (stallLimit order.length)
      swapLimit start
    (last.bestOrder.toList, {
      proposals := last.proposals
      accepted := last.accepted
      initial
      best := last.best })

/-- Improve an order of all nodes.  A time limit that rounds to zero
    nanoseconds leaves no time for any proposal; any other one is taken not
    to bind. -/
def anneal (options : ScheduleOptions) (order : List Nat) : List Nat × AnnealReport :=
  d.annealWith Keystream.dice (.ofSeed options.seed) (fun _ => !(.ofFloat 5e-10 < options.timeLimit))
    options.swapLimit order

end DependencyGraph

end Dataflow
