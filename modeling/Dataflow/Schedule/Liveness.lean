import Dataflow.Measure
import Dataflow.Schedule.DependencyGraph

/-! # Live bytes

    An allocation is live from the first to the last position of a node that
    uses it, both included.  The profile of an order gives the live bytes at
    each position; the highest of them is the memory that the order needs.

    Bytes are counted in machine words.  The profile is summed up from a table
    of changes in signed words, so that what does not fit wraps around. -/

namespace Dataflow.DependencyGraph

variable (d : DependencyGraph)

/-- The position of every node in an order.  The last one counts. -/
def positions (order : List Nat) : Array (Option Nat) :=
  order.zipIdx.foldl (fun table (node, pos) => table.setIfInBounds node (some pos))
    (Array.replicate d.size none)

/-- The smallest interval that holds all of `ps`. -/
def hull (ps : List Nat) : Option (Nat × Nat) :=
  ps.foldl (fun acc p =>
    match acc with
    | some (lo, hi) => some (min lo p, max hi p)
    | none => some (p, p)) none

/-- The first and the last position at which an allocation is used. -/
def lifetime (position : Array (Option Nat)) (alloc : Nat) : Option (Nat × Nat) :=
  hull ((d.users alloc).filterMap fun node => (position[node]?).join)

/-- Bytes of an allocation that are live at position `p`. -/
def liveAt (p : Nat) (lifetime : Option (Nat × Nat)) (size : Nat) : Nat :=
  match lifetime with
  | some (lo, hi) => if lo ≤ p && p ≤ hi then size else 0
  | none => 0

/-- Enter a lifetime into a table of changes: `size` more at its first position,
    and `size` less past its last one. -/
def addLifetime (changes : Array Int) (lifetime : Option (Nat × Nat)) (size : Nat) : Array Int :=
  match lifetime with
  | some (lo, hi) =>
    (changes.modify lo fun c => toSigned (c + toSigned size)).modify (hi + 1) fun c =>
      toSigned (c - toSigned size)
  | none => changes

/-- By how much the live bytes change at each position of an order, and past the
    last one, in signed words. -/
def changes (order : List Nat) : Array Int :=
  let position := d.positions order
  (List.range d.allocCount).foldl
    (fun changes a => addLifetime changes (d.lifetime position a) (d.allocSize a))
    (Array.replicate (order.length + 1) 0)

/-- The running sums of some changes, from `live` on.  They are signed words, and
    read as words. -/
def runningSums (live : Int) : List Int → List Nat
  | [] => []
  | change :: rest =>
    let live := toSigned (live + change)
    toWord live :: runningSums live rest

/-- The live bytes at each position of an order. -/
def profile (order : List Nat) : List Nat :=
  runningSums 0 ((d.changes order).toList.take order.length)

/-- The largest entry of a profile. -/
def peak (profile : List Nat) : Nat := profile.foldl max 0

/-- What a single node uses at once, for the node that uses most. -/
def lowerBound : Nat :=
  peak ((List.range d.size).map fun node => wordTotal ((d.allocs node).map d.allocSize))

end Dataflow.DependencyGraph
