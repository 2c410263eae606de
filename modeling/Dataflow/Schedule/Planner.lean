import Dataflow.Schedule.Annealing
import Dataflow.Schedule.ListOrder

/-! # Planning

    A schedule is found in two steps: an order by readiness, then, if a good
    one is wanted, annealing.  A planner remembers the last schedule together
    with the dependency graph it was made for, and gives it out again as long
    as the dependency graph stays the same. -/

namespace Dataflow

/-- Chance as the options set it up: draws from a keystream, and a time limit
    that binds only if it rounds to zero nanoseconds. -/
def Chance.ofOptions (options : ScheduleOptions) : Chance where
  State := Keystream
  dice := Keystream.dice
  start := .ofSeed options.seed
  isTimeUp := fun _ => !(.ofFloat 5e-10 < options.timeLimit)

/-- An order of the ops of a dependency graph, annealed if `optimal`. -/
def DependencyGraph.schedule (d : DependencyGraph) (options : ScheduleOptions) (optimal : Bool)
    (chance : Chance := .ofOptions options) : Except ScheduleError (List OpId) := do
  let useClosure := optimal && d.size ≤ options.closureThreshold
  let order ← d.listOrderWith chance.dice chance.start options.tieBreak useClosure
  if optimal then
    return d.opsIn
      (d.annealWith chance.dice chance.start chance.isTimeUp options.swapLimit order).1
  else return d.opsIn order

/-- A schedule that was given out before. -/
structure Remembered where
  graph : DependencyGraph
  order : List OpId
  /-- Whether the order was annealed. -/
  optimal : Bool

/-- Scheduling options and the last schedule made with them. -/
structure Planner where
  options : ScheduleOptions := {}
  last? : Option Remembered := none
  /-- Queries answered from memory. -/
  hits : Nat := 0
  /-- Queries that had to be worked out. -/
  misses : Nat := 0

namespace Planner

/-- Change the options.  A schedule made under different ones is forgotten. -/
def setOptions (p : Planner) (options : ScheduleOptions) : Planner :=
  if p.options != options then { p with options := options, last? := none } else p

/-- Whether the remembered schedule was annealed, if there is one. -/
def isLastOptimal? (p : Planner) : Option Bool := p.last?.map Remembered.optimal

/-- The remembered order, if it answers a query for `d`.  An order that was
    not annealed does not answer a query for a good one. -/
def remembered? (p : Planner) (d : DependencyGraph) (optimal : Bool) : Option (List OpId) :=
  match p.last? with
  | some last => if last.graph == d && (last.optimal || !optimal) then some last.order else none
  | none => none

/-- An order of the ops of `d`, from memory if possible.  A query that fails
    leaves the memory as it was. -/
def schedule (p : Planner) (d : DependencyGraph) (optimal : Bool)
    (chance : Chance := .ofOptions p.options) : Except ScheduleError (List OpId) × Planner :=
  match p.remembered? d optimal with
  | some order => (.ok order, { p with hits := p.hits + 1 })
  | none =>
    let p := { p with misses := p.misses + 1 }
    match d.schedule p.options optimal chance with
    | .ok order => (.ok order, { p with last? := some ⟨d, order, optimal⟩ })
    | .error e => (.error e, p)

end Planner

end Dataflow
