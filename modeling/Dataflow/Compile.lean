import Dataflow.Gradient.Backward
import Dataflow.Graph.Consistency
import Dataflow.Graph.Dependencies
import Dataflow.Graph.Listing
import Dataflow.Model.Build
import Dataflow.Pruning
import Dataflow.Schedule.Liveness
import Dataflow.Session.Options

/-! # Compilation

    From a model to a scheduled graph: build the graph, differentiate the
    loss, prune what nothing needs, order the ops that write in place, and
    find a schedule with low peak liveness.  The graph is checked after it has
    been built and before it is scheduled. -/

namespace Dataflow

/-- The stage at which a compilation failed, and why. -/
inductive CompileError where
  | model (error : ModelError)
  | consistency (error : ConsistencyError)
  | gradient (error : GradientError)
  | pruning (error : PruneError)
  | schedule (error : ScheduleError)

/-- The wording of each cause. -/
def CompileError.message : CompileError → String
  | model e => s!"model error: {e.message}"
  | consistency e => s!"IR verification failed: {e.message}"
  | gradient e => s!"autodiff failed: {e.message}"
  | pruning e => s!"pruning failed: {e.message}"
  | schedule e => s!"scheduling failed: {e.message}"

/-- What a compilation yields. -/
structure Products where
  graph : Graph
  /-- All ops of the graph, in order of execution. -/
  schedule : List OpId
  /-- What differentiation has grown, if there was a loss. -/
  gradients? : Option GradientReport
  /-- What pruning has removed, if it was enabled. -/
  pruned? : Option PruneReport
  /-- The options the schedule was made under. -/
  options : ScheduleOptions

/-! ## Section 1: Stages -/

/-- Differentiate the loss, if there is one. -/
def Graph.differentiateLoss (g : Graph) (options : SessionOptions) :
    Except CompileError (Option GradientReport × Graph) :=
  match options.loss? with
  | none => .ok (none, g)
  | some loss =>
    let gradientOptions : GradientOptions := {
      loss
      doNotUpdate := options.doNotUpdate
      streamGradients := options.streamGradients
      phases := options.phases }
    match Graph.differentiate gradientOptions g with
    | .ok report g => .ok (some report, g)
    | .error e _ => .error (.gradient e)

/-- Prune the graph, if that is enabled.  The anchors and the gradients of
    variables stay. -/
def Graph.pruneFor (g : Graph) (options : SessionOptions) (gradients? : Option GradientReport) :
    Except CompileError (Option PruneReport × Graph) :=
  if options.enablePruning then
    let gradients := match gradients? with
      | some report => report.gradients.values
      | none => []
    match Graph.prune (options.anchors ++ gradients) g with
    | .ok report g => .ok (some report, g)
    | .error e _ => .error (.pruning e)
  else .ok (none, g)

/-! ## Section 2: The whole compilation -/

/-- Compile a model. -/
def Model.compile (m : Model) (catalogue : Catalogue) (options : SessionOptions)
    (chance : Chance := .ofOptions (Planner.setOptions {} options.effective).options) :
    Except CompileError Products := do
  let g ← (m.build catalogue).mapError CompileError.model
  g.check.mapError CompileError.consistency
  let (gradients?, g) ← g.differentiateLoss options
  let (pruned?, g) ← g.pruneFor options gradients?
  let g := g.orderWriters.2
  g.check.mapError CompileError.consistency
  let planner := Planner.setOptions {} options.effective
  let schedule ← (planner.scheduleGraph g ∅ true chance).1.mapError CompileError.schedule
  return { graph := g, schedule, gradients?, pruned?, options := options.effective }

namespace Products

/-- The dependency graph that was scheduled, and the schedule as its nodes. -/
def nodes (p : Products) : Except ScheduleError (DependencyGraph × List Nat) := do
  let d ← p.graph.dependencies ∅ p.options
  return (d, ← d.nodesOf p.schedule)

end Products

end Dataflow
