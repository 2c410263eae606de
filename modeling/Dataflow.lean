import Dataflow.Closure
import Dataflow.CommandLine
import Dataflow.Compile
import Dataflow.Edge
import Dataflow.Gradient.Backward
import Dataflow.Gradient.Error
import Dataflow.Gradient.Ledger
import Dataflow.Graph.Basic
import Dataflow.Graph.Consistency
import Dataflow.Graph.Constraints
import Dataflow.Graph.Dependencies
import Dataflow.Graph.Edit
import Dataflow.Graph.Error
import Dataflow.Graph.Inference
import Dataflow.Graph.Listing
import Dataflow.Graph.Order
import Dataflow.Links
import Dataflow.Main
import Dataflow.Measure
import Dataflow.Model.Build
import Dataflow.Model.Description
import Dataflow.Op
import Dataflow.Op.Operator
import Dataflow.Op.Ports
import Dataflow.Operator.Attribute
import Dataflow.Operator.Builtin
import Dataflow.Operator.Catalogue
import Dataflow.Operator.Declared
import Dataflow.Operator.Extended
import Dataflow.Operator.Rule
import Dataflow.Proofs.Activity
import Dataflow.Proofs.Closure
import Dataflow.Proofs.Compilation
import Dataflow.Proofs.Cycles
import Dataflow.Proofs.DeadCode
import Dataflow.Proofs.Editing
import Dataflow.Proofs.Exchange
import Dataflow.Proofs.Exactness
import Dataflow.Proofs.Fitting
import Dataflow.Proofs.Flow
import Dataflow.Proofs.GradientGrowth
import Dataflow.Proofs.Histories
import Dataflow.Proofs.Layering
import Dataflow.Proofs.NodeOrder
import Dataflow.Proofs.Passes
import Dataflow.Proofs.Planning
import Dataflow.Proofs.Reachability
import Dataflow.Proofs.Rewiring
import Dataflow.Proofs.Runs
import Dataflow.Proofs.Schedulable
import Dataflow.Proofs.Wiring
import Dataflow.Pruning
import Dataflow.Random.Dice
import Dataflow.Random.Keystream
import Dataflow.Schedule.Annealing
import Dataflow.Schedule.DependencyGraph
import Dataflow.Schedule.ListOrder
import Dataflow.Schedule.Liveness
import Dataflow.Schedule.NodeSet
import Dataflow.Schedule.Options
import Dataflow.Schedule.Planner
import Dataflow.Session.Options
import Dataflow.Tensor
import Dataflow.Tensor.Naming
import Dataflow.Tensor.Payload
import Dataflow.Tensor.Readers
import Dataflow.Tensor.Type
import Dataflow.Text.Document
import Dataflow.Text.Json
import Dataflow.Text.Numeral
import Dataflow.Text.Quoted
import Dataflow.Text.Scan
import Dataflow.Text.Toml
import Dataflow.Text.Toml.Moment
import Dataflow.Text.Toml.Scalar
import Dataflow.Text.Toml.Table
import Dataflow.Proofs.Phases
import Dataflow.Proofs.Propagation
import Dataflow.Proofs.Typing
import Dataflow.Proofs.Refusals
import Dataflow.Proofs.Accounts
import Dataflow.Proofs.Serving
import Dataflow.Proofs.Audit
import Dataflow.Proofs.Writers
import Dataflow.Proofs.Survivors
import Dataflow.Proofs.Extension
import Dataflow.Proofs.Transparency
import Dataflow.Proofs.Liveness
import Dataflow.Proofs.Settling
import Dataflow.Proofs.Failures
import Dataflow.Proofs.Rounds
import Dataflow.Proofs.Rules
import Dataflow.Proofs.Building
import Dataflow.Proofs.Outcomes
import Dataflow.Proofs.GradientNames
import Dataflow.Proofs.Descriptions
import Dataflow.Proofs.Shapes
import Dataflow.Proofs.Allocations
import Dataflow.Proofs.Improvement
import Dataflow.Proofs.CycleReports
import Dataflow.Proofs.Choices
import Dataflow.Proofs.Leftovers
import Dataflow.Proofs.Removal
import Dataflow.Proofs.Barriers
import Dataflow.Proofs.Termination
import Dataflow.Proofs.Replacement
import Dataflow.Proofs.Frames
import Dataflow.Proofs.Declarations
import Dataflow.Proofs.Awaiting
import Dataflow.Proofs.Pinning
import Dataflow.Proofs.Verdict
import Dataflow.Proofs.Descendants
import Dataflow.Proofs.Resolution
import Dataflow.Proofs.ReservedNames
import Dataflow.Proofs.TwoWayTables
