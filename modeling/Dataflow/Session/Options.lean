import Dataflow.Schedule.Options
import Dataflow.Text.Toml

/-! # Session options

    What a user can say about the compilation of a model.  Options are read
    from a document; every one of them has a default. -/

namespace Dataflow

/-! ## Section 1: Options -/

/-- The options of a compilation. -/
structure SessionOptions where
  scheduler : ScheduleOptions := {}
  /-- Number of phases.  The phases of ops count only if there is more than one. -/
  phases : Nat := 1
  enablePruning : Bool := true
  /-- The tensor to differentiate.  Without one, no backward graph is grown. -/
  loss? : Option TensorId := none
  doNotUpdate : Std.ExtTreeSet TensorId := ∅
  /-- Tensors that pruning keeps in addition to the outputs. -/
  anchors : List TensorId := []
  streamGradients : Std.ExtTreeSet TensorId := ∅

/-- The scheduling options, with the number of phases of the session. -/
def SessionOptions.effective (o : SessionOptions) : ScheduleOptions :=
  { o.scheduler with phases := o.phases }

/-- A tie-break, by name. -/
def TieBreak.ofDocument? (doc : Document) : Option TieBreak := do
  let name ← doc.text?
  (TieBreak.ofName name).toOption

/-- Scheduling options. -/
def ScheduleOptions.ofDocument? (doc : Document) (allowsMore : Bool := false) :
    Option ScheduleOptions := do
  let names := ["time_limit_seconds", "swap_limit", "kahn_tie_breaker",
    "transitive_closure_threshold", "seed", "execution_phases"]
  let fields ← doc.record? names allowsMore
  let base : ScheduleOptions := {}
  return {
    timeLimit := ← Document.withDefault Document.binary64? base.timeLimit fields[0]?
    swapLimit := ← Document.withDefault Document.nat? base.swapLimit fields[1]?
    tieBreak := ← Document.withDefault TieBreak.ofDocument? base.tieBreak fields[2]?
    closureThreshold := ← Document.withDefault Document.nat? base.closureThreshold fields[3]?
    seed := (← Document.withDefault Document.nat? base.seed.toNat fields[4]?).toUInt64
    phases := ← Document.withDefault Document.nat? base.phases fields[5]? }

/-- Session options. -/
def SessionOptions.ofDocument? (doc : Document) (allowsMore : Bool := false) :
    Option SessionOptions := do
  let names := ["scheduler", "execution_phases", "enable_pruning", "loss",
    "do_not_update", "anchors", "stream_gradients"]
  let fields ← doc.record? names allowsMore
  let scheduler? (doc : Document) := ScheduleOptions.ofDocument? doc allowsMore
  let base : SessionOptions := {}
  return {
    scheduler := ← Document.withDefault scheduler? base.scheduler fields[0]?
    phases := ← Document.withDefault Document.nat? base.phases fields[1]?
    enablePruning := ← Document.withDefault Document.bool? base.enablePruning fields[2]?
    loss? := ← Document.withDefault (Document.optional? Document.text?) base.loss? fields[3]?
    doNotUpdate := ← Document.withDefault Document.textSet? base.doNotUpdate fields[4]?
    anchors := ← Document.withDefault (Document.list? Document.text?) base.anchors fields[5]?
    streamGradients := ← Document.withDefault Document.textSet? base.streamGradients fields[6]? }

/-! ## Section 2: Options files -/

/-- Why an options file is refused. -/
inductive OptionsError where
  /-- The text does not describe options. -/
  | malformed
  | zeroPhases
  deriving DecidableEq, Repr, Inhabited

/-- The wording of each cause. -/
def OptionsError.message : OptionsError → String
  | malformed => "malformed options"
  | zeroPhases => "execution_phases must be at least 1"

/-- The options that a TOML text describes.  They have at least one phase. -/
def SessionOptions.ofToml (source : String) : Except OptionsError SessionOptions :=
  match (Toml.parse? source).bind (SessionOptions.ofDocument? · true) with
  | none => .error .malformed
  | some options => if options.phases = 0 then .error .zeroPhases else .ok options

end Dataflow
