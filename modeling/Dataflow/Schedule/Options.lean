import Dataflow.Binary64
import Dataflow.Tensor.Naming

/-! # Scheduling options

    What a user can say about scheduling, and why a schedule may not exist. -/

namespace Dataflow

/-- How to choose among ops of equal priority that are all free to run. -/
inductive TieBreak where
  /-- The op that became free first. -/
  | fifo
  /-- The op that adds the fewest bytes to those that are live. -/
  | greedy
  /-- A seeded random choice. -/
  | random
  deriving DecidableEq, Repr, Inhabited

/-- The name of a tie-break. -/
def TieBreak.name : TieBreak → String
  | fifo => "fifo"
  | greedy => "greedy"
  | random => "random"

/-- The options of the scheduler. -/
structure ScheduleOptions where
  /-- Time for the annealing phase, in seconds. -/
  timeLimit : Binary64 := .ofFloat 1e9
  /-- Most swaps that the annealing phase proposes. -/
  swapLimit : Nat := 1000000000
  tieBreak : TieBreak := .greedy
  /-- Most nodes for which descendants are counted. -/
  closureThreshold : Nat := 10000
  /-- The seed of every random decision. -/
  seed : UInt64 := 0
  /-- Phases are respected only if there is more than one. -/
  phases : Nat := 1
  deriving BEq, Inhabited

/-- Why there is no schedule. -/
inductive ScheduleError where
  /-- No valid order exists; `ops` is one cycle, in order. -/
  | cycle (ops : List OpId)
  | unknownTieBreak (text : String)
  | invalidPhase (op : OpId) (phase : Int)
  | unknownOp (op : OpId)
  | internal (reason : String)
  deriving DecidableEq, Repr, Inhabited

/-- The wording of each cause. -/
def ScheduleError.message : ScheduleError → String
  | cycle ops =>
    "cyclic dependency between ops [" ++ " -> ".intercalate (ops.map fun o => s!"{o}") ++ "]"
  | unknownTieBreak text =>
    s!"unknown Kahn tie-breaker '{text}' (expected fifo, greedy or random)"
  | invalidPhase op phase => s!"op {op} has execution phase {phase}; phases start at -1"
  | unknownOp op => s!"ordering constraint refers to unknown op {op}"
  | internal reason => s!"internal scheduler error: {reason}"

/-- The tie-break called `text`, whatever the case of its letters. -/
def TieBreak.ofName (text : String) : Except ScheduleError TieBreak :=
  match [fifo, greedy, random].find? fun t => t.name == text.map Char.toLower with
  | some t => .ok t
  | none => .error (.unknownTieBreak text)

end Dataflow
