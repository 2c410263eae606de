import Dataflow.Binary64

/-! # Settings of ops -/

namespace Dataflow

/-- The settings of an op that the compiler itself interprets. -/
structure OpSettings where
  name : String := ""
  /-- Ops of higher priority run earlier among those that are free to run. -/
  priority : Binary64 := .zero
  phase? : Option Int := none
  /-- Ops that may not be pruned survive the removal of dead code. -/
  pruneable : Bool := true
  deriving Inhabited

end Dataflow
