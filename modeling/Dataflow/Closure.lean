/-! # Closure under a step

    Everything that can be reached from some starting points by repeated
    steps, computed with a worklist.  Each round takes the first waiting
    point that has not been seen, so the number of rounds is at most the
    number of points there are; that bound is the first argument. -/

namespace Dataflow

variable {α : Type} [DecidableEq α]

/-- The points of `seen` together with those reached from `waiting`, in at
    most `rounds` rounds.  The latest point stands first. -/
def closeUnder (step : α → List α) : (rounds : Nat) → (waiting seen : List α) → List α
  | 0, _, seen => seen
  | rounds + 1, waiting, seen =>
    match waiting.dropWhile (· ∈ seen) with
    | [] => seen
    | x :: rest => closeUnder step rounds (step x ++ rest) (x :: seen)

/-- Everything that can be reached from `start`, among at most `bound` points. -/
def closure (step : α → List α) (bound : Nat) (start : List α) : List α :=
  closeUnder step bound start []

end Dataflow
