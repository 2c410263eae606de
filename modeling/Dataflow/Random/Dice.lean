import Dataflow.Measure
import Dataflow.Random.Keystream

/-! # Dice

    The two random decisions that scheduling takes: a choice among `n`
    things, and a coin that comes up one time in four.  The algorithms that
    use them take any source of such decisions; the one that is used in
    practice draws from a keystream. -/

namespace Dataflow

/-- A source of random decisions with states of type `σ`. -/
structure Dice (σ : Type) where
  /-- A number below `n`. -/
  below (n : Nat) : σ → Nat × σ
  /-- True one time in four. -/
  quarter : σ → Bool × σ
  below_lt (n : Nat) (s : σ) : 0 < n → (below n s).1 < n

/-- What the options of a search do not decide: how its random decisions come
    out, and when its time is up. -/
structure Chance where
  State : Type
  dice : Dice State
  start : State
  /-- Whether the time is up after a number of proposals. -/
  isTimeUp : Nat → Bool

namespace Keystream

/-- The highest low half of a product that is accepted when a number below
    `n` is drawn: the largest multiple of `n` by a power of two that fits in
    64 bits, less one. -/
def zone (n : Nat) : Nat := n <<< (63 - n.log2) - 1

/-- A number below `n`: the high half of `n` times a draw.  Draws whose low
    half lies beyond `zone n` are rejected, so that all numbers are equally
    likely.  At least half of all draws are accepted; after `tries`
    rejections in a row the draw is taken as it is. -/
def drawBelow (n : Nat) : (tries : Nat) → Keystream → Nat × Keystream
  | 0, s =>
    let (v, s) := s.draw
    (v.toNat * n / wordRange, s)
  | tries + 1, s =>
    let (v, s) := s.draw
    let product := v.toNat * n
    if product % wordRange ≤ zone n then (product / wordRange, s) else drawBelow n tries s

/-- True when a draw lies in the lowest quarter of its range. -/
def drawQuarter (s : Keystream) : Bool × Keystream :=
  let (v, s) := s.draw
  (v < 0x4000000000000000, s)

/-- The high half of a product with a draw is below the other factor. -/
theorem high_lt (v : UInt64) {n : Nat} (h : 0 < n) : v.toNat * n / wordRange < n := by
  apply Nat.div_lt_of_lt_mul
  have hv : v.toNat < wordRange := v.toNat_lt
  exact Nat.mul_lt_mul_of_pos_right hv h

/-- However many draws are rejected, the number is below `n`. -/
theorem drawBelow_lt {n : Nat} (h : 0 < n) (tries : Nat) (s : Keystream) :
    (drawBelow n tries s).1 < n := by
  induction tries generalizing s with
  | zero => exact high_lt _ h
  | succ tries ih =>
    simp only [drawBelow]
    split
    · exact high_lt _ h
    · exact ih _

/-- Decisions drawn from a keystream. -/
def dice : Dice Keystream where
  below n := drawBelow n 1024
  quarter := drawQuarter
  below_lt _ s h := drawBelow_lt h 1024 s

end Keystream

end Dataflow
