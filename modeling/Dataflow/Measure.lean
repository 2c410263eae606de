/-! # Measures

    Sums of sizes, and the numbers that fit in a machine word.  Sums and
    differences of words wrap around. -/

namespace Dataflow

/-- The sum of some numbers. -/
def total : List Nat → Nat
  | [] => 0
  | n :: ns => n + total ns

/-- Two to the power of 64: words are the numbers below. -/
def wordRange : Nat := 0x10000000000000000

/-- Two to the power of 63: signed words go from its negative up to below it. -/
def signedRange : Nat := 0x8000000000000000

/-- The word that a number wraps around to. -/
def toWord (n : Int) : Nat := (n % wordRange).toNat

/-- The signed word that a number wraps around to. -/
def toSigned (n : Int) : Int := Int.bmod n wordRange

/-- The sum of some words, as a word. -/
def wordTotal (ns : List Nat) : Nat := toWord (total ns)

/-- Words stay what they are. -/
theorem toWord_of_lt {n : Nat} (h : n < wordRange) : toWord n = n := by
  unfold toWord
  unfold wordRange at h ⊢
  omega

theorem toWord_le (n : Nat) : toWord n ≤ n := by
  unfold toWord wordRange
  omega

/-- A word that stands for a number can stand in for it in a sum. -/
theorem toWord_add (m n : Int) : toWord (toWord m + n) = toWord (m + n) := by
  unfold toWord wordRange
  omega

theorem toWord_sub (m n : Int) : toWord (toWord m - n) = toWord (m - n) := by
  unfold toWord wordRange
  omega

theorem toWord_add_right {m n : Int} (h : toWord m = toWord n) (k : Int) :
    toWord (m + k) = toWord (n + k) := by
  rw [← toWord_add m, h, toWord_add]

/-- So can a signed word. -/
theorem toWord_toSigned_add (m n : Int) : toWord (toSigned m + n) = toWord (m + n) := by
  unfold toWord toSigned wordRange
  rw [Int.bmod_def]
  split <;> omega

/-- Signed words stay what they are. -/
theorem toSigned_of_lt {n : Int} (hlow : -signedRange ≤ n) (hhigh : n < signedRange) :
    toSigned n = n := by
  unfold signedRange at hlow hhigh
  exact Int.bmod_eq_of_le (by unfold wordRange; omega) (by unfold wordRange; omega)

end Dataflow
