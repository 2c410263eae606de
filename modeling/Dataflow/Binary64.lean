import Dataflow.Measure

/-! # Floating point numbers by their bits

    A double precision number is kept as its bit pattern, so that patterns
    which are no numbers keep their sign and payload.  Two orders are read off
    the pattern: the order by value, in which the zeros coincide and what is no
    number compares with nothing, and the total order of all patterns. -/

namespace Dataflow

/-- The bit pattern of a double precision floating point number. -/
structure Binary64 where
  bits : UInt64
  deriving DecidableEq, Inhabited

namespace Binary64

/-- The pattern of a number. -/
def ofFloat (x : Float) : Binary64 := ⟨x.toBits⟩

/-- Zero, with the positive sign. -/
def zero : Binary64 := ⟨0⟩

/-- Zero, with the negative sign. -/
def negZero : Binary64 := ⟨0x8000000000000000⟩

/-- Whether the sign bit is set. -/
def isNegative (x : Binary64) : Bool := signedRange ≤ x.bits.toNat

/-- The bits but for the sign.  A larger number has larger bits. -/
def magnitude (x : Binary64) : Nat := x.bits.toNat % signedRange

/-- Whether the pattern is a number or an infinity. -/
def isNumber (x : Binary64) : Bool := x.magnitude ≤ 0x7ff0000000000000

/-- The place of a number in the order by value. -/
def place (x : Binary64) : Int := if x.isNegative then -x.magnitude else x.magnitude

/-- The place of a pattern in the total order: negative zero comes before
    zero, and what is no number lies beyond the infinity of its sign. -/
def rank (x : Binary64) : Int := if x.isNegative then -x.magnitude - 1 else x.magnitude

instance : BEq Binary64 := ⟨fun a b => a.isNumber && b.isNumber && a.place == b.place⟩

instance : LT Binary64 := ⟨fun a b => a.isNumber ∧ b.isNumber ∧ a.place < b.place⟩

instance (a b : Binary64) : Decidable (a < b) :=
  inferInstanceAs (Decidable (_ ∧ _ ∧ _))

/-- The two zeros, in either order. -/
def OppositeZeros (a b : Binary64) : Prop := (a = zero ∧ b = negZero) ∨ (a = negZero ∧ b = zero)

instance (a b : Binary64) : Decidable (OppositeZeros a b) :=
  inferInstanceAs (Decidable (_ ∨ _))

/-- A pattern is its sign and its magnitude. -/
theorem eq_of_magnitude {a b : Binary64} (hsign : a.isNegative = b.isNegative)
    (hmagnitude : a.magnitude = b.magnitude) : a = b := by
  have ha : a.bits.toNat < wordRange := a.bits.toNat_lt
  have hb : b.bits.toNat < wordRange := b.bits.toNat_lt
  have hbits : a.bits.toNat = b.bits.toNat := by
    simp only [isNegative, decide_eq_decide] at hsign
    simp only [magnitude, signedRange, wordRange] at hsign hmagnitude ha hb
    omega
  cases a
  cases b
  exact congrArg _ (UInt64.toNat_inj.1 hbits)

/-- **Numbers that compare equal** are the same, or they are the two zeros. -/
theorem eq_or_oppositeZeros_of_beq {a b : Binary64} (h : (a == b) = true) :
    a = b ∨ OppositeZeros a b := by
  have hplace : a.place = b.place := eq_of_beq (Bool.and_eq_true_iff.1 h).2
  unfold place at hplace
  -- with different signs both magnitudes are zero
  cases ha : a.isNegative <;> cases hb : b.isNegative <;>
    simp only [ha, hb, Bool.false_eq_true, if_true, if_false] at hplace
  · exact .inl (eq_of_magnitude (ha.trans hb.symm) (by omega))
  · exact .inr (.inl ⟨eq_of_magnitude ha (show _ = 0 by omega),
      eq_of_magnitude hb (show _ = 0 by omega)⟩)
  · exact .inr (.inr ⟨eq_of_magnitude ha (show _ = 0 by omega),
      eq_of_magnitude hb (show _ = 0 by omega)⟩)
  · exact .inl (eq_of_magnitude (ha.trans hb.symm) (by omega))

end Binary64

end Dataflow
