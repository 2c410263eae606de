import Dataflow.Tensor.Type

/-! # Payloads

    The materialised value of a tensor, stored as its bytes in little-endian
    order.  A payload carries no type of its own: it fits a tensor type when
    the number of bytes agrees. -/

namespace Dataflow

/-- The bytes of an initialised tensor. -/
structure Payload where
  data : Array UInt8
  deriving DecidableEq, Inhabited

namespace Payload

/-- The `width` lowest bytes of `value`, least significant first. -/
def littleEndian (width value : Nat) : List UInt8 :=
  (List.range width).map fun i => (value >>> (8 * i)).toUInt8

/-- Number of bytes. -/
def size (p : Payload) : Nat := p.data.size

/-- A payload without bytes. -/
def isEmpty (p : Payload) : Bool := p.data.isEmpty

/-- A payload of `n` zero bytes. -/
def zeros (n : Nat) : Payload := ⟨Array.replicate n 0⟩

/-- Single precision values, four bytes each. -/
def ofFloats (values : List Float32) : Payload :=
  ⟨(values.flatMap fun v => littleEndian 4 v.toBits.toNat).toArray⟩

/-- One element of type `element` holding the value one. -/
def one : ElementType → Payload
  | .i32 => ⟨(littleEndian 4 1).toArray⟩
  | .i64 => ⟨(littleEndian 8 1).toArray⟩
  | .f32 => ⟨(littleEndian 4 0x3f800000).toArray⟩
  | .f16 => ⟨(littleEndian 2 0x3c00).toArray⟩
  | .bf16 => ⟨(littleEndian 2 0x3f80).toArray⟩

/-- Whether the payload has the size that `t` describes. -/
def fits (p : Payload) (t : TensorType) : Bool := p.size == t.bytes

@[simp] theorem length_littleEndian (width value : Nat) :
    (littleEndian width value).length = width := by
  simp [littleEndian]

@[simp] theorem size_zeros (n : Nat) : (zeros n).size = n := by
  simp [zeros, size]

/-- Four bytes for every value. -/
@[simp] theorem size_ofFloats (values : List Float32) :
    (ofFloats values).size = 4 * values.length := by
  have h : ∀ vs : List Float32,
      (vs.flatMap fun v => littleEndian 4 v.toBits.toNat).length = 4 * vs.length := by
    intro vs
    induction vs with
    | nil => rfl
    | cons v vs ih =>
      simp only [List.flatMap_cons, List.length_append, length_littleEndian, ih, List.length_cons]
      omega
  simpa [ofFloats, size] using h values

/-- The payload `one` fits a scalar of its element type. -/
theorem fits_one (e : ElementType) : (one e).fits (TensorType.scalar e) = true := by
  cases e <;> decide

end Payload

end Dataflow
