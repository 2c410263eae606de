import Dataflow.Measure

/-! # Tensor types

    The static description of a tensor: the type of its elements and its
    shape.  Two tensors are interchangeable for an operator exactly when
    their types are equal, so both types have decidable equality.

    The printed form `f32[2,3]` is part of every message that names a
    tensor type. -/

namespace Dataflow

/-- The element types a tensor can hold. -/
inductive ElementType where
  | i32
  | i64
  | f32
  | bf16
  | f16
  deriving DecidableEq, Repr, Inhabited

namespace ElementType

/-- Size of one element in bytes. -/
def size : ElementType → Nat
  | i32 | f32 => 4
  | i64 => 8
  | bf16 | f16 => 2

/-- Whether the elements are floating point numbers. -/
def isFloat : ElementType → Bool
  | f32 | bf16 | f16 => true
  | i32 | i64 => false

/-- The name of the element type in listings and model descriptions. -/
def name : ElementType → String
  | i32 => "i32"
  | i64 => "i64"
  | f32 => "f32"
  | bf16 => "bf16"
  | f16 => "f16"

/-- The element type called `text`.  Names are case sensitive. -/
def ofName? (text : String) : Option ElementType :=
  [i32, i64, f32, bf16, f16].find? fun e => e.name == text

end ElementType

/-- Element type plus static shape of a tensor. -/
structure TensorType where
  element : ElementType
  shape : List Nat
  deriving DecidableEq, Repr, Inhabited

namespace TensorType

/-- The type of a single element. -/
def scalar (element : ElementType) : TensorType := ⟨element, []⟩

/-- Number of dimensions. -/
def rank (t : TensorType) : Nat := t.shape.length

/-- Number of elements, as a word.  A tensor of rank zero holds one element. -/
def count (t : TensorType) : Nat := toWord (t.shape.foldl (· * ·) 1 : Nat)

/-- Number of bytes of a materialised tensor, as a word. -/
def bytes (t : TensorType) : Nat := toWord (t.count * t.element.size : Nat)

/-- The printed form: element type, then the dimensions between brackets. -/
def render (t : TensorType) : String :=
  s!"{t.element.name}[" ++ ",".intercalate (t.shape.map fun d => s!"{d}") ++ "]"

@[simp] theorem count_scalar (e : ElementType) : (scalar e).count = 1 := rfl

end TensorType

end Dataflow
