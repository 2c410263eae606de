import Dataflow.Tensor.Payload
import Dataflow.Tensor.Readers

/-! # Tensors

    What a graph knows of one tensor: where its value comes from, its type
    once that is known, and the ops at both ends of it.  The name of a
    tensor is the key under which the graph stores it. -/

namespace Dataflow

/-- Where the value of a tensor comes from. -/
inductive TensorKind where
  /-- An initialised value that never changes. -/
  | const
  /-- Trainable state of the model, always resident. -/
  | var
  /-- A value fed in at run time. -/
  | stream
  /-- The output of exactly one op. -/
  | computed
  deriving DecidableEq, Repr, Inhabited

/-- The word for a kind in listings and messages. -/
def TensorKind.name : TensorKind → String
  | const => "const"
  | var => "var"
  | stream => "stream"
  | computed => "computed"

/-- The kind with a given word. -/
def TensorKind.ofName? (name : String) : Option TensorKind :=
  [const, var, stream, computed].find? fun kind => kind.name == name

/-- One tensor of a graph. -/
structure Tensor where
  kind : TensorKind
  /-- Known from the start for initialised and streamed tensors, and from
      inference on the producer for computed ones. -/
  type? : Option TensorType := none
  data? : Option Payload := none
  producer? : Option OpId := none
  readers : Readers := ∅
  deriving Inhabited

namespace Tensor

/-- Bytes of the tensor once it is materialised, zero while its type is unknown. -/
def bytes (t : Tensor) : Nat :=
  match t.type? with
  | some type => type.bytes
  | none => 0

/-- Whether no op is wired to either end of the tensor. -/
def isDetached (t : Tensor) : Bool := t.producer?.isNone && t.readers.isEmpty

end Tensor

end Dataflow
