import Dataflow.Graph.Error

/-! # Gradient errors

    Why a graph cannot be differentiated. -/

namespace Dataflow

/-- The causes for which differentiation fails. -/
inductive GradientError where
  /-- A tensor already has a name of the kind that gradients are given. -/
  | reservedId (tensor : TensorId)
  | unknownLoss (tensor : TensorId)
  | lossNotScalar (loss : TensorId) (type : TensorType)
  | lossWithoutProducer (tensor : TensorId)
  /-- Gradient ops have no gradients of their own. -/
  | gradOfGradOp (op : String)
  /-- An operator describes gradient ops that do not fit the wiring of its op. -/
  | invalidGradOp (op : String) (reason : String)
  | graph (error : GraphError)
  | internal (reason : String)
  deriving DecidableEq, Repr, Inhabited

namespace GradientError

/-- Whether the error is a broken contract. -/
def isInternal : GradientError → Bool
  | internal _ => true
  | graph e => e.isInternal
  | _ => false

/-- The wording of each cause. -/
def message : GradientError → String
  | reservedId t => s!"tensor '{t}' collides with the reserved gradient naming pattern"
  | unknownLoss t => s!"loss tensor '{t}' not found"
  | lossNotScalar t type => s!"loss tensor '{t}' must hold one element, got {type.render}"
  | lossWithoutProducer t => s!"loss tensor '{t}' is not computed by any op"
  | gradOfGradOp op => s!"cannot build gradients of gradient op {op}"
  | invalidGradOp op reason => s!"invalid gradient op for {op}: {reason}"
  | graph e => e.message
  | internal reason => s!"internal autodiff error: {reason}"

end GradientError

end Dataflow
