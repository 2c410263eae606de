import Dataflow.Operator.Rule

/-! # Builtin operators

    The thirteen forward operators and the nine operators that appear in
    their gradients.  A forward operator describes its gradient ops; the
    gradient operators only have an inference rule, and are not
    differentiable themselves. -/

namespace Dataflow

/-! ## Section 1: Operators that appear in gradients -/

/-- The operators that differentiation grows. -/
inductive GradBuiltin where
  | identity
  | scale (factor : Float)
  /-- Inputs: the incoming gradient, the other factor of the product. -/
  | mulArg
  /-- Inputs: the incoming gradient, the forward activation. -/
  | relu
  | matMulLhs
  | matMulRhs
  /-- Spreads a scalar gradient over the shape that was reduced. -/
  | reduceSum (shape : List Nat)
  /-- Inputs: the forward input, the scalar gradient of the loss. -/
  | l1 (lambda : Float)
  /-- Inputs: probabilities, labels, the scalar gradient of the loss.  Only
      the probabilities receive a gradient. -/
  | nll

namespace GradBuiltin

/-- The name of the operator type. -/
def typeName : GradBuiltin → String
  | identity => "IdentityGrad"
  | scale _ => "ScaleGrad"
  | mulArg => "MulArgGrad"
  | relu => "ReluGrad"
  | matMulLhs => "MatMulLhsGrad"
  | matMulRhs => "MatMulRhsGrad"
  | reduceSum _ => "ReduceSumGrad"
  | l1 _ => "L1Grad"
  | nll => "NllGrad"

/-- The operator with a given type name.  `shape` is what a reduced sum is
    spread over; factors are one. -/
def ofName? (name : String) (shape : List Nat) : Option GradBuiltin :=
  [identity, scale 1.0, mulArg, relu, matMulLhs, matMulRhs, reduceSum shape, l1 1.0, nll].find?
    fun b => b.typeName == name

/-- How the output type follows from the input types. -/
def infer (b : GradBuiltin) : Rule.Inputs → Except GraphError (List TensorType) :=
  match b with
  | identity | scale _ => Rule.unary b.typeName
  | mulArg | relu => Rule.binary b.typeName
  | matMulLhs => Rule.leftFactor b.typeName
  | matMulRhs => Rule.rightFactor b.typeName
  | reduceSum shape => Rule.spread b.typeName shape
  | l1 _ => Rule.likeFirst b.typeName 2
  | nll => Rule.likeFirstOfThree b.typeName

/-- The operator as a graph sees it. -/
def operator (b : GradBuiltin) : Operator where
  typeName := b.typeName
  infer := b.infer

end GradBuiltin

/-! ## Section 2: Forward operators -/

/-- The forward operators that every catalogue of builtins offers. -/
inductive Builtin where
  | identity
  | add
  | sub
  | mul
  | matMul
  | relu
  /-- Multiplies by a constant. -/
  | scale (factor : Float)
  /-- The sum of all elements. -/
  | reduceSum
  /-- The sum of any number of tensors.  Partial gradients are combined with
      it, too. -/
  | sum
  /-- Loss: `lambda` times the sum of absolute values. -/
  | l1 (lambda : Float)
  /-- Loss: mean negative log-likelihood of probabilities at labels. -/
  | nll
  /-- Adds input 1 into the storage of input 0. -/
  | accumulateInplace
  /-- Shows its input to the host. -/
  | print

namespace Builtin

/-- The name of the operator type. -/
def typeName : Builtin → String
  | identity => "Identity"
  | add => "Add"
  | sub => "Sub"
  | mul => "Mul"
  | matMul => "MatMul"
  | relu => "Relu"
  | scale _ => "Scale"
  | reduceSum => "ReduceSum"
  | sum => "Sum"
  | l1 _ => "L1"
  | nll => "Nll"
  | accumulateInplace => "AccumulateInplace"
  | print => "Print"

/-- How the output type follows from the input types. -/
def infer (b : Builtin) : Rule.Inputs → Except GraphError (List TensorType) :=
  match b with
  | identity | print => Rule.unary b.typeName
  | add | sub | mul | accumulateInplace => Rule.binary b.typeName
  | matMul => Rule.matrixProduct b.typeName
  | relu | scale _ => Rule.unaryFloat b.typeName
  | reduceSum | l1 _ => Rule.reduction b.typeName
  | sum => Rule.variadic b.typeName
  | nll => Rule.likelihood b.typeName

/-- A gradient op whose only output is the gradient of forward input `target`. -/
def gradOp (b : GradBuiltin) (wires : List GradWire) (target : Nat) : GradSpec Operator where
  operator := b.operator
  wires := wires
  targets := {(0, target)}

/-- The gradient of forward input `target` is the incoming gradient itself. -/
def passThrough (target : Nat) : GradSpec Operator :=
  gradOp .identity [⟨0, .outputGrad, 0⟩] target

/-- The gradient ops of an op.  The derivative of a product is the incoming
    gradient times the other factor; labels receive no gradient. -/
def gradSpecs (b : Builtin) (view : OpView) : Except GraphError (List (GradSpec Operator)) :=
  match b with
  | identity | print => .ok [passThrough 0]
  | add | accumulateInplace => .ok [passThrough 0, passThrough 1]
  | sub => .ok [passThrough 0, gradOp (.scale (-1.0)) [⟨0, .outputGrad, 0⟩] 1]
  | mul => .ok [
      gradOp .mulArg [⟨0, .outputGrad, 0⟩, ⟨1, .input, 1⟩] 0,
      gradOp .mulArg [⟨0, .outputGrad, 0⟩, ⟨1, .input, 0⟩] 1]
  | matMul => .ok [
      gradOp .matMulLhs [⟨0, .outputGrad, 0⟩, ⟨1, .input, 1⟩] 0,
      gradOp .matMulRhs [⟨0, .input, 0⟩, ⟨1, .outputGrad, 0⟩] 1]
  | relu => .ok [gradOp .relu [⟨0, .outputGrad, 0⟩, ⟨1, .output, 0⟩] 0]
  | scale factor => .ok [gradOp (.scale factor) [⟨0, .outputGrad, 0⟩] 0]
  | reduceSum =>
    match view.inputs.get? 0 with
    | none => .error (.unwiredInput view.label 0)
    | some x => do
      let type ← view.typeOf x
      return [gradOp (.reduceSum type.shape) [⟨0, .outputGrad, 0⟩] 0]
  | sum => .ok (view.inputs.toList.map fun (i, _) => passThrough i)
  | l1 lambda => .ok [gradOp (.l1 lambda) [⟨0, .input, 0⟩, ⟨1, .outputGrad, 0⟩] 0]
  | nll => .ok [gradOp .nll [⟨0, .input, 0⟩, ⟨1, .input, 1⟩, ⟨2, .outputGrad, 0⟩] 0]

/-- When the gradient ops can be built.  The likelihood has one output, and
    its gradient is all that is needed. -/
def isReady (b : Builtin) (available required : Std.ExtTreeSet Nat) : Bool :=
  match b with
  | nll => available.contains 0
  | _ => required.toList.all available.contains

/-- The input that is written in place. -/
def modifies (b : Builtin) (index : Nat) : Bool :=
  match b with
  | accumulateInplace => index == 0
  | _ => false

/-- Whether running the op shows outside of the graph. -/
def hasSideEffect : Builtin → Bool
  | print => true
  | _ => false

/-- Whether the output is a loss. -/
def isLoss : Builtin → Bool
  | l1 _ | nll => true
  | _ => false

/-- The operator as a graph sees it. -/
def operator (b : Builtin) : Operator where
  typeName := b.typeName
  infer := b.infer
  gradSpecs := b.gradSpecs
  isReady := b.isReady
  modifies := b.modifies
  hasSideEffect := b.hasSideEffect
  isLoss := b.isLoss

end Builtin

end Dataflow
