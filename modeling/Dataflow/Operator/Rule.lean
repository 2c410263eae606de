import Dataflow.Op.Operator

/-! # Inference rules

    The tests from which the builtin operators build their inference rules.
    Each one names the operator type in the error it raises, so that the
    wording does not depend on where the operator is used. -/

namespace Dataflow.Rule

/-- The types of the inputs of an op, absent where an index is unwired. -/
abbrev Inputs := List (Option TensorType)

/-- The type of input `index`, which has to be wired. -/
def input (op : String) (inputs : Inputs) (index : Nat) : Except GraphError TensorType :=
  match inputs[index]? with
  | some (some t) => .ok t
  | _ => .error (.inference op s!"input {index} is not connected")

/-- No input is wired at or beyond index `arity`. -/
def arity (op : String) (inputs : Inputs) (arity : Nat) : Except GraphError Unit :=
  match (inputs.drop arity).findIdx? Option.isSome with
  | some extra =>
    .error (.inference op s!"takes {arity} inputs, found one at index {arity + extra}")
  | none => .ok ()

/-- Both operands have the same type. -/
def same (op : String) (a b : TensorType) : Except GraphError Unit :=
  if a = b then .ok ()
  else .error (.inference op s!"operands must match exactly, got {a.render} and {b.render}")

/-- The elements are floating point numbers. -/
def float (op : String) (t : TensorType) : Except GraphError Unit :=
  if t.element.isFloat then .ok ()
  else .error (.inference op s!"expected a floating point tensor, got {t.render}")

/-- Rows and columns of a tensor of rank two. -/
def matrix (op : String) (t : TensorType) : Except GraphError (Nat × Nat) :=
  match t.shape with
  | [rows, columns] => .ok (rows, columns)
  | _ => .error (.inference op s!"expected a rank-2 tensor, got {t.render}")

/-- One input of any type; the output has that type. -/
def unary (op : String) (inputs : Inputs) : Except GraphError (List TensorType) := do
  arity op inputs 1
  return [← input op inputs 0]

/-- One floating point input; the output has its type. -/
def unaryFloat (op : String) (inputs : Inputs) : Except GraphError (List TensorType) := do
  arity op inputs 1
  let x ← input op inputs 0
  float op x
  return [x]

/-- Two inputs of the same type, which is the type of the output. -/
def binary (op : String) (inputs : Inputs) : Except GraphError (List TensorType) := do
  arity op inputs 2
  let a ← input op inputs 0
  let b ← input op inputs 1
  same op a b
  return [a]

/-- One floating point input, reduced to a scalar. -/
def reduction (op : String) (inputs : Inputs) : Except GraphError (List TensorType) := do
  arity op inputs 1
  let x ← input op inputs 0
  float op x
  return [TensorType.scalar x.element]

/-- Any number of inputs of the same type without a gap; the output has that
    type. -/
def variadic (op : String) (inputs : Inputs) : Except GraphError (List TensorType) := do
  let first ← input op inputs 0
  (List.range' 1 (inputs.length - 1)).forM fun i => do
    same op first (← input op inputs i)
  return [first]

/-- The product of an `m × k` and a `k × n` matrix is an `m × n` matrix. -/
def matrixProduct (op : String) (inputs : Inputs) : Except GraphError (List TensorType) := do
  arity op inputs 2
  let a ← input op inputs 0
  let b ← input op inputs 1
  float op a
  if a.element ≠ b.element then
    throw (.inference op s!"dtype mismatch between {a.render} and {b.render}")
  match a.shape, b.shape with
  | [m, k], [k', n] =>
    if k = k' then return [⟨a.element, [m, n]⟩]
    else throw (.inference op s!"cannot multiply {a.render} by {b.render}")
  | _, _ => throw (.inference op s!"cannot multiply {a.render} by {b.render}")

/-- Probabilities for a batch of `n` and `n` integer labels give a scalar. -/
def likelihood (op : String) (inputs : Inputs) : Except GraphError (List TensorType) := do
  arity op inputs 2
  let probs ← input op inputs 0
  let label ← input op inputs 1
  float op probs
  if label.element.isFloat then
    throw (.inference op s!"labels must be integers, got {label.render}")
  match probs.shape, label.shape with
  | [n, _], [n'] =>
    if n = n' then return [TensorType.scalar probs.element]
    else throw (.inference op
      s!"probabilities {probs.render} do not match labels {label.render}")
  | _, _ => throw (.inference op
      s!"probabilities {probs.render} do not match labels {label.render}")

/-- The gradient of the left factor: from `dY` of `m × n` and `B` of `k × n`
    to a matrix of `m × k`. -/
def leftFactor (op : String) (inputs : Inputs) : Except GraphError (List TensorType) := do
  arity op inputs 2
  let dy ← input op inputs 0
  let b ← input op inputs 1
  let (m, n) ← matrix op dy
  let (k, n') ← matrix op b
  if n ≠ n' then
    throw (.inference op s!"gradient {dy.render} does not match rhs {b.render}")
  return [⟨dy.element, [m, k]⟩]

/-- The gradient of the right factor: from `A` of `m × k` and `dY` of `m × n`
    to a matrix of `k × n`. -/
def rightFactor (op : String) (inputs : Inputs) : Except GraphError (List TensorType) := do
  arity op inputs 2
  let a ← input op inputs 0
  let dy ← input op inputs 1
  let (m, k) ← matrix op a
  let (m', n) ← matrix op dy
  if m ≠ m' then
    throw (.inference op s!"lhs {a.render} does not match gradient {dy.render}")
  return [⟨dy.element, [k, n]⟩]

/-- A single element, spread over `shape`. -/
def spread (op : String) (shape : List Nat) (inputs : Inputs) :
    Except GraphError (List TensorType) := do
  arity op inputs 1
  let dy ← input op inputs 0
  if dy.count ≠ 1 then
    throw (.inference op s!"expected a scalar gradient, got {dy.render}")
  return [⟨dy.element, shape⟩]

/-- At most `n` inputs, the first of which is wired and gives its type to the
    output. -/
def likeFirst (op : String) (n : Nat) (inputs : Inputs) :
    Except GraphError (List TensorType) := do
  arity op inputs n
  return [← input op inputs 0]

/-- Three wired inputs; the output has the type of the first. -/
def likeFirstOfThree (op : String) (inputs : Inputs) : Except GraphError (List TensorType) := do
  arity op inputs 3
  let _ ← input op inputs 1
  let _ ← input op inputs 2
  return [← input op inputs 0]

end Dataflow.Rule
