import Dataflow.Operator.Attribute
import Dataflow.Operator.Builtin

/-! # Catalogue of operators

    A table from the names of operator types to what is known of them: how
    many inputs they take, and how an operator is built from attributes.  The
    table is open: `register` adds further types to it. -/

namespace Dataflow

/-- How many inputs an operator takes. -/
inductive Arity where
  | fixed (count : Nat)
  | atLeast (min : Nat)
  deriving DecidableEq, Repr, Inhabited

namespace Arity

/-- Whether `count` inputs are acceptable. -/
def accepts : Arity → Nat → Bool
  | fixed n, count => count == n
  | atLeast n, count => count ≥ n

/-- The written form. -/
def render : Arity → String
  | fixed n => s!"Fixed({n})"
  | atLeast n => s!"Variadic \x7b min: {n} \x7d"

end Arity

/-- Why a catalogue does not provide an operator. -/
inductive CatalogueError where
  | unknownOpType (opType : String)
  | duplicate (opType : String)
  | missingAttribute (opType key : String)
  | arity (opType : String) (count : Nat) (arity : Arity)
  deriving DecidableEq, Repr, Inhabited

/-- The wording of each cause. -/
def CatalogueError.message : CatalogueError → String
  | unknownOpType t => s!"unknown op type '{t}'"
  | duplicate t => s!"op type '{t}' is already registered"
  | missingAttribute t a => s!"{t} requires attribute '{a}'"
  | arity t count a => s!"{t} got {count} inputs, expected {a.render}"

/-- What a catalogue knows of one operator type. -/
structure Signature where
  /-- The type name, as model descriptions write it. -/
  name : String
  /-- Number of inputs, counting the optional ones that stay unwired. -/
  arity : Arity
  /-- Whether the operator can describe gradient ops. -/
  differentiable : Bool
  /-- One sentence on what the operator does. -/
  summary : String
  build : Attributes → Except CatalogueError Operator

/-- Operator types by name. -/
structure Catalogue where
  entries : Std.ExtTreeMap String Signature := ∅

namespace Catalogue

/-- A catalogue without any operator type. -/
def empty : Catalogue := {}

/-- What is known of `opType`. -/
def find? (c : Catalogue) (opType : String) : Option Signature := c.entries[opType]?

/-- Whether `opType` is known. -/
def contains (c : Catalogue) (opType : String) : Bool := c.entries.contains opType

/-- Add an operator type under a new name. -/
def register (c : Catalogue) (signature : Signature) : Except CatalogueError Catalogue :=
  if c.contains signature.name then .error (.duplicate signature.name)
  else .ok ⟨c.entries.insert signature.name signature⟩

/-- Build an operator of type `opType` for an op with `count` inputs.  The
    number of inputs is tested before the attributes are looked at. -/
def create (c : Catalogue) (opType : String) (attributes : Attributes) (count : Nat) :
    Except CatalogueError Operator :=
  match c.find? opType with
  | none => .error (.unknownOpType opType)
  | some signature =>
    if signature.arity.accepts count then signature.build attributes
    else .error (.arity opType count signature.arity)

/-- Everything the catalogue knows, in order of the names. -/
def signatures (c : Catalogue) : List Signature := c.entries.values

/-- A builtin that needs no attributes. -/
def plain (b : Builtin) (arity : Arity) (summary : String) : Signature where
  name := b.typeName
  arity := arity
  differentiable := true
  summary := summary
  build := fun _ => .ok b.operator

/-- The signatures of the builtin operators. -/
def builtinSignatures : List Signature := [
  plain .identity (.fixed 1) "Copy of the input.",
  plain .add (.fixed 2) "Elementwise addition of identically shaped tensors.",
  plain .sub (.fixed 2) "Elementwise subtraction of identically shaped tensors.",
  plain .mul (.fixed 2) "Elementwise multiplication of identically shaped tensors.",
  plain .matMul (.fixed 2) "Rank-2 matrix multiplication.",
  plain .relu (.fixed 1) "Elementwise ReLU activation.",
  { name := "Scale"
    arity := .fixed 1
    differentiable := true
    summary := "Multiply by the constant attribute 'factor'."
    build := fun attributes =>
      match attributes.number? "factor" with
      | some factor => .ok (Builtin.scale factor).operator
      | none => .error (.missingAttribute "Scale" "factor") },
  plain .reduceSum (.fixed 1) "Sum of all elements to a scalar.",
  plain .sum (.atLeast 1) "Elementwise sum of any number of identically shaped tensors.",
  { name := "L1"
    arity := .fixed 1
    differentiable := true
    summary := "Loss: 'lambda' (default 1) times the sum of absolute values."
    build := fun attributes =>
      .ok (Builtin.l1 ((attributes.number? "lambda").getD 1.0)).operator },
  plain .nll (.fixed 2) "Loss: negative log-likelihood of probabilities at integer labels.",
  plain .accumulateInplace (.fixed 2) "Adds input 1 into input 0 in place.",
  plain .print (.fixed 1) "Prints its input on the host; never pruned."]

/-- The catalogue of the builtin operators. -/
def builtin : Catalogue :=
  ⟨Std.ExtTreeMap.ofList (builtinSignatures.map fun s => (s.name, s))⟩

end Catalogue

end Dataflow
