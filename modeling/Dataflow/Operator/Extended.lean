import Dataflow.Operator.Catalogue
import Dataflow.Operator.Declared

/-! # Extended catalogue

    Four declared operators beside the builtin ones: one without a gradient,
    one with optional inputs, one with two outputs, and one that takes any
    number of inputs from two on. -/

namespace Dataflow.Catalogue

/-- The signature of a declared operator, which needs no attributes. -/
def declared (d : Declaration) (arity : Arity) (summary : String) : Signature where
  name := d.typeName
  arity := arity
  differentiable := d.grads?.isSome
  summary := summary
  build := fun _ => .ok d.operator

/-- A gradient op that passes the gradient of the first output on to an
    input. -/
def passOn (input : Nat) (onlyWired : Bool) : DeclaredGrad where
  operator := GradBuiltin.identity.operator
  wires := [⟨0, .outputGrad, 0⟩]
  targets := [(0, input)]
  onlyWired := onlyWired

/-- The signatures that the extended catalogue adds. -/
def extendedSignatures : List Signature := [
  declared { typeName := "Square", outputs := [.like 0] } (.fixed 1) "x * x",
  declared
    { typeName := "OptAdd"
      outputs := [.like 0]
      optionalInputs := Std.ExtTreeSet.ofList [1, 2]
      grads? := some ([0, 1, 2].map (passOn · true)) }
    (.fixed 3) "Adds inputs 1 and 2 when wired.",
  declared
    { typeName := "Split2"
      outputs := [.like 0, .like 0]
      grads? := some [{
        operator := Builtin.sum.operator
        wires := [⟨0, .outputGrad, 0⟩, ⟨1, .outputGrad, 1⟩]
        targets := [(0, 0)] }] }
    (.fixed 1) "Two copies of the input.",
  declared
    { typeName := "Masked"
      outputs := [.like 0]
      grads? := some [passOn 0 false] }
    (.atLeast 2) "Input 0 masked by input 1."]

/-- The catalogue of the builtin and the four declared operators. -/
def extended : Catalogue :=
  ⟨Std.ExtTreeMap.ofList
    ((builtinSignatures ++ extendedSignatures).map fun s => (s.name, s))⟩

end Dataflow.Catalogue
