import Std.Data.ExtTreeMap

/-! # Attributes

    Named values that a model description attaches to an op, and from which
    an operator is built. -/

namespace Dataflow

/-- The value of an attribute. -/
inductive AttrValue where
  | int (value : Int64)
  | float (value : Float)
  | text (value : String)
  | ints (values : List Int64)
  deriving Inhabited

/-- The value as a number.  Integers are accepted where a number is wanted. -/
def AttrValue.number? : AttrValue → Option Float
  | int v => some v.toFloat
  | float v => some v
  | text _ | ints _ => none

/-- The attributes of an op, by name. -/
abbrev Attributes := Std.ExtTreeMap String AttrValue

/-- The attribute `key` as a number. -/
def Attributes.number? (attributes : Attributes) (key : String) : Option Float :=
  attributes[key]?.bind AttrValue.number?

end Dataflow
