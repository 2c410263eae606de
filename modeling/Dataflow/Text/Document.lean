import Std.Data.ExtTreeSet
import Dataflow.Measure
import Dataflow.Text.Numeral

/-! # Documents

    A tree of values, as a configuration text describes it, and the rules by
    which typed values are read from it:

    * a record is an object with known and unknown fields, of which the known
      ones occur at most once, or a list of its fields in order;
    * an enumeration is a name, or an object with the name as its only field
      and nothing under it;
    * integers are read from integers only, floating point numbers from both. -/

namespace Dataflow

/-- A text of a document.  It is absent when the escapes in it do not name
    characters. -/
abbrev DocumentText := Option String

/-- A tree of values. -/
inductive Document where
  | null
  | bool (value : Bool)
  | number (value : Number)
  | text (value : DocumentText)
  | list (items : List Document)
  | object (fields : List (DocumentText × Document))
  deriving Inhabited

namespace Document

/-! ## Section 1: Plain values -/

/-- A truth value. -/
def bool? : Document → Option Bool
  | bool b => some b
  | _ => none

/-- A text. -/
def text? : Document → Option String
  | text t => t
  | _ => none

/-- A natural number below `2 ^ 64`. -/
def nat? : Document → Option Nat
  | number n => n.nat? wordRange
  | _ => none

/-- A byte. -/
def byte? : Document → Option UInt8
  | number n => (n.nat? 256).map Nat.toUInt8
  | _ => none

/-- A 64-bit signed integer. -/
def int? : Document → Option Int
  | number n => n.int?
  | _ => none

/-- A floating point number, by its bits. -/
def binary64? : Document → Option Binary64
  | number n => n.binary64?
  | _ => none

/-- A floating point number in single precision. -/
def float32? : Document → Option Float32
  | number n => n.float32?
  | _ => none

/-- A list whose items are all read by `item?`. -/
def list? {α : Type} (item? : Document → Option α) : Document → Option (List α)
  | list items => items.mapM item?
  | _ => none

/-- A set of texts. -/
def textSet? (doc : Document) : Option (Std.ExtTreeSet String) :=
  (doc.list? text?).map fun items => Std.ExtTreeSet.ofList items

/-- Nothing, or a value read by `value?`. -/
def optional? {α : Type} (value? : Document → Option α) : Document → Option (Option α)
  | null => some none
  | doc => (value? doc).map some

/-- The fields of an object whose texts all name characters. -/
def members? : Document → Option (List (String × Document))
  | object fields => fields.mapM fun (key, value) => key.map fun k => (k, value)
  | _ => none

/-- The name of a case of an enumeration. -/
def caseName? : Document → Option String
  | text t => t
  | object [(key, null)] => key
  | _ => none

/-! ## Section 2: Records -/

/-- The values of the field called `name`. -/
def valuesOf (name : String) (members : List (String × Document)) : List Document :=
  members.filterMap fun (key, value) => if key = name then some value else none

/-- The fields of a record that are there, in the order of `names`.  A list
    that is longer than the record is one only if `allowsMore`. -/
def record? (names : List String) (doc : Document) (allowsMore : Bool := false) :
    Option (List (Option Document)) :=
  match doc with
  | list items =>
    if allowsMore || items.length ≤ names.length then
      some ((List.range names.length).map fun i => items[i]?)
    else none
  | _ => do
    let members ← doc.members?
    names.mapM fun name =>
      match valuesOf name members with
      | [] => some none
      | [value] => some (some value)
      | _ => none

/-- A field that has to be there. -/
def required {α : Type} (value? : Document → Option α) (field : Option (Option Document)) :
    Option α :=
  field.join.bind value?

/-- A field with a default. -/
def withDefault {α : Type} (value? : Document → Option α) (default : α)
    (field : Option (Option Document)) : Option α :=
  match field.join with
  | some doc => value? doc
  | none => some default

/-! ## Section 3: Repeated fields -/

/-- Put a field at the end, in place of an earlier one of that name. -/
def putField (fields : List (DocumentText × Document)) (key : DocumentText) (value : Document) :
    List (DocumentText × Document) :=
  fields.filter (·.1 != key) ++ [(key, value)]

mutual

/-- The document in which of several fields of one name only the last counts. -/
def collapse : Document → Document
  | list items => .list (collapseItems items)
  | object fields => .object (collapseFields fields [])
  | doc => doc

/-- The items of a list, each of them collapsed. -/
def collapseItems : List Document → List Document
  | [] => []
  | item :: items => item.collapse :: collapseItems items

/-- The fields of an object, added one after another to those in `kept`. -/
def collapseFields : (fields kept : List (DocumentText × Document)) →
    List (DocumentText × Document)
  | [], kept => kept
  | (key, value) :: fields, kept => collapseFields fields (putField kept key value.collapse)

end

end Document

end Dataflow
