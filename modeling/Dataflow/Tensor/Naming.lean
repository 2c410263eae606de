/-! # Tensor names

    Gradient tensors are named by plain composition of strings, so the same
    forward graph always yields the same names.  Names given by a user must
    not look like a generated one: `isReserved` is the single test, applied
    to every segment of a scoped name. -/

namespace Dataflow

/-- Tensors are known by name, unique within one graph. -/
abbrev TensorId := String

/-- Ops are numbered in order of creation, and numbers are never reused. -/
abbrev OpId := Nat

namespace Naming

/-- The mark that opens every generated name. -/
def mark : String := "d__"

/-- The character between two scopes, and between a scope and a name. -/
def separator : Char := '/'

/-- `text` without the leading `lead`, if it starts with it. -/
def dropLead? (lead text : List Char) : Option (List Char) :=
  match lead, text with
  | [], rest => some rest
  | _ :: _, [] => none
  | a :: as, b :: bs => if a = b then dropLead? as bs else none

/-- The pieces of `text` between separators.  There is always at least one. -/
def segments : List Char → List (List Char)
  | [] => [[]]
  | c :: rest =>
    if c = separator then [] :: segments rest
    else
      match segments rest with
      | [] => [[c]]
      | s :: more => (c :: s) :: more

/-- Name of the complete gradient of `tensor`. -/
def grad (tensor : TensorId) : TensorId := mark ++ tensor

/-- Name of the partial gradient of `tensor` along the edge on which `op`
    reads it at input `index`. -/
def edgeGrad (tensor : TensorId) (op : OpId) (index : Nat) : TensorId :=
  mark ++ tensor ++ "_" ++ s!"{op}" ++ "_" ++ s!"{index}"

/-- The tensor whose complete gradient is called `id`. -/
def nonGrad? (id : TensorId) : Option TensorId :=
  (dropLead? mark.toList id.toList).map String.ofList

/-- Whether a segment of `id` opens with the mark of generated names. -/
def isReserved (id : TensorId) : Bool :=
  (segments id.toList).any fun s => (dropLead? mark.toList s).isSome

/-- `id` inside `scope`.  The root scope is the empty string. -/
def addScope (scope id : String) : String :=
  if scope.isEmpty then id else scope ++ separator.toString ++ id

/-- `id` without `scope`, or nothing when `id` does not live in `scope`. -/
def removeScope? (scope id : String) : Option String :=
  if scope.isEmpty then some id
  else
    (dropLead? (scope.toList ++ [separator]) id.toList).map String.ofList

/-- How a scope is shown: the root has a name of its own. -/
def showScope (scope : String) : String :=
  if scope.isEmpty then "<root>" else scope

/-- Taking away a lead that was put in front gives back the rest. -/
theorem dropLead?_append (lead rest : List Char) : dropLead? lead (lead ++ rest) = some rest := by
  induction lead with
  | nil => simp [dropLead?]
  | cons a as ih => simp [dropLead?, ih]

/-- A text with its lead taken away was that lead followed by the rest. -/
theorem eq_append_of_dropLead? {lead text rest : List Char} (h : dropLead? lead text = some rest) :
    text = lead ++ rest := by
  induction lead generalizing text with
  | nil => simpa [dropLead?] using h
  | cons a as ih =>
    cases text with
    | nil => simp [dropLead?] at h
    | cons b bs =>
      by_cases hab : a = b
      · simp [dropLead?, hab] at h
        simp [hab, ih h]
      · simp [dropLead?, hab] at h

/-- A name has at least one segment. -/
theorem segments_ne_nil (text : List Char) : segments text ≠ [] := by
  cases text with
  | nil => simp [segments]
  | cons c rest =>
    rw [segments]
    split
    · simp
    · split <;> simp

/-- The name of a gradient is never one that a user may introduce. -/
theorem isReserved_grad (tensor : TensorId) : isReserved (grad tensor) := by
  obtain ⟨s, more, hs⟩ := List.exists_cons_of_ne_nil (segments_ne_nil tensor.toList)
  have htext : (grad tensor).toList = 'd' :: '_' :: '_' :: tensor.toList := by
    simp [grad, mark]
  simp [isReserved, htext, segments, separator, hs, mark, dropLead?]

theorem grad_inj {t u : TensorId} (h : grad t = grad u) : t = u := by
  have htext := congrArg String.toList h
  simpa [grad, String.toList_inj] using htext

end Naming

end Dataflow
