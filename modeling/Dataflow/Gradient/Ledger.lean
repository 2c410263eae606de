import Dataflow.Gradient.Error
import Dataflow.Op

/-! # Ledgers of gradients

    Two ledgers decide when the next piece of a backward graph can be grown.

    `PartialGradients` collects the partial gradients of each tensor, one for
    each edge along which the tensor is read.  A tensor is complete when all
    the edges that can still deliver have done so.

    `OutputGradients` collects which outputs of each op have a complete
    gradient.  An op is complete when its operator is content with them, and
    it is never complete twice.

    An update that fails leaves a ledger behind all the same. -/

namespace Dataflow

/-! ## Section 1: Partial gradients of tensors -/

/-- The partial gradients of tensors. -/
structure PartialGradients where
  /-- For each tensor that is not complete, the number of edges that deliver. -/
  expected : Std.ExtTreeMap TensorId Nat := ∅
  /-- The partial gradients that have arrived, in order of arrival. -/
  held : Std.ExtTreeMap TensorId (List TensorId) := ∅
  /-- The tensors that have become complete, with their partial gradients. -/
  complete : Std.ExtTreeMap TensorId (List TensorId) := ∅

namespace PartialGradients

/-- A change of the ledger that may fail. -/
abbrev Update := EStateM GradientError PartialGradients

/-- Expect partial gradients of `tensor` along `edges` edges. -/
def expect (l : PartialGradients) (tensor : TensorId) (edges : Nat) : PartialGradients :=
  { l with expected := l.expected.insert tensor edges }

/-- Number of edges of `tensor` that deliver, unless it is complete. -/
def expected? (l : PartialGradients) (tensor : TensorId) : Option Nat := l.expected[tensor]?

/-- The partial gradients of `tensor` that have arrived. -/
def arrived (l : PartialGradients) (tensor : TensorId) : List TensorId := l.held.getD tensor []

/-- Declare `tensor` complete if all that is expected has arrived. -/
def settle (l : PartialGradients) (tensor : TensorId) : PartialGradients :=
  let arrived := l.arrived tensor
  if arrived.length = (l.expected? tensor).getD 0 then
    { expected := l.expected.erase tensor
      held := l.held.erase tensor
      complete := l.complete.insert tensor arrived }
  else l

/-- The partial gradient `grad` of `tensor` has arrived. -/
def insert (tensor grad : TensorId) : Update Unit := fun l =>
  match l.expected? tensor with
  | none =>
    .error (.internal s!"gradient '{grad}' registered for untracked '{tensor}'") l
  | some expected =>
    if (l.arrived tensor).contains grad then
      .error (.internal s!"gradient '{grad}' of '{tensor}' registered twice") l
    else
      let arrived := l.arrived tensor ++ [grad]
      let l := { l with held := l.held.insert tensor arrived }
      if arrived.length > expected then
        .error (.internal
          s!"'{tensor}' received {arrived.length} gradients but expects {expected}") l
      else .ok () (l.settle tensor)

/-- One edge of `tensor` will never deliver. -/
def waive (tensor : TensorId) : Update Unit := fun l =>
  match l.expected? tensor with
  | some (n + 1) => .ok () ((l.expect tensor n).settle tensor)
  | some 0 | none =>
    .error (.internal s!"no outstanding gradient edge of '{tensor}' to drop") l

/-- Take out the complete tensors with their partial gradients, by name. -/
def takeComplete (l : PartialGradients) : List (TensorId × List TensorId) × PartialGradients :=
  (l.complete.toList, { l with complete := ∅ })

/-- The tensors that still wait for gradients. -/
def outstanding (l : PartialGradients) : List TensorId := l.expected.keys

end PartialGradients

/-! ## Section 2: Gradients of the outputs of ops -/

/-- Which outputs of ops have a complete gradient. -/
structure OutputGradients where
  /-- The outputs of each op that lie on a path to the loss. -/
  required : Std.ExtTreeMap OpId (Std.ExtTreeSet Nat) := ∅
  /-- The outputs of each op that have a gradient. -/
  held : Std.ExtTreeMap OpId (Std.ExtTreeSet Nat) := ∅
  complete : Std.ExtTreeSet OpId := ∅
  /-- The ops that have been taken out or given up.  They are done with. -/
  closed : Std.ExtTreeSet OpId := ∅

namespace OutputGradients

/-- A change of the ledger that may fail. -/
abbrev Update := EStateM GradientError OutputGradients

/-- Say which outputs of `op` lie on a path to the loss. -/
def require (l : OutputGradients) (op : OpId) (outputs : Std.ExtTreeSet Nat) : OutputGradients :=
  { l with required := l.required.insert op outputs }

/-- The outputs of `op` that have a gradient. -/
def available (l : OutputGradients) (op : OpId) : Std.ExtTreeSet Nat := l.held.getD op ∅

/-- Output `index` of `op` has a complete gradient. -/
def insert (op : OpId) (o : Op) (index : Nat) : Update Unit := fun l =>
  if l.closed.contains op then
    .error (.internal
      s!"gradient for output {index} of {o.label op} arrived after its gradient ops were grown") l
  else if (l.available op).contains index then
    .error (.internal s!"gradient for output {index} of {o.label op} registered twice") l
  else
    let available := (l.available op).insert index
    let l := { l with held := l.held.insert op available }
    if o.operator.isReady available (l.required.getD op ∅) then
      .ok () { l with complete := l.complete.insert op }
    else .ok () l

/-- Output `index` of `op` will never have a gradient.  The result is true
    when no output of `op` can have one any more; the op is then given up. -/
def waive (op : OpId) (o : Op) (index : Nat) (l : OutputGradients) : Bool × OutputGradients :=
  if l.closed.contains op then (false, l)
  else
    let required := (l.required.getD op ∅).erase index
    let l := l.require op required
    if (l.available op).isEmpty then
      if required.isEmpty then
        (true, { l with complete := l.complete.erase op, closed := l.closed.insert op })
      else (false, l)
    else if o.operator.isReady (l.available op) required then
      (false, { l with complete := l.complete.insert op })
    else (false, l)

/-- Take out the complete ops, ascending.  They never become complete again. -/
def takeComplete (l : OutputGradients) : List OpId × OutputGradients :=
  let ops := l.complete.toList
  (ops, { l with
    held := ops.foldl (fun held op => held.erase op) l.held
    complete := ∅
    closed := l.closed ∪ l.complete })

end OutputGradients

end Dataflow
