import Dataflow.Links
import Dataflow.Measure
import Dataflow.Tensor.Naming

/-! # Ports

    The wiring table of one side of an op: which tensor is wired at which
    index.  Indices may be sparse, since an unwired index is simply absent,
    and a tensor can be wired at several indices of the same op.

    The wiring is written down twice, by index and by tensor, so that it can be
    asked both ways.  Both tables say the same at all times. -/

namespace Dataflow

/-- A finite map from port indices to tensors. -/
structure Ports where
  table : Std.ExtTreeMap Nat TensorId
  /-- The indices of each tensor. -/
  places : Links TensorId Nat
  agree : ∀ (index : Nat) (tensor : TensorId),
    places.contains tensor index ↔ table[index]? = some tensor

namespace Ports

/-- No index is wired. -/
def empty : Ports := ⟨∅, ∅, by simp⟩

instance : EmptyCollection Ports := ⟨empty⟩

instance : Inhabited Ports := ⟨empty⟩

/-- The tensor wired at `index`. -/
def get? (p : Ports) (index : Nat) : Option TensorId := p.table[index]?

/-- Unwire `index`.  The result has the tensor that was there. -/
def take (p : Ports) (index : Nat) : Option TensorId × Ports :=
  match h : p.table[index]? with
  | none => (none, p)
  | some tensor => (some tensor, {
      table := p.table.erase index
      places := p.places.unlink tensor index
      agree := fun i t => by
        rw [Links.contains_unlink, p.agree]
        -- at `index` no other tensor can be wired
        by_cases hi : i = index
        · subst hi; simp [h, eq_comm]
        · have hi' : ¬ index = i := fun e => hi e.symm
          simp [Std.ExtTreeMap.getElem?_erase, hi, hi'] })

theorem table_take (p : Ports) (index : Nat) : (p.take index).2.table[index]? = none := by
  unfold take
  split
  · rename_i h
    exact h
  · exact Std.ExtTreeMap.getElem?_erase_self

/-- Wire `tensor` at an index that is free. -/
def occupy (p : Ports) (index : Nat) (tensor : TensorId) (free : p.table[index]? = none) :
    Ports where
  table := p.table.insert index tensor
  places := p.places.link tensor index
  agree i t := by
    rw [Links.contains_link, p.agree]
    by_cases hi : i = index
    · subst hi; simp [free, eq_comm]
    · have hi' : ¬ index = i := fun e => hi e.symm
      simp [Std.ExtTreeMap.getElem?_insert, hi, hi']

/-- Wire `tensor` at `index`.  The result has the tensor that was there before. -/
def put (p : Ports) (index : Nat) (tensor : TensorId) : Option TensorId × Ports :=
  let taken := p.take index
  (taken.1, taken.2.occupy index tensor (p.table_take index))

/-- Wire `tensor` at `index`, in place of whatever was wired there. -/
def insert (p : Ports) (index : Nat) (tensor : TensorId) : Ports := (p.put index tensor).2

/-- Unwire `index`. -/
def erase (p : Ports) (index : Nat) : Ports := (p.take index).2

/-- Make the wiring at `index` what `tensor?` says. -/
def set (p : Ports) (index : Nat) (tensor? : Option TensorId) : Ports :=
  match tensor? with
  | some t => p.insert index t
  | none => p.erase index

/-- Whether something is wired at `index`. -/
def hasIndex (p : Ports) (index : Nat) : Bool := p.table.contains index

/-- The wired indices with their tensors, in order of the indices. -/
def toList (p : Ports) : List (Nat × TensorId) := p.table.toList

/-- Every index at which `tensor` is wired, ascending. -/
def indices (p : Ports) (tensor : TensorId) : List Nat := (p.places.row tensor).toList

/-- Whether `tensor` is wired at some index. -/
def contains (p : Ports) (tensor : TensorId) : Bool := p.places.hasRow tensor

/-- The distinct tensors, sorted by name. -/
def tensors (p : Ports) : List TensorId := p.places.keys

/-- Number of wired indices. -/
def size (p : Ports) : Nat := p.table.size

/-- Whether no index is wired. -/
def isEmpty (p : Ports) : Bool := p.table.isEmpty

/-- One more than the largest wired index. -/
def extent (p : Ports) : Nat :=
  match p.toList.getLast? with
  | some (top, _) => top + 1
  | none => 0

/-- The extent as a word.  At the largest index that a word can hold, it
    wraps around to zero. -/
def span (p : Ports) : Nat := toWord p.extent

@[simp] theorem get?_empty (i : Nat) : (∅ : Ports).get? i = none :=
  Std.ExtTreeMap.getElem?_empty

/-- Unwiring one index clears it and nothing else. -/
theorem get?_erase (p : Ports) (i j : Nat) :
    (p.erase i).get? j = if j = i then none else p.get? j := by
  by_cases hj : j = i
  · subst hj
    rw [if_pos rfl]
    exact p.table_take j
  · have hj' : ¬ i = j := fun e => hj e.symm
    rw [if_neg hj, erase, take]
    split
    · rfl
    · simp [get?, Std.ExtTreeMap.getElem?_erase, hj']

/-- Wiring one index changes what is wired there and nothing else. -/
theorem get?_insert (p : Ports) (i j : Nat) (t : TensorId) :
    (p.insert i t).get? j = if j = i then some t else p.get? j := by
  have hput : (p.insert i t).get? j = ((p.erase i).table.insert i t)[j]? := rfl
  rw [hput]
  by_cases hj : j = i
  · subst hj; simp
  · have hj' : ¬ i = j := fun e => hj e.symm
    simp only [Std.ExtTreeMap.getElem?_insert, Std.compare_eq_iff_eq, hj, hj', if_false]
    exact (p.get?_erase i j).trans (if_neg hj)

/-- What is taken is what was wired. -/
theorem take_fst (p : Ports) (i : Nat) : (p.take i).1 = p.get? i := by
  unfold take
  split
  · rename_i h
    exact h.symm
  · rename_i h
    exact h.symm

/-- Both tables say the same. -/
theorem contains_places {p : Ports} {i : Nat} {t : TensorId} :
    p.places.contains t i ↔ p.get? i = some t := p.agree i t

/-- Tables with the same wiring are equal. -/
theorem ext_get? {p q : Ports} (h : ∀ i, p.get? i = q.get? i) : p = q := by
  have htable : p.table = q.table := Std.ExtTreeMap.ext_getElem? h
  have hplaces : p.places = q.places := Links.ext_contains fun t i => by
    rw [contains_places, contains_places, h i]
  cases p
  cases q
  cases htable
  cases hplaces
  rfl

/-- The listing holds exactly the wired pairs. -/
theorem mem_toList {p : Ports} {i : Nat} {t : TensorId} :
    (i, t) ∈ p.toList ↔ p.get? i = some t := by
  simp [toList, get?, Std.ExtTreeMap.mem_toList_iff_getElem?_eq_some]

theorem mem_indices {p : Ports} {i : Nat} {t : TensorId} :
    i ∈ p.indices t ↔ p.get? i = some t := Links.mem_row.trans contains_places

theorem mem_tensors {p : Ports} {t : TensorId} : t ∈ p.tensors ↔ ∃ i, p.get? i = some t := by
  simp only [tensors, Links.mem_keys, contains_places]

theorem contains_iff {p : Ports} {t : TensorId} : p.contains t ↔ ∃ i, p.get? i = some t := by
  simp only [contains, Links.hasRow_iff, contains_places]

end Ports

end Dataflow
