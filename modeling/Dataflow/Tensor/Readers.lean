import Std.Data.ExtTreeMap
import Dataflow.Measure
import Dataflow.Tensor.Naming

/-! # Readers

    The ops that read a tensor, as a multiset: an op that reads the same
    tensor at several input indices is counted once for each of them. -/

namespace Dataflow

/-- How often each op reads a tensor.  Ops that do not read it are absent. -/
structure Readers where
  counts : Std.ExtTreeMap OpId Nat
  count_pos : ∀ (op : OpId) (n : Nat), counts[op]? = some n → 0 < n

namespace Readers

/-- Nobody reads the tensor. -/
def empty : Readers := ⟨∅, by simp⟩

instance : EmptyCollection Readers := ⟨empty⟩

instance : Inhabited Readers := ⟨empty⟩

/-- How often `op` reads the tensor. -/
def count (r : Readers) (op : OpId) : Nat := r.counts.getD op 0

/-- One more edge from the tensor to `op`. -/
def add (r : Readers) (op : OpId) : Readers where
  counts := r.counts.insert op (r.count op + 1)
  count_pos o n h := by
    rw [Std.ExtTreeMap.getElem?_insert] at h
    split at h
    · cases h; omega
    · exact r.count_pos o n h

/-- Whether `op` reads the tensor. -/
def contains (r : Readers) (op : OpId) : Bool := r.counts.contains op

/-- One edge fewer from the tensor to `op`.  The result says whether there was
    an edge.  An op without edges is forgotten. -/
def take (r : Readers) (op : OpId) : Bool × Readers :=
  (r.contains op, {
    counts :=
      if r.count op > 1 then r.counts.insert op (r.count op - 1) else r.counts.erase op
    count_pos := fun o n h => by
      split at h
      · rw [Std.ExtTreeMap.getElem?_insert] at h
        split at h
        · cases h; omega
        · exact r.count_pos o n h
      · rw [Std.ExtTreeMap.getElem?_erase] at h
        split at h
        · cases h
        · exact r.count_pos o n h })

/-- One edge fewer from the tensor to `op`. -/
def drop (r : Readers) (op : OpId) : Readers := (r.take op).2

/-- Number of reading edges. -/
def total (r : Readers) : Nat := Dataflow.total r.counts.values

/-- Whether nobody reads the tensor. -/
def isEmpty (r : Readers) : Bool := r.counts.isEmpty

/-- The distinct reading ops, in order of their numbers. -/
def ops (r : Readers) : List OpId := r.counts.keys

/-- Every reading op with its number of edges, in order of the op numbers. -/
def toList (r : Readers) : List (OpId × Nat) := r.counts.toList

@[simp] theorem count_empty (op : OpId) : (∅ : Readers).count op = 0 :=
  Std.ExtTreeMap.getD_empty

/-- Adding an edge counts at its op and nowhere else. -/
theorem count_add (r : Readers) (op o : OpId) :
    (r.add op).count o = if o = op then r.count op + 1 else r.count o := by
  by_cases h : o = op
  · subst h; simp [add, count]
  · have h' : ¬ op = o := fun e => h e.symm
    simp [add, count, Std.ExtTreeMap.getD_insert, h, h']

/-- Dropping an edge takes one away at its op, and nothing elsewhere. -/
theorem count_drop (r : Readers) (op o : OpId) :
    (r.drop op).count o = if o = op then r.count op - 1 else r.count o := by
  by_cases h : o = op
  · subst h
    by_cases hc : r.count o > 1
    · simp only [drop, take, count, if_true] at hc ⊢
      simp [hc]
    · simp only [drop, take, count, if_true] at hc ⊢
      simp only [hc, if_false, Std.ExtTreeMap.getD_erase_self]
      omega
  · have h' : ¬ op = o := fun e => h e.symm
    by_cases hc : r.count op > 1
    · simp only [drop, take, count, h, if_false] at hc ⊢
      simp [hc, Std.ExtTreeMap.getD_insert, h']
    · simp only [drop, take, count, h, if_false] at hc ⊢
      simp [hc, Std.ExtTreeMap.getD_erase, h']

/-- The reading ops are those that are counted. -/
theorem mem_ops {r : Readers} {op : OpId} : op ∈ r.ops ↔ 0 < r.count op := by
  simp only [ops, Std.ExtTreeMap.mem_keys, count, Std.ExtTreeMap.getD_eq_getD_getElem?,
    Std.ExtTreeMap.mem_iff_isSome_getElem?]
  cases h : r.counts[op]? with
  | none => simp
  | some n => simpa using r.count_pos op n h

/-- Whether an op reads the tensor, by its count. -/
theorem contains_iff {r : Readers} {op : OpId} : r.contains op ↔ 0 < r.count op := by
  rw [← mem_ops, ops, Std.ExtTreeMap.mem_keys, contains, Std.ExtTreeMap.contains_iff_mem]

/-- Nobody reads the tensor exactly when no op is counted. -/
theorem isEmpty_iff {r : Readers} : r.isEmpty ↔ ∀ op, r.count op = 0 := by
  rw [isEmpty, Std.ExtTreeMap.isEmpty_iff, Std.ExtTreeMap.eq_empty_iff_forall_not_mem]
  refine forall_congr' fun op => ?_
  rw [← Std.ExtTreeMap.mem_keys, ← ops, mem_ops]
  omega

end Readers

end Dataflow
