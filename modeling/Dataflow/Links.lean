import Std.Data.ExtTreeMap
import Std.Data.ExtTreeSet

/-! # Links

    A finite relation, kept as a table: each thing that is linked to
    something has a row, the set of what it is linked to.  A row that becomes
    empty is dropped, so to have a row is to be linked.

    Two tables that mirror each other make a relation that can be asked from
    both ends (`Dataflow.Op.Ports`, `Dataflow.Graph.Constraints`). -/

namespace Dataflow

/-- Which `α` is linked to which `β`. -/
structure Links (α β : Type) [Ord α] [Std.TransOrd α] [Ord β] where
  rows : Std.ExtTreeMap α (Std.ExtTreeSet β)
  row_ne_empty : ∀ (a : α) (row : Std.ExtTreeSet β), rows[a]? = some row → row ≠ ∅

namespace Links

section

variable {α β : Type} [Ord α] [Std.TransOrd α] [Ord β]

/-- Nothing is linked. -/
def empty : Links α β := ⟨∅, by simp⟩

instance : EmptyCollection (Links α β) := ⟨empty⟩

variable [Std.TransOrd β]

/-- What `a` is linked to. -/
def row (l : Links α β) (a : α) : Std.ExtTreeSet β := (l.rows[a]?).getD ∅

/-- Whether `a` is linked to `b`. -/
def contains (l : Links α β) (a : α) (b : β) : Bool := (l.row a).contains b

/-- Whether `a` is linked to anything. -/
def hasRow (l : Links α β) (a : α) : Bool := l.rows.contains a

/-- The things that are linked to something, in their order. -/
def keys (l : Links α β) : List α := l.rows.keys

/-- All linked pairs, by the first, then by the second. -/
def toList (l : Links α β) : List (α × β) :=
  l.rows.toList.flatMap fun (a, row) => row.toList.map fun b => (a, b)

/-- Link `a` to `b`. -/
def link (l : Links α β) (a : α) (b : β) : Links α β where
  rows := l.rows.insert a ((l.row a).insert b)
  row_ne_empty x row h := by
    rw [Std.ExtTreeMap.getElem?_insert] at h
    split at h
    · cases h
      exact Std.ExtTreeSet.insert_ne_empty
    · exact l.row_ne_empty x row h

/-- Take the link from `a` to `b` away.  A row without links is dropped. -/
def unlink (l : Links α β) (a : α) (b : β) : Links α β where
  rows := l.rows.alter a fun row? =>
    (row?.map (·.erase b)).filter fun row => !row.isEmpty
  row_ne_empty x row h := by
    rw [Std.ExtTreeMap.getElem?_alter] at h
    split at h
    · have hrow := (Option.filter_eq_some_iff.1 h).2
      rintro rfl
      simp at hrow
    · exact l.row_ne_empty x row h

/-- Take all links of `a` away. -/
def drop (l : Links α β) (a : α) : Links α β where
  rows := l.rows.erase a
  row_ne_empty x row h := by
    rw [Std.ExtTreeMap.getElem?_erase] at h
    split at h
    · cases h
    · exact l.row_ne_empty x row h

/-- Take the links from each of `as` to `b` away. -/
def unlinkAll (l : Links α β) (as : List α) (b : β) : Links α β :=
  as.foldl (fun l a => l.unlink a b) l

/-! ## Section 1: What is linked -/

theorem contains_iff {l : Links α β} {a : α} {b : β} :
    l.contains a b ↔ ∃ row, l.rows[a]? = some row ∧ b ∈ row := by
  rw [contains, row, Std.ExtTreeSet.contains_iff_mem]
  cases l.rows[a]? <;> simp

@[simp] theorem contains_empty (a : α) (b : β) : (∅ : Links α β).contains a b = false := by
  have hnone : (∅ : Links α β).rows[a]? = none := Std.ExtTreeMap.getElem?_empty
  simp [contains, row, hnone]

variable [Std.LawfulEqOrd α]

/-- Without the links of one thing, those of the others remain. -/
theorem contains_drop {l : Links α β} {a x : α} {y : β} :
    (l.drop a).contains x y ↔ l.contains x y ∧ x ≠ a := by
  rw [contains_iff, contains_iff]
  by_cases h : x = a
  · subst h
    simp [drop]
  · have h' : ¬ a = x := fun e => h e.symm
    simp [drop, Std.ExtTreeMap.getElem?_erase, h, h']

variable [Std.LawfulEqOrd β]

/-- A new link joins those that are there. -/
theorem contains_link {l : Links α β} {a x : α} {b y : β} :
    (l.link a b).contains x y ↔ (x = a ∧ y = b) ∨ l.contains x y := by
  simp only [contains, Std.ExtTreeSet.contains_iff_mem]
  by_cases h : x = a
  · subst h
    rw [row, link, Std.ExtTreeMap.getElem?_insert_self, Option.getD_some,
      Std.ExtTreeSet.mem_insert, Std.compare_eq_iff_eq]
    simp [eq_comm]
  · have h' : ¬ a = x := fun e => h e.symm
    simp [row, link, Std.ExtTreeMap.getElem?_insert, h, h']

/-- Without one link the others remain. -/
theorem contains_unlink {l : Links α β} {a x : α} {b y : β} :
    (l.unlink a b).contains x y ↔ l.contains x y ∧ ¬ (x = a ∧ y = b) := by
  rw [contains_iff, contains_iff]
  by_cases h : x = a
  · subst h
    rw [unlink, Std.ExtTreeMap.getElem?_alter_self]
    cases l.rows[x]? with
    | none => simp
    | some row =>
      have hrow : y ∈ row.erase b ↔ y ∈ row ∧ y ≠ b := by
        rw [Std.ExtTreeSet.mem_erase, ne_eq, Std.compare_eq_iff_eq, and_comm, eq_comm]
      rw [Option.map_some, Option.filter_some]
      split
      · simp [hrow]
      · -- the row is dropped, so it had no other link
        rename_i hempty
        have hgone : y ∉ row.erase b := by
          rw [Bool.not_eq_true, Bool.not_eq_false', Std.ExtTreeSet.isEmpty_iff] at hempty
          rw [hempty]
          exact Std.ExtTreeSet.not_mem_empty
        rw [hrow] at hgone
        simpa using hgone
  · have h' : ¬ a = x := fun e => h e.symm
    simp [unlink, Std.ExtTreeMap.getElem?_alter, h, h']

theorem contains_unlinkAll {l : Links α β} {as : List α} {x : α} {b y : β} :
    (l.unlinkAll as b).contains x y ↔ l.contains x y ∧ ¬ (x ∈ as ∧ y = b) := by
  induction as generalizing l with
  | nil => simp [unlinkAll]
  | cons a as ih =>
    have hstep : l.unlinkAll (a :: as) b = (l.unlink a b).unlinkAll as b := rfl
    rw [hstep, ih, contains_unlink, List.mem_cons]
    grind

end

/-! ## Section 2: Rows and listings -/

section

variable {α β : Type} [Ord α] [Std.TransOrd α] [Ord β] [Std.TransOrd β] {l m : Links α β}

/-- The table stores a row as soon as there is something in it. -/
theorem getElem?_rows (l : Links α β) (a : α) :
    l.rows[a]? = if (l.row a).isEmpty then none else some (l.row a) := by
  cases hrow : l.rows[a]? with
  | none => simp [row, hrow]
  | some r =>
    have hne : ¬ r.isEmpty := fun h => l.row_ne_empty a r hrow (Std.ExtTreeSet.isEmpty_iff.1 h)
    rw [row, hrow, Option.getD_some, if_neg hne]

/-- **To have a row is to be linked.** -/
theorem hasRow_iff {a : α} : l.hasRow a ↔ ∃ b, l.contains a b := by
  simp only [contains, Std.ExtTreeSet.contains_iff_mem]
  rw [hasRow, Std.ExtTreeMap.contains_eq_isSome_getElem?, getElem?_rows]
  split
  · rename_i hempty
    rw [Std.ExtTreeSet.isEmpty_iff] at hempty
    simp [hempty]
  · rename_i hne
    rw [Std.ExtTreeSet.isEmpty_iff, Std.ExtTreeSet.eq_empty_iff_forall_not_mem] at hne
    simpa using hne

theorem mem_row [Std.LawfulEqOrd β] {a : α} {b : β} :
    b ∈ (l.row a).toList ↔ l.contains a b := by
  rw [Std.ExtTreeSet.mem_toList, contains, Std.ExtTreeSet.contains_iff_mem]

variable [Std.LawfulEqOrd α]

theorem mem_keys {a : α} : a ∈ l.keys ↔ ∃ b, l.contains a b := by
  rw [keys, Std.ExtTreeMap.mem_keys, ← hasRow_iff, hasRow, Std.ExtTreeMap.contains_iff_mem]

variable [Std.LawfulEqOrd β]

theorem mem_toList {a : α} {b : β} : (a, b) ∈ l.toList ↔ l.contains a b := by
  rw [contains_iff, toList, List.mem_flatMap]
  constructor
  · rintro ⟨⟨x, row⟩, hrow, hmem⟩
    obtain ⟨y, hy, heq⟩ := List.mem_map.1 hmem
    cases heq
    exact ⟨row, Std.ExtTreeMap.mem_toList_iff_getElem?_eq_some.1 hrow,
      Std.ExtTreeSet.mem_toList.1 hy⟩
  · rintro ⟨row, hrow, hb⟩
    exact ⟨(a, row), Std.ExtTreeMap.mem_toList_iff_getElem?_eq_some.2 hrow,
      List.mem_map.2 ⟨b, Std.ExtTreeSet.mem_toList.2 hb, rfl⟩⟩

omit [Std.LawfulEqOrd α] [Std.LawfulEqOrd β] in
/-- The listing is sorted by the first, then by the second, without repetition. -/
theorem ordered_toList (l : Links α β) : l.toList.Pairwise fun x y =>
    compare x.1 y.1 = .lt ∨ x.1 = y.1 ∧ compare x.2 y.2 = .lt := by
  rw [toList, List.pairwise_flatMap]
  constructor
  · rintro ⟨a, row⟩ -
    rw [List.pairwise_map]
    exact Std.ExtTreeSet.ordered_toList.imp fun hlt => .inr ⟨rfl, hlt⟩
  · refine Std.ExtTreeMap.ordered_keys_toList.imp fun hlt x hx y hy => ?_
    obtain ⟨b, -, rfl⟩ := List.mem_map.1 hx
    obtain ⟨c, -, rfl⟩ := List.mem_map.1 hy
    exact .inl hlt

/-- Tables with the same links are equal, since neither has an empty row. -/
theorem ext_contains (h : ∀ a b, l.contains a b ↔ m.contains a b) : l = m := by
  have hrow : ∀ a, l.row a = m.row a := fun a => Std.ExtTreeSet.ext_mem fun b => by
    rw [← Std.ExtTreeSet.contains_iff_mem, ← Std.ExtTreeSet.contains_iff_mem]
    exact h a b
  have hrows : l.rows = m.rows := Std.ExtTreeMap.ext_getElem? fun a => by
    rw [getElem?_rows, getElem?_rows, hrow]
  cases l
  cases m
  cases hrows
  rfl

end

end Links

end Dataflow
