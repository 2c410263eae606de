import Dataflow.Edge
import Dataflow.Links
import Dataflow.Tensor.Naming

/-! # Ordering constraints

    Edges between ops that hold in addition to the flow of data.  An op is
    never ordered against itself.

    Every edge is written down twice, at the op that it leads to and at the op
    that it comes from, so that all edges of an op can be found.  Both tables
    say the same at all times. -/

namespace Dataflow

/-- A set of pairs of different ops, the first of which has to run earlier. -/
structure Constraints where
  /-- What has to run ahead of each op. -/
  befores : Links OpId OpId
  /-- What has to run later than each op. -/
  afters : Links OpId OpId
  agree : ∀ before after : OpId, befores.contains after before ↔ afters.contains before after
  irrefl : ∀ op : OpId, ¬ afters.contains op op

namespace Constraints

/-- No constraint at all. -/
def empty : Constraints := ⟨∅, ∅, by simp, by simp⟩

instance : EmptyCollection Constraints := ⟨empty⟩

instance : Inhabited Constraints := ⟨empty⟩

/-- Whether `before` has to run ahead of `after`. -/
def contains (c : Constraints) (before after : OpId) : Bool := c.befores.contains after before

/-- Require `before` to run ahead of `after`.  A pair of equal ops is ignored. -/
def insert (c : Constraints) (before after : OpId) : Constraints :=
  if h : before = after then c
  else {
    befores := c.befores.link after before
    afters := c.afters.link before after
    agree := fun b a => by
      rw [Links.contains_link, Links.contains_link, c.agree, and_comm]
    irrefl := fun op => by
      rw [Links.contains_link]
      rintro (⟨rfl, hop⟩ | hop)
      · exact h hop
      · exact c.irrefl op hop }

/-- What has to run later than each op, with `op` struck out of the rows of those
    ahead of it. -/
def aftersWithout (c : Constraints) (op : OpId) : Links OpId OpId :=
  c.afters.unlinkAll (c.befores.row op).toList op

theorem contains_aftersWithout {c : Constraints} {op before after : OpId} :
    (c.aftersWithout op).contains before after ↔ c.afters.contains before after ∧ after ≠ op := by
  -- the rows to strike it out of are those that hold it, since the tables agree
  rw [aftersWithout, Links.contains_unlinkAll, Links.mem_row, c.agree]
  grind

/-- Forget every constraint on `op`. -/
def erase (c : Constraints) (op : OpId) : Constraints where
  befores := (c.befores.drop op).unlinkAll ((c.aftersWithout op).row op).toList op
  afters := (c.aftersWithout op).drop op
  agree before after := by
    -- either way, what is left is what has `op` at neither end
    rw [Links.contains_unlinkAll, Links.mem_row, Links.contains_drop, Links.contains_drop,
      contains_aftersWithout, contains_aftersWithout, c.agree]
    grind
  irrefl x := by
    rw [Links.contains_drop, contains_aftersWithout]
    exact fun h => c.irrefl x h.1.1

/-- Every constraint, sorted. -/
def toList (c : Constraints) : List Edge := c.afters.toList.map fun (b, a) => ⟨b, a⟩

/-- Whether some constraint is on `op`. -/
def mentions (c : Constraints) (op : OpId) : Bool := c.befores.hasRow op || c.afters.hasRow op

/-- The ops that `before` has to precede, in order of their numbers. -/
def after (c : Constraints) (before : OpId) : List OpId :=
  c.toList.filterMap fun e => if e.before = before then some e.after else none

theorem mem_toList {c : Constraints} {e : Edge} :
    e ∈ c.toList ↔ c.afters.contains e.before e.after := by
  rw [toList, List.mem_map]
  constructor
  · rintro ⟨⟨b, a⟩, hmem, rfl⟩
    exact Links.mem_toList.1 hmem
  · intro h
    exact ⟨(e.before, e.after), Links.mem_toList.2 h, rfl⟩

/-- A question about one pair is answered by the listing. -/
theorem contains_iff {c : Constraints} {before after : OpId} :
    c.contains before after ↔ ⟨before, after⟩ ∈ c.toList := by
  rw [mem_toList, contains, c.agree]

/-- The listing is sorted, without repetition. -/
theorem ordered_toList (c : Constraints) : c.toList.Pairwise fun e f =>
    e.before < f.before ∨ e.before = f.before ∧ e.after < f.after := by
  rw [toList, List.pairwise_map]
  refine c.afters.ordered_toList.imp fun h => ?_
  rwa [Nat.compare_eq_lt, Nat.compare_eq_lt] at h

/-- The ends of an edge are different. -/
theorem before_ne_after {c : Constraints} {e : Edge} (h : e ∈ c.toList) : e.before ≠ e.after := by
  intro heq
  rw [mem_toList, heq] at h
  exact c.irrefl _ h

@[simp] theorem toList_empty : (∅ : Constraints).toList = [] := rfl

/-- Constraints with the same edges are equal. -/
theorem ext_toList {c d : Constraints} (h : ∀ e, e ∈ c.toList ↔ e ∈ d.toList) : c = d := by
  have hafters : c.afters = d.afters := Links.ext_contains fun b a => by
    have hedge := h ⟨b, a⟩
    rwa [mem_toList, mem_toList] at hedge
  have hbefores : c.befores = d.befores := Links.ext_contains fun a b => by
    rw [c.agree, d.agree, hafters]
  cases c
  cases d
  cases hafters
  cases hbefores
  rfl

/-- A new constraint joins those that hold already. -/
theorem mem_toList_insert {c : Constraints} {before after : OpId} {e : Edge} :
    e ∈ (c.insert before after).toList ↔
      (before ≠ after ∧ e = ⟨before, after⟩) ∨ e ∈ c.toList := by
  rw [insert, mem_toList, mem_toList]
  split
  · rename_i h
    simp [h]
  · rename_i h
    rw [Links.contains_link]
    cases e
    simp [h]

/-- Without the constraints on an op, those on other ops remain. -/
theorem mem_toList_erase {c : Constraints} {op : OpId} {e : Edge} :
    e ∈ (c.erase op).toList ↔ e ∈ c.toList ∧ e.before ≠ op ∧ e.after ≠ op := by
  rw [erase, mem_toList, mem_toList, Links.contains_drop, contains_aftersWithout, and_assoc,
    and_comm (a := e.after ≠ op)]

/-- A constraint is on an op if the op is one of its ends. -/
theorem mentions_iff {c : Constraints} {op : OpId} :
    c.mentions op ↔ ∃ e ∈ c.toList, e.before = op ∨ e.after = op := by
  rw [mentions, Bool.or_eq_true, Links.hasRow_iff, Links.hasRow_iff]
  constructor
  · rintro (⟨before, h⟩ | ⟨after, h⟩)
    · exact ⟨⟨before, op⟩, contains_iff.1 h, .inr rfl⟩
    · exact ⟨⟨op, after⟩, mem_toList.2 h, .inl rfl⟩
  · rintro ⟨⟨before, after⟩, hmem, rfl | rfl⟩
    · exact .inr ⟨after, mem_toList.1 hmem⟩
    · exact .inl ⟨before, contains_iff.2 hmem⟩

/-- Nothing is left of the constraints on an op. -/
@[simp] theorem mentions_erase (c : Constraints) (op : OpId) : (c.erase op).mentions op = false := by
  rw [← Bool.not_eq_true, mentions_iff]
  rintro ⟨e, he, hop⟩
  obtain ⟨-, hbefore, hafter⟩ := mem_toList_erase.1 he
  exact hop.elim hbefore hafter

/-- What has to come after an op. -/
theorem mem_after {c : Constraints} {before after : OpId} :
    after ∈ c.after before ↔ ⟨before, after⟩ ∈ c.toList := by
  simp only [Constraints.after, List.mem_filterMap]
  constructor
  · rintro ⟨⟨b, a⟩, he, h⟩
    split at h
    · rename_i hb
      simp only at hb
      cases h
      rw [← hb]
      exact he
    · cases h
  · intro h
    exact ⟨_, h, by simp⟩

end Constraints

end Dataflow
