import Std.Data.ExtTreeSet

/-! # Edges

    An edge says that one numbered thing comes before another: ops under an
    ordering constraint, or nodes of a dependency graph.  Edges are sorted by
    their first end, then by their second, which is the order in which every
    listing shows them. -/

namespace Dataflow

/-- `before` has to come ahead of `after`. -/
structure Edge where
  before : Nat
  after : Nat
  deriving DecidableEq, Repr, Inhabited

namespace Edge

instance : Ord Edge where
  compare := compareLex (compareOn before) (compareOn after)

instance : Std.TransOrd Edge :=
  inferInstanceAs (Std.TransCmp (compareLex (compareOn before) (compareOn after)))

instance : Std.LawfulEqOrd Edge where
  compare_self := Std.ReflCmp.compare_self
  eq_of_compare {a b} h := by
    have h' : compareLex (compareOn before) (compareOn after) a b = .eq := h
    simp only [compareLex, compareOn, Ordering.then_eq_eq, Std.compare_eq_iff_eq] at h'
    cases a
    cases b
    simp_all

end Edge

/-- A finite set of edges. -/
abbrev EdgeSet := Std.ExtTreeSet Edge

end Dataflow
