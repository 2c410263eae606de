import Mathlib.Data.Set.Card
import Dataflow.Proofs.Cycles

/-! # Descendants

    The nodes that a node reaches are collected from the end of an order.  When
    the turn of a node comes, its successors have had theirs, so what has been
    collected for them is all that they reach; a node reaches its successors
    and what they reach.

    `Collected` says of a table of sets that it knows what each of a list of
    nodes reaches.  The sets are packed into words, but only their members and
    their sizes matter here. -/

namespace Dataflow

open Relation (TransGen)

/-! ## Section 1: Lists and sets -/

/-- In a list without repetition, what stands behind a node is in the rest. -/
theorem Before.mem_rest {α : Type} {front rest : List α} {u v : α}
    (h : Before (front ++ u :: rest) u v) (hn : (front ++ u :: rest).Nodup) : v ∈ rest := by
  induction front with
  | nil =>
    have hu : u ∉ rest := (List.nodup_cons.1 hn).1
    cases h with
    | cons _ h => exact absurd (Before.left_mem h) hu
    | cons_cons _ h => exact List.singleton_sublist.1 h
  | cons x front ih =>
    obtain ⟨hx, hfront⟩ := List.nodup_cons.1 hn
    cases h with
    | cons _ h => exact ih h hfront
    | cons_cons _ h => exact absurd (by simp) hx

/-- The size of a set of nodes is the number of its members. -/
theorem NodeSet.size_eq_ncard {room : Nat} (s : NodeSet room) :
    s.size = Set.ncard {v | s.contains v = true} := by
  have hmembers : {v | s.contains v = true} =
      (((List.range (64 * ((room + 63) / 64))).filter s.contains).toFinset : Set Nat) := by
    ext v
    rw [List.coe_toFinset, Set.mem_ofPred_eq, Set.mem_ofPred_eq, List.mem_filter, List.mem_range]
    constructor
    · intro hv
      refine ⟨?_, hv⟩
      -- a number beyond the last word is in no set
      by_contra hbeyond
      have hword : s.words[v / 64]? = none := by
        apply Vector.getElem?_eq_none
        omega
      simp [contains, wordOf, hword] at hv
    · intro hv
      exact hv.2
  rw [hmembers, Set.ncard_coe_finset,
    List.toFinset_card_of_nodup (List.nodup_range.filter _), size_eq_countP,
    List.countP_eq_length_filter]

namespace DependencyGraph

variable {d : DependencyGraph} {reach : Array (NodeSet d.size)} {order rest : List Nat} {u : Nat}

/-! ## Section 2: One node -/

/-- What a node reaches is a successor, or is reached from one. -/
theorem reaches_iff {w : Nat} : TransGen d.Precedes u w ↔
    ∃ v ∈ d.successors u, w = v ∨ TransGen d.Precedes v w := by
  constructor
  · intro h
    obtain ⟨v, huv, hvw⟩ := Relation.TransGen.head'_iff.1 h
    refine ⟨v, mem_successors.2 huv, ?_⟩
    rcases Relation.reflTransGen_iff_eq_or_transGen.1 hvw with heq | hpath
    · exact .inl heq
    · exact .inr hpath
  · intro ⟨v, hv, hw⟩
    have huv : d.Precedes u v := mem_successors.1 hv
    cases hw with
    | inl heq =>
      rw [heq]
      exact .single huv
    | inr hpath => exact .head huv hpath

/-- What is collected from some successors. -/
theorem contains_foldl {nexts : List Nat} (hnexts : ∀ v ∈ nexts, v < d.size)
    (set : NodeSet d.size) (w : Nat) :
    (nexts.foldl (fun set next => set.insert next ∪ reach.getD next ∅) set).contains w = true ↔
      set.contains w = true ∨ ∃ v ∈ nexts, w = v ∨ (reach.getD v ∅).contains w = true := by
  induction nexts generalizing set with
  | nil => simp
  | cons v nexts ih =>
    have hv : v < d.size := hnexts v List.mem_cons_self
    rw [List.foldl_cons, ih fun x hx => hnexts x (List.mem_cons_of_mem v hx),
      NodeSet.contains_union, NodeSet.contains_insert set hv]
    simp only [Bool.or_eq_true, decide_eq_true_eq, List.exists_mem_cons_iff, or_assoc,
      or_left_comm]

/-- The table knows what each of the `nodes` reaches. -/
structure Collected (reach : Array (NodeSet d.size)) (nodes : List Nat) : Prop where
  size : reach.size = d.size
  reaches : ∀ v ∈ nodes, ∀ w, (reach.getD v ∅).contains w = true ↔ TransGen d.Precedes v w

/-- **One node.**  Its successors are known, so it gets to know what they do. -/
theorem Collected.next (h : Collected reach rest) (hu : u < d.size) (hnew : u ∉ rest)
    (hnexts : ∀ v ∈ d.successors u, v < d.size ∧ v ∈ rest) :
    Collected (reach.setIfInBounds u ((d.successors u).foldl
      (fun set next => set.insert next ∪ reach.getD next ∅) ∅)) (u :: rest) where
  size := by
    rw [Array.size_setIfInBounds]
    exact h.size
  reaches v hv w := by
    cases List.mem_cons.1 hv with
    | inl heq =>
      subst heq
      have hget : v < reach.size := by
        rw [h.size]
        exact hu
      rw [Array.getD_eq_getD_getElem?, Array.getElem?_setIfInBounds_self_of_lt hget,
        Option.getD_some, contains_foldl fun x hx => (hnexts x hx).1, reaches_iff]
      simp only [NodeSet.contains_empty, Bool.false_eq_true, false_or]
      constructor
      · intro ⟨x, hx, hw⟩
        exact ⟨x, hx, hw.imp_right (h.reaches x (hnexts x hx).2 w).1⟩
      · intro ⟨x, hx, hw⟩
        exact ⟨x, hx, hw.imp_right (h.reaches x (hnexts x hx).2 w).2⟩
    | inr hrest =>
      -- the other entries stay as they are
      have hne : u ≠ v := fun heq => hnew (heq ▸ hrest)
      rw [Array.getD_eq_getD_getElem?, Array.getElem?_setIfInBounds_ne hne,
        ← Array.getD_eq_getD_getElem?]
      exact h.reaches v hrest w

/-! ## Section 3: A whole order -/

/-- **From the end of an order**, the table comes to know all nodes. -/
theorem IsOrder.collected (h : d.IsOrder order) : Collected (d.descendants order) order := by
  -- the induction is on what has had its turn, the end of the order
  have hend : ∀ front rest, order = front ++ rest → Collected (d.descendants rest) rest := by
    intro front rest
    induction rest generalizing front with
    | nil =>
      intro _
      exact ⟨Array.size_replicate, nofun⟩
    | cons u rest ih =>
      intro hsplit
      have hn : (front ++ u :: rest).Nodup := hsplit ▸ h.nodup
      have hlt : ∀ v ∈ order, v < d.size := fun v hv => List.mem_range.1 (h.perm.subset hv)
      have hrest : Collected (d.descendants rest) rest :=
        ih (front ++ [u]) (by rw [hsplit, List.append_assoc]; rfl)
      apply hrest.next
      · exact hlt u (by rw [hsplit]; simp)
      · exact (List.nodup_cons.1 (List.nodup_append.1 hn).2.1).1
      · intro v hv
        have hbefore : Before order u v := h.respects _ (mem_successors.1 hv)
        have hlater : v ∈ rest := by
          rw [hsplit] at hbefore
          exact hbefore.mem_rest hn
        exact ⟨hlt v hbefore.right_mem, hlater⟩
  exact hend [] order rfl

theorem IsOrder.descendantCounts_getElem? (h : d.IsOrder order) {v : Nat} (hv : v < d.size) :
    (d.descendantCounts order)[v]? =
      some (Set.ncard {w | w ≠ v ∧ TransGen d.Precedes v w}) := by
  have hsize : v < (d.descendants order).size := by
    rw [h.collected.size]
    exact hv
  have hmem : v ∈ order := h.perm.mem_iff.2 (List.mem_range.2 hv)
  have hget : (d.descendants order).getD v ∅ = (d.descendants order)[v] := by
    rw [Array.getD_eq_getD_getElem?, Array.getElem?_eq_getElem hsize, Option.getD_some]
  have hreaches := h.collected.reaches v hmem
  rw [hget] at hreaches
  rw [descendantCounts, Array.getElem?_map, Array.getElem?_eq_getElem hsize, Option.map_some,
    NodeSet.size_eq_ncard]
  congr 2
  ext w
  rw [Set.mem_ofPred_eq, Set.mem_ofPred_eq, hreaches w]
  constructor
  · intro hpath
    exact ⟨fun heq => h.acyclic v (heq ▸ hpath), hpath⟩
  · intro hpath
    exact hpath.2

/-- **Descendant counts are exact**: in any order of a dependency graph, the
    count of a node is the number of other nodes that it reaches through one or
    more edges.  So it does not matter which order is used. -/
theorem descendantCounts_exact (h : d.IsOrder order) :
    (d.descendantCounts order).size = d.size ∧
    (∀ v < d.size, (d.descendantCounts order)[v]? =
      some (Set.ncard {w | w ≠ v ∧ TransGen d.Precedes v w})) ∧
    ∀ order', d.IsOrder order' → d.descendantCounts order' = d.descendantCounts order := by
  have hsize : ∀ {order}, d.IsOrder order → (d.descendantCounts order).size = d.size := by
    intro order h
    rw [descendantCounts, Array.size_map]
    exact h.collected.size
  refine ⟨hsize h, fun v hv => h.descendantCounts_getElem? hv, ?_⟩
  intro order' h'
  apply Array.ext_getElem?
  intro v
  by_cases hv : v < d.size
  · rw [h'.descendantCounts_getElem? hv, h.descendantCounts_getElem? hv]
  · have hbeyond : ∀ {order}, d.IsOrder order → (d.descendantCounts order)[v]? = none := by
      intro order h
      apply Array.getElem?_eq_none
      rw [hsize h]
      omega
    rw [hbeyond h', hbeyond h]

/-- Two branches from the first node meet again in the last one.  There are too
    many nodes for one word. -/
def wideDiamond : DependencyGraph where
  nodes := Array.replicate 70 { op? := none }
  allocSizes := #[]
  edges := Std.ExtTreeSet.ofList ([⟨0, 1⟩, ⟨0, 66⟩, ⟨1, 69⟩, ⟨66, 69⟩] : List Edge)

/-- The node in which the branches meet is counted once. -/
theorem wideDiamond_counts : wideDiamond.IsOrder (List.range 70) ∧
    Set.ncard {w | w ≠ 0 ∧ TransGen wideDiamond.Precedes 0 w} = 3 ∧
    Set.ncard {w | w ≠ 66 ∧ TransGen wideDiamond.Precedes 66 w} = 1 := by
  have horder : wideDiamond.IsOrder (List.range 70) := by
    refine ⟨.refl _, ?_⟩
    have hall : ∀ e ∈ wideDiamond.edges.toList, [e.before, e.after].Sublist (List.range 70) := by
      decide +kernel
    exact fun e he => hall e (Std.ExtTreeSet.mem_toList.2 he)
  obtain ⟨-, hcounts, -⟩ := descendantCounts_exact horder
  have hfirst := (hcounts 0 (by decide)).symm
  have hbranch := (hcounts 66 (by decide)).symm
  have hvalue : (wideDiamond.descendantCounts (List.range 70))[0]? = some 3 := by decide +kernel
  have hvalue' : (wideDiamond.descendantCounts (List.range 70))[66]? = some 1 := by
    decide +kernel
  exact ⟨horder, Option.some.inj (hfirst.trans hvalue), Option.some.inj (hbranch.trans hvalue')⟩

end DependencyGraph

end Dataflow
