import Mathlib.Data.List.Nodup
import Mathlib.Data.List.Perm.Basic
import Mathlib.Data.List.Perm.Subperm
import Mathlib.Logic.Relation
import Dataflow.Proofs.Runs
import Dataflow.Schedule.ListOrder

/-! # Orders by readiness

    An order of a dependency graph lists every node once, the ends of every
    edge in the direction of the edge.  Taking ready nodes one after the other
    leads to such an order whenever it does not get stuck, whatever the
    tie-break, the priorities and the dice; and it does not get stuck when the
    edges hold no cycle.

    The invariant of the traversal is `Traversal.Sound`.  While the successors
    of a node are released one by one, those that are still to be released are
    a parameter of the invariant. -/

namespace Dataflow

/-! ## Section 1: Orders -/

/-- `u` stands ahead of `v` in a list. -/
def Before {α : Type} (order : List α) (u v : α) : Prop := [u, v].Sublist order

namespace Before

variable {α : Type} {order : List α} {u v : α}

theorem left_mem (h : Before order u v) : u ∈ order := h.subset List.mem_cons_self

theorem right_mem (h : Before order u v) : v ∈ order := h.subset (by simp)

/-- In a list without repetition, of two entries only one stands ahead. -/
theorem asymm (h : Before order u v) (hn : order.Nodup) : ¬ Before order v u := by
  intro h'
  induction order with
  | nil => cases h
  | cons x xs ih =>
    obtain ⟨hx, hxs⟩ := List.nodup_cons.1 hn
    cases h with
    | cons _ h =>
      cases h' with
      | cons _ h' => exact ih h hxs h'
      | cons_cons _ _ => exact hx (right_mem h)
    | cons_cons _ _ =>
      cases h' with
      | cons _ h' => exact hx (right_mem h')
      | cons_cons _ h' => exact hx (List.singleton_sublist.1 h')

theorem trans {w : α} (hn : order.Nodup) (h : Before order u v) (h' : Before order v w) :
    Before order u w := by
  induction order with
  | nil => cases h
  | cons x xs ih =>
    obtain ⟨hx, hxs⟩ := List.nodup_cons.1 hn
    cases h' with
    | cons_cons _ hw =>
      -- `v` is the head, so nothing stands ahead of it
      cases h with
      | cons _ h => exact absurd (right_mem h) hx
      | cons_cons _ h => exact absurd (List.singleton_sublist.1 h) hx
    | cons _ h' =>
      cases h with
      | cons _ h => exact (ih hxs h h').cons x
      | cons_cons _ _ => exact (List.singleton_sublist.2 (right_mem h')).cons_cons _

/-- What stands ahead has the lower position. -/
theorem of_lt {i j : Nat} (hi : order[i]? = some u) (hj : order[j]? = some v) (h : i < j) :
    Before order u v := by
  obtain ⟨hlt, rfl⟩ := List.getElem?_eq_some_iff.1 hi
  have hrest : v ∈ order.drop (i + 1) :=
    List.mem_of_getElem? (i := j - (i + 1)) (by
      rw [List.getElem?_drop, Nat.add_sub_cancel' h]
      exact hj)
  have hsub : (order[i] :: order.drop (i + 1)).Sublist order := by
    rw [← List.drop_eq_getElem_cons hlt]
    exact List.drop_sublist i order
  exact ((List.singleton_sublist.2 hrest).cons_cons _).trans hsub

theorem lt {i j : Nat} (h : Before order u v) (hn : order.Nodup) (hi : order[i]? = some u)
    (hj : order[j]? = some v) : i < j := by
  rcases Nat.lt_trichotomy i j with hlt | rfl | hgt
  · exact hlt
  · cases hi.symm.trans hj
    exact absurd h (h.asymm hn)
  · exact absurd (of_lt hj hi hgt) (h.asymm hn)

theorem total (hu : u ∈ order) (hv : v ∈ order) (hne : u ≠ v) :
    Before order u v ∨ Before order v u := by
  obtain ⟨i, hi⟩ := List.mem_iff_getElem?.1 hu
  obtain ⟨j, hj⟩ := List.mem_iff_getElem?.1 hv
  rcases Nat.lt_trichotomy i j with hlt | rfl | hgt
  · exact .inl (of_lt hi hj hlt)
  · exact absurd (Option.some.inj (hi.symm.trans hj)) hne
  · exact .inr (of_lt hj hi hgt)

/-- Where single steps go forward, so do whole paths. -/
theorem of_transGen {r : α → α → Prop} (hn : order.Nodup) (hr : ∀ u v, r u v → Before order u v)
    (h : Relation.TransGen r u v) : Before order u v := by
  induction h with
  | single hstep => exact hr _ _ hstep
  | tail _ hstep ih => exact ih.trans hn (hr _ _ hstep)

theorem filterMap {β : Type} {f : α → Option β} {a b : β} (h : Before order u v)
    (hu : f u = some a) (hv : f v = some b) : Before (order.filterMap f) a b := by
  have hsub := List.Sublist.filterMap f h
  simp only [List.filterMap_cons, List.filterMap_nil, hu, hv] at hsub
  exact hsub

end Before

theorem nodup_toList {α : Type} {cmp : α → α → Ordering} [Std.TransCmp cmp]
    (s : Std.ExtTreeSet α cmp) : s.toList.Nodup := by
  refine Std.ExtTreeSet.distinct_toList.imp ?_
  rintro a b hab rfl
  exact hab Std.ReflCmp.compare_self

namespace DependencyGraph

variable {d : DependencyGraph}

/-- Edges join nodes. -/
def WellFormed (d : DependencyGraph) : Prop :=
  ∀ e ∈ d.edges, e.before < d.size ∧ e.after < d.size

/-- All nodes, each of them once, in the direction of the edges. -/
structure IsOrder (d : DependencyGraph) (order : List Nat) : Prop where
  perm : order.Perm (List.range d.size)
  respects : ∀ e ∈ d.edges, Before order e.before e.after

theorem isOrder_iff {order : List Nat} : d.IsOrder order ↔ order.Perm (List.range d.size) ∧
    ∀ e ∈ d.edges.toList, [e.before, e.after].Sublist order :=
  ⟨fun h => ⟨h.perm, fun e he => h.respects e (Std.ExtTreeSet.mem_toList.1 he)⟩,
    fun h => ⟨h.1, fun e he => h.2 e (Std.ExtTreeSet.mem_toList.2 he)⟩⟩

instance (order : List Nat) : Decidable (d.IsOrder order) := decidable_of_iff _ isOrder_iff.symm

theorem IsOrder.nodup {order : List Nat} (h : d.IsOrder order) : order.Nodup :=
  h.perm.nodup_iff.2 List.nodup_range

theorem mem_successors {u v : Nat} : v ∈ d.successors u ↔ (⟨u, v⟩ : Edge) ∈ d.edges := by
  simp only [successors, List.mem_filterMap, Std.ExtTreeSet.mem_toList]
  constructor
  · rintro ⟨e, he, h⟩
    split at h
    · rename_i hb
      cases h
      rwa [← hb]
    · cases h
  · intro h
    exact ⟨_, h, by simp⟩

theorem mem_predecessors {u v : Nat} : u ∈ d.predecessors v ↔ (⟨u, v⟩ : Edge) ∈ d.edges := by
  simp only [predecessors, List.mem_filterMap, Std.ExtTreeSet.mem_toList]
  constructor
  · rintro ⟨e, he, h⟩
    split at h
    · rename_i ha
      cases h
      rwa [← ha]
    · cases h
  · intro h
    exact ⟨_, h, by simp⟩

/-- An edge is listed once, so a node has each of its successors once. -/
theorem nodup_successors (d : DependencyGraph) (u : Nat) : (d.successors u).Nodup := by
  refine List.Nodup.filterMap ?_ (nodup_toList d.edges)
  rintro ⟨b, a⟩ ⟨b', a'⟩ x hx hx'
  simp only [Option.mem_def, Option.ite_none_right_eq_some, Option.some.injEq] at hx hx'
  simp_all

theorem nodup_predecessors (d : DependencyGraph) (v : Nat) : (d.predecessors v).Nodup := by
  refine List.Nodup.filterMap ?_ (nodup_toList d.edges)
  rintro ⟨b, a⟩ ⟨b', a'⟩ x hx hx'
  simp only [Option.mem_def, Option.ite_none_right_eq_some, Option.some.injEq] at hx hx'
  simp_all

end DependencyGraph

/-! ## Section 2: The invariant of a traversal -/

namespace Traversal

variable {σ : Type} {d : DependencyGraph} {t : Traversal σ} {pending : List Nat}

/-- The nodes that are ready. -/
def readyNodes (t : Traversal σ) : List Nat := t.ready.toList.map Ready.node

/-- The number of predecessors of a node that the traversal still counts. -/
def degree (t : Traversal σ) (v : Nat) : Nat := t.inDegree.getD v 0

/-- What has been taken is in order, and what is ready may be taken next.  The
    successors in `pending` have yet to hear that a predecessor was taken. -/
structure Sound (d : DependencyGraph) (pending : List Nat) (t : Traversal σ) : Prop where
  size : t.inDegree.size = d.size
  /-- Predecessors that have not been taken, and the one in `pending`. -/
  counts : ∀ v < d.size,
    t.degree v = ((d.predecessors v).filter (· ∉ t.taken)).length + pending.count v
  ready_iff : ∀ v, v ∈ t.readyNodes ↔ v < d.size ∧ v ∉ t.taken ∧ t.degree v = 0
  ready_nodup : t.readyNodes.Nodup
  taken_nodup : t.taken.Nodup
  taken_lt : ∀ v ∈ t.taken, v < d.size
  ordered : ∀ e ∈ d.edges, e.after ∈ t.taken → Before t.taken.reverse e.before e.after
  pending_lt : ∀ v ∈ pending, v < d.size ∧ v ∉ t.taken

@[simp] theorem readyNodes_push (t : Traversal σ) (v : Nat) :
    (t.push v).readyNodes = t.readyNodes ++ [v] := by
  simp [readyNodes, push]

@[simp] theorem taken_push (t : Traversal σ) (v : Nat) : (t.push v).taken = t.taken := rfl

@[simp] theorem degree_push (t : Traversal σ) (v w : Nat) : (t.push v).degree w = t.degree w := rfl

@[simp] theorem taken_release (t : Traversal σ) (v : Nat) : (t.release v).taken = t.taken := by
  unfold release
  simp only
  split <;> rfl

theorem degree_release (ht : t.inDegree.size = d.size) {v : Nat} (hv : v < d.size) (w : Nat) :
    (t.release v).degree w = if w = v then t.degree v - 1 else t.degree w := by
  have hset : (t.inDegree.setIfInBounds v (t.degree v - 1)).getD w 0
      = if w = v then t.degree v - 1 else t.degree w := by
    by_cases hw : w = v
    · subst hw
      simp [Array.getD_eq_getD_getElem?, ht, hv]
    · have hw' : ¬ v = w := fun e => hw e.symm
      simp [Array.getD_eq_getD_getElem?, degree, hw, hw']
  unfold release
  simp only
  split <;> exact hset

theorem readyNodes_release (t : Traversal σ) (v : Nat) :
    (t.release v).readyNodes = t.readyNodes ++ (if t.degree v - 1 = 0 then [v] else []) := by
  unfold release
  simp only
  split
  · rename_i h
    have h' : t.degree v - 1 = 0 := h
    rw [if_pos h']
    simp [readyNodes, push]
  · rename_i h
    have h' : ¬ t.degree v - 1 = 0 := h
    rw [if_neg h']
    simp [readyNodes]

theorem size_release (t : Traversal σ) (v : Nat) :
    (t.release v).inDegree.size = t.inDegree.size := by
  unfold release
  simp only
  split <;> simp [push]

/-- **One release.**  A successor hears that its predecessor was taken. -/
theorem Sound.release {v : Nat} (h : Sound d (v :: pending) t) : Sound d pending (t.release v) := by
  obtain ⟨hv, hvt⟩ := h.pending_lt v List.mem_cons_self
  have hdeg := degree_release h.size hv
  -- the node in `pending` is counted, so it is not ready yet
  have hpos : 0 < t.degree v := by
    rw [h.counts v hv, List.count_cons_self]
    omega
  have hnot : v ∉ t.readyNodes := by
    intro hmem
    have hzero := ((h.ready_iff v).1 hmem).2.2
    omega
  refine ⟨?_, ?_, ?_, ?_, ?_, ?_, ?_, ?_⟩
  · rw [size_release]
    exact h.size
  · intro w hw
    have hcount := h.counts w hw
    rw [hdeg, taken_release]
    by_cases hwv : w = v
    · subst hwv
      rw [List.count_cons_self] at hcount
      rw [if_pos rfl]
      omega
    · have hvw : v ≠ w := fun e => hwv e.symm
      rw [List.count_cons_of_ne hvw] at hcount
      rw [if_neg hwv]
      exact hcount
  · -- `v` becomes ready when it was waiting for one node only
    intro w
    rw [readyNodes_release, List.mem_append, h.ready_iff, taken_release, hdeg]
    by_cases hwv : w = v
    · subst hwv
      have hne : t.degree w ≠ 0 := by omega
      by_cases hleft : t.degree w - 1 = 0
      · simp [hleft, hv, hvt]
      · simp [hleft, hne]
    · have hempty : w ∉ (if t.degree v - 1 = 0 then [v] else []) := by
        split <;> simp [hwv]
      simp [hwv, hempty]
  · rw [readyNodes_release]
    split
    · simpa using List.Nodup.concat hnot h.ready_nodup
    · simpa using h.ready_nodup
  · rw [taken_release]
    exact h.taken_nodup
  · rw [taken_release]
    exact h.taken_lt
  · rw [taken_release]
    exact h.ordered
  · intro w hw
    rw [taken_release]
    exact h.pending_lt w (List.mem_cons_of_mem v hw)

theorem Sound.releaseAll (h : Sound d pending t) :
    Sound d [] (pending.foldl Traversal.release t) := by
  induction pending generalizing t with
  | nil => exact h
  | cons v rest ih => exact ih h.release

/-- Users of allocations are counted without regard to the order. -/
theorem Sound.useAllocs (h : Sound d pending t) (allocs : List Nat) :
    Sound d pending (allocs.foldl useAlloc t) := by
  induction allocs generalizing t with
  | nil => exact h
  | cons a rest ih =>
    exact ih ⟨h.size, h.counts, h.ready_iff, h.ready_nodup, h.taken_nodup, h.taken_lt, h.ordered,
      h.pending_lt⟩

theorem Sound.setDice (h : Sound d pending t) (s : σ) : Sound d pending { t with dice := s } :=
  ⟨h.size, h.counts, h.ready_iff, h.ready_nodup, h.taken_nodup, h.taken_lt, h.ordered,
    h.pending_lt⟩

/-- Taking a place out of the ready list leaves the other places. -/
theorem perm_swap_pop {α : Type} (a : Array α) {i : Nat} {x : α} (h : a[i]? = some x) :
    a.toList.Perm (x :: (a.swapIfInBounds i (a.size - 1)).pop.toList) := by
  obtain ⟨hi, rfl⟩ := Array.getElem?_eq_some_iff.1 h
  have hlast : a.size - 1 < a.size := by omega
  have hswap : a.swapIfInBounds i (a.size - 1) = a.swap i (a.size - 1) hi hlast := by
    simp [Array.swapIfInBounds, hi, hlast]
  have hperm : (a.swap i (a.size - 1) hi hlast).toList.Perm a.toList :=
    (Array.swap_perm hi hlast).toList
  have hne : (a.swap i (a.size - 1) hi hlast).toList ≠ [] := by
    intro hnil
    have hlen : (a.swap i (a.size - 1) hi hlast).size = 0 := by
      simpa using congrArg List.length hnil
    rw [Array.size_swap] at hlen
    omega
  have hend : (a.swap i (a.size - 1) hi hlast).toList.getLast hne = a[i] := by
    rw [List.getLast_eq_getElem]
    simp
  rw [hswap, Array.toList_pop]
  refine hperm.symm.trans ?_
  have hsplit := List.dropLast_append_getLast hne
  rw [hend] at hsplit
  rw [← hsplit]
  simp

/-- Taking a node leaves fewer entries of a list untaken, by as many as there
    are of it. -/
theorem length_filter_untaken {taken : List Nat} {v : Nat} (hv : v ∉ taken) (xs : List Nat) :
    (xs.filter (· ∉ taken)).length = (xs.filter (· ∉ v :: taken)).length + xs.count v := by
  induction xs with
  | nil => rfl
  | cons x xs ih =>
    by_cases hx : x = v
    · subst hx
      simp [hv] at ih ⊢
      omega
    · by_cases hxt : x ∈ taken
      · simpa [hx, hxt, List.count_cons] using ih
      · simp [hx, hxt] at ih ⊢
        omega

/-- When a node is taken, its successors have one untaken predecessor less. -/
theorem length_untaken (d : DependencyGraph) {taken : List Nat} {u : Nat} (hu : u ∉ taken)
    (v : Nat) : ((d.predecessors v).filter (· ∉ taken)).length =
      ((d.predecessors v).filter (· ∉ u :: taken)).length + (d.successors u).count v := by
  have hmem : u ∈ d.predecessors v ↔ v ∈ d.successors u := by
    rw [DependencyGraph.mem_predecessors, DependencyGraph.mem_successors]
  rw [length_filter_untaken hu, (d.nodup_predecessors v).count, (d.nodup_successors u).count,
    if_congr hmem rfl rfl]

/-- All predecessors of a ready node have been taken. -/
theorem Sound.predecessors_taken (h : Sound d [] t) {v : Nat} (hv : v ∈ t.readyNodes) :
    ∀ u ∈ d.predecessors v, u ∈ t.taken := by
  intro u hu
  obtain ⟨hlt, -, hzero⟩ := (h.ready_iff v).1 hv
  have hcount := h.counts v hlt
  rw [hzero, List.count_nil] at hcount
  have hnil : (d.predecessors v).filter (· ∉ t.taken) = [] :=
    List.eq_nil_of_length_eq_zero (by omega)
  by_contra hut
  have hmem : u ∈ (d.predecessors v).filter (· ∉ t.taken) :=
    List.mem_filter.2 ⟨hu, by simpa using hut⟩
  rw [hnil] at hmem
  cases hmem

/-- A node whose predecessors have all been taken waits for none. -/
theorem Sound.degree_eq_zero (h : Sound d [] t) {v : Nat} (hv : v < d.size)
    (hall : ∀ u ∈ d.predecessors v, u ∈ t.taken) : t.degree v = 0 := by
  have hnil : (d.predecessors v).filter (· ∉ t.taken) = [] := by
    rw [List.filter_eq_nil_iff]
    intro u hu
    simpa using hall u hu
  rw [h.counts v hv, hnil]
  rfl

/-- Once there are as many nodes taken as there are nodes, they are all nodes. -/
theorem Sound.perm_taken (h : Sound d pending t) (hlen : d.size ≤ t.taken.length) :
    t.taken.Perm (List.range d.size) := by
  have hsub : t.taken.Subperm (List.range d.size) :=
    List.subperm_of_subset h.taken_nodup fun v hv => List.mem_range.2 (h.taken_lt v hv)
  refine hsub.perm_of_length_le ?_
  rwa [List.length_range]

/-- A successor of a ready node has not been taken, nor is it the node itself. -/
theorem Sound.successors_untaken (h : Sound d [] t) {u : Nat} (hu : u ∈ t.readyNodes) :
    ∀ v ∈ d.successors u, v ∉ u :: t.taken := by
  intro v hv hmem
  obtain ⟨-, hnot, -⟩ := (h.ready_iff u).1 hu
  have he := DependencyGraph.mem_successors.1 hv
  rcases List.mem_cons.1 hmem with rfl | hvt
  · exact hnot (h.predecessors_taken hu _ (DependencyGraph.mem_predecessors.2 he))
  · exact hnot (List.mem_reverse.1 (h.ordered _ he hvt).left_mem)

/-- A ready node moves from the ready list to the nodes taken, and its
    successors are yet to hear of it. -/
theorem Sound.move (hd : d.WellFormed) (h : Sound d [] t) {u : Nat} {rest : Array Ready}
    (hperm : t.readyNodes.Perm (u :: rest.toList.map Ready.node)) :
    Sound d (d.successors u) { t with ready := rest, taken := u :: t.taken } := by
  have hu : u ∈ t.readyNodes := hperm.mem_iff.2 List.mem_cons_self
  obtain ⟨hlt, hnot, -⟩ := (h.ready_iff u).1 hu
  obtain ⟨hrest, hnodup⟩ := List.nodup_cons.1 (hperm.nodup_iff.1 h.ready_nodup)
  refine ⟨h.size, ?_, ?_, hnodup, List.nodup_cons.2 ⟨hnot, h.taken_nodup⟩, ?_, ?_, ?_⟩
  · intro v hv
    have hcount := h.counts v hv
    rw [List.count_nil, Nat.add_zero, length_untaken d hnot] at hcount
    exact hcount
  · intro v
    have hready := h.ready_iff v
    rw [hperm.mem_iff, List.mem_cons] at hready
    show v ∈ rest.toList.map Ready.node ↔ v < d.size ∧ v ∉ u :: t.taken ∧ t.degree v = 0
    by_cases hv : v = u
    · subst hv
      simp [hrest]
    · rw [List.mem_cons, not_or]
      simpa [hv] using hready
  · intro v hv
    rcases List.mem_cons.1 hv with rfl | hv
    · exact hlt
    · exact h.taken_lt v hv
  · intro e he ha
    show Before (u :: t.taken).reverse e.before e.after
    rw [List.reverse_cons]
    rcases List.mem_cons.1 ha with ha | ha
    · have hb : e.before ∈ t.taken :=
        h.predecessors_taken hu _ (DependencyGraph.mem_predecessors.2 (by rwa [← ha]))
      have hsub : [e.before].Sublist t.taken.reverse :=
        List.singleton_sublist.2 (List.mem_reverse.2 hb)
      rw [ha]
      exact hsub.append (List.Sublist.refl [u])
    · exact List.Sublist.trans (h.ordered e he ha) (List.sublist_append_left _ _)
  · intro v hv
    exact ⟨(hd _ (DependencyGraph.mem_successors.1 hv)).2, h.successors_untaken hu v hv⟩

/-- **One step.**  Taking a ready node keeps the invariant. -/
theorem Sound.take (hd : d.WellFormed) (h : Sound d [] t) (i : Nat) : Sound d [] (t.take d i) := by
  unfold Traversal.take
  cases hr : t.ready[i]? with
  | none => exact h
  | some r =>
    have hperm := (perm_swap_pop t.ready hr).map Ready.node
    exact ((h.move hd hperm).useAllocs _).releaseAll

/-- **A whole traversal** keeps the invariant, wherever it stops. -/
theorem Sound.run (hd : d.WellFormed) {dice : Dice σ} {tieBreak : TieBreak}
    {descendants? : Option (Array Nat)} {rounds : Nat} {t' : Traversal σ} (h : Sound d [] t)
    (hrun : Traversal.run d dice tieBreak descendants? rounds t = .ok t') : Sound d [] t' := by
  induction rounds generalizing t with
  | zero =>
    cases hrun
    exact h
  | succ rounds ih =>
    unfold Traversal.run at hrun
    split at hrun
    · cases hrun
      exact h
    · split at hrun
      · cases hrun
      · rename_i i s _
        exact ih ((h.setDice s).take hd i) hrun

/-! ## Section 3: The start -/

theorem start_fields (d : DependencyGraph) (s : σ) :
    (start d s).inDegree = (Array.range d.size).map (fun v => (d.predecessors v).length) ∧
    (start d s).taken = [] ∧
    (start d s).readyNodes =
      (List.range d.size).filter fun v => decide ((d.predecessors v).length = 0) := by
  -- nodes are looked at one by one; those without predecessors are pushed
  have hloop : ∀ (p : Nat → Bool) (vs : List Nat) (t : Traversal σ),
      let t' := vs.foldl (fun t v => if p v then t.push v else t) t
      t'.inDegree = t.inDegree ∧ t'.taken = t.taken ∧
        t'.readyNodes = t.readyNodes ++ vs.filter p := by
    intro p vs
    induction vs with
    | nil =>
      intro t
      simp
    | cons v rest ih =>
      intro t
      by_cases hv : p v
      · obtain ⟨hin, htaken, hready⟩ := ih (t.push v)
        simp only [List.foldl_cons, hv, if_true, List.filter_cons_of_pos]
        refine ⟨hin, htaken, ?_⟩
        rw [hready, readyNodes_push, List.append_assoc]
        rfl
      · obtain ⟨hin, htaken, hready⟩ := ih t
        simp only [List.foldl_cons, hv, List.filter_cons_of_neg, Bool.false_eq_true, if_false,
          not_false_eq_true]
        exact ⟨hin, htaken, hready⟩
  have hdeg : ∀ v < d.size,
      ((Array.range d.size).map fun v => (d.predecessors v).length).getD v 0
        = (d.predecessors v).length := by
    intro v hv
    simp [Array.getD_eq_getD_getElem?, hv]
  obtain ⟨hin, htaken, hready⟩ := hloop
    (fun v => decide (((Array.range d.size).map fun v => (d.predecessors v).length).getD v 0 = 0))
    (List.range d.size)
    { inDegree := (Array.range d.size).map fun v => (d.predecessors v).length
      remaining := (Array.range d.allocCount).map fun a => (d.users a).length
      started := Array.replicate d.allocCount false
      ready := #[]
      turn := 0
      taken := []
      dice := s }
  simp only [decide_eq_true_eq] at hin htaken hready
  refine ⟨hin, htaken, ?_⟩
  refine hready.trans ?_
  rw [show readyNodes _ = [] from rfl, List.nil_append]
  refine List.filter_congr fun v hv => ?_
  rw [hdeg v (List.mem_range.1 hv)]

theorem sound_start (d : DependencyGraph) (s : σ) : Sound d [] (start d s) := by
  obtain ⟨hin, htaken, hready⟩ := start_fields d s
  have hdeg : ∀ v < d.size, (start d s).degree v = (d.predecessors v).length := by
    intro v hv
    simp [degree, hin, Array.getD_eq_getD_getElem?, hv]
  refine ⟨?_, ?_, ?_, ?_, ?_, ?_, ?_, ?_⟩
  · simp [hin]
  · intro v hv
    simp [hdeg v hv, htaken]
  · intro v
    rw [hready, htaken, List.mem_filter, List.mem_range]
    by_cases hv : v < d.size
    · simp [hv, hdeg v hv]
    · simp [hv]
  · rw [hready]
    exact List.nodup_range.filter _
  · simp [htaken]
  · simp [htaken]
  · simp [htaken]
  · intro v hv
    cases hv

end Traversal

/-! ## Section 4: Whole orders -/

namespace DependencyGraph

variable {d : DependencyGraph} {σ : Type} {dice : Dice σ} {s : σ} {tieBreak : TieBreak}

/-- A traversal that is not stuck yields an order. -/
theorem traverse_isOrder (hd : d.WellFormed) {descendants? : Option (Array Nat)}
    {order : List Nat} (h : d.traverse dice tieBreak descendants? s = .ok order) :
    d.IsOrder order := by
  obtain ⟨t, hrun, h⟩ := except_bind_eq_ok.1 h
  have ht := (Traversal.sound_start d s).run hd hrun
  split at h
  · cases h
  · rename_i hlen
    cases h
    have hperm := ht.perm_taken (Nat.le_of_not_lt hlen)
    refine ⟨t.taken.reverse_perm.trans hperm, fun e he => ht.ordered e he ?_⟩
    rw [hperm.mem_iff, List.mem_range]
    exact (hd e he).2

/-- **Orders by readiness are orders**, whatever the dice and the tie-break. -/
theorem listOrderWith_isOrder (hd : d.WellFormed) {useClosure : Bool} {order : List Nat}
    (h : d.listOrderWith dice s tieBreak useClosure = .ok order) : d.IsOrder order := by
  unfold listOrderWith at h
  split at h
  · obtain ⟨first, -, h⟩ := except_bind_eq_ok.1 h
    exact traverse_isOrder hd h
  · exact traverse_isOrder hd h

end DependencyGraph

/-! ## Section 5: Without a cycle nothing is stuck -/

/-- No chain of steps leads back to where it started. -/
def Acyclic {α : Type} (r : α → α → Prop) : Prop := ∀ x, ¬ Relation.TransGen r x x

/-- Among finitely many things in an acyclic relation there is a first one. -/
theorem Acyclic.exists_first {α : Type} {r : α → α → Prop} (h : Acyclic r) {xs : List α}
    (hxs : xs ≠ []) : ∃ x ∈ xs, ∀ y ∈ xs, ¬ Relation.TransGen r y x := by
  induction xs with
  | nil => exact absurd rfl hxs
  | cons a rest ih =>
    by_cases hrest : rest = []
    · subst hrest
      exact ⟨a, List.mem_cons_self, by simpa using h a⟩
    · obtain ⟨m, hm, hfirst⟩ := ih hrest
      by_cases ham : Relation.TransGen r a m
      · refine ⟨a, List.mem_cons_self, fun y hy => ?_⟩
        rcases List.mem_cons.1 hy with rfl | hy
        · exact h y
        · exact fun hya => hfirst y hy (hya.trans ham)
      · refine ⟨m, List.mem_cons_of_mem a hm, fun y hy => ?_⟩
        rcases List.mem_cons.1 hy with rfl | hy
        · exact ham
        · exact hfirst y hy

/-- One node has an edge to another. -/
def DependencyGraph.Precedes (d : DependencyGraph) (u v : Nat) : Prop :=
  (⟨u, v⟩ : Edge) ∈ d.edges

namespace Traversal

variable {σ : Type} {d : DependencyGraph} {t : Traversal σ}

/-- When nothing is ready, everything has been taken. -/
theorem Sound.all_taken (hd : d.WellFormed) (hac : Acyclic d.Precedes) (h : Sound d [] t)
    (hempty : t.readyNodes = []) : ∀ v < d.size, v ∈ t.taken := by
  by_contra hleft
  have hne : (List.range d.size).filter (· ∉ t.taken) ≠ [] := by
    intro hnil
    refine hleft fun v hv => ?_
    by_contra hvt
    have hmem : v ∈ (List.range d.size).filter (· ∉ t.taken) :=
      List.mem_filter.2 ⟨List.mem_range.2 hv, by simpa using hvt⟩
    rw [hnil] at hmem
    cases hmem
  obtain ⟨v, hv, hfirst⟩ := hac.exists_first hne
  obtain ⟨hlt, hvt⟩ := List.mem_filter.1 hv
  -- the first untaken node has no untaken predecessor, so it would be ready
  have hzero : t.degree v = 0 := by
    refine h.degree_eq_zero (List.mem_range.1 hlt) fun u hu => ?_
    have he := DependencyGraph.mem_predecessors.1 hu
    by_contra hut
    exact hfirst u (List.mem_filter.2 ⟨List.mem_range.2 (hd _ he).1, by simpa using hut⟩)
      (.single he)
  have hready : v ∈ t.readyNodes :=
    (h.ready_iff v).2 ⟨List.mem_range.1 hlt, by simpa using hvt, hzero⟩
  rw [hempty] at hready
  cases hready

theorem mem_candidates {i : Nat} (h : i ∈ t.candidates d) : i < t.ready.size := by
  unfold candidates at h
  simp only at h
  split at h
  · obtain ⟨⟨rank, j⟩, hmem, hj⟩ := List.mem_filterMap.1 h
    have hij : j = i := by
      simp only [Option.ite_none_right_eq_some, Option.some.injEq] at hj
      exact hj.2
    subst hij
    have hlt := List.snd_lt_of_mem_zipIdx hmem
    simpa using hlt
  · cases h

/-- Of several ready nodes, those of the highest priority are candidates. -/
theorem candidates_ne_nil (h : t.ready.isEmpty = false) : t.candidates d ≠ [] := by
  intro hnil
  unfold candidates at hnil
  simp only at hnil
  split at hnil
  · rename_i top htop
    obtain ⟨i, hi, heq⟩ := List.getElem_of_mem (List.max?_mem htop)
    have hmem := List.filterMap_eq_nil_iff.1 hnil (top, i) (by
      rw [List.mem_zipIdx_iff_getElem?, List.getElem?_eq_getElem hi, heq])
    simp at hmem
  · rename_i hmax
    rw [List.max?_eq_none_iff, List.map_eq_nil_iff, Array.toList_eq_nil_iff] at hmax
    simp [hmax] at h

theorem mostEager_mem (eagerness : Nat → Eagerness) {places : List Nat} (h : places ≠ []) :
    ∃ i ∈ places, mostEager eagerness places = some i := by
  cases places with
  | nil => exact absurd rfl h
  | cons i rest =>
    -- the best place so far is always one of those looked at
    have hfold : ∀ (xs : List Nat) (best : Nat), xs.foldl (fun best j =>
        if (eagerness j).before (eagerness best) then j else best) best ∈ best :: xs := by
      intro xs
      induction xs with
      | nil => simp
      | cons x xs ih =>
        intro best
        rw [List.foldl_cons]
        have hmem := ih (if (eagerness x).before (eagerness best) then x else best)
        rcases List.mem_cons.1 hmem with heq | hmem
        · rw [heq]
          split <;> simp
        · exact List.mem_cons_of_mem _ (List.mem_cons_of_mem _ hmem)
    exact ⟨_, hfold rest i, rfl⟩

/-- As long as a node is ready, one is picked. -/
theorem pick_eq_some (h : t.ready.isEmpty = false) (dice : Dice σ) (tieBreak : TieBreak)
    (descendants? : Option (Array Nat)) :
    ∃ i s, t.pick d dice tieBreak descendants? = (some i, s) ∧ i < t.ready.size := by
  have hne := candidates_ne_nil (d := d) h
  have heager : ∀ eagerness, ∃ i s, (mostEager eagerness (t.candidates d), t.dice) = (some i, s) ∧
      i < t.ready.size := by
    intro eagerness
    obtain ⟨i, hi, heq⟩ := mostEager_mem eagerness hne
    exact ⟨i, t.dice, by rw [heq], mem_candidates hi⟩
  cases tieBreak with
  | fifo => exact heager _
  | greedy => exact heager _
  | random =>
    have hlt := dice.below_lt (t.candidates d).length t.dice (List.length_pos_iff.2 hne)
    have hget := List.getElem?_eq_getElem hlt
    exact ⟨_, _, Prod.ext hget rfl, mem_candidates (List.getElem_mem hlt)⟩

theorem taken_releaseAll (nodes : List Nat) (t : Traversal σ) :
    (nodes.foldl release t).taken = t.taken := by
  induction nodes generalizing t with
  | nil => rfl
  | cons v rest ih => exact (ih _).trans (taken_release t v)

theorem taken_useAllocs (allocs : List Nat) (t : Traversal σ) :
    (allocs.foldl useAlloc t).taken = t.taken := by
  induction allocs generalizing t with
  | nil => rfl
  | cons a rest ih => exact ih _

theorem length_taken_take {i : Nat} (hi : i < t.ready.size) :
    (t.take d i).taken.length = t.taken.length + 1 := by
  unfold take
  rw [Array.getElem?_eq_getElem hi]
  simp only
  rw [taken_releaseAll, taken_useAllocs]
  rfl

/-- With a round left for each node, a traversal takes them all. -/
theorem Sound.run_eq_ok (hd : d.WellFormed) (hac : Acyclic d.Precedes) {dice : Dice σ}
    {tieBreak : TieBreak} {descendants? : Option (Array Nat)} (rounds : Nat) (h : Sound d [] t)
    (hrounds : d.size ≤ t.taken.length + rounds) :
    ∃ t', Traversal.run d dice tieBreak descendants? rounds t = .ok t' ∧
      d.size ≤ t'.taken.length := by
  induction rounds generalizing t with
  | zero => exact ⟨t, rfl, hrounds⟩
  | succ rounds ih =>
    unfold Traversal.run
    cases hempty : t.ready.isEmpty with
    | true =>
      have hnil : t.readyNodes = [] := by
        simp [readyNodes, Array.isEmpty_iff.1 hempty]
      refine ⟨t, rfl, ?_⟩
      have hsub : (List.range d.size).Subperm t.taken :=
        List.subperm_of_subset List.nodup_range fun v hv =>
          h.all_taken hd hac hnil v (List.mem_range.1 hv)
      simpa using hsub.length_le
    | false =>
      obtain ⟨i, s, hpick, hi⟩ := pick_eq_some (d := d) hempty dice tieBreak descendants?
      simp only [Bool.false_eq_true, if_false, hpick]
      have hlen : (Traversal.take d { t with dice := s } i).taken.length = t.taken.length + 1 :=
        length_taken_take hi
      refine ih ((h.setDice s).take hd i) ?_
      omega

end Traversal

namespace DependencyGraph

variable {d : DependencyGraph} {σ : Type} (dice : Dice σ) (s : σ) (tieBreak : TieBreak)

theorem traverse_eq_ok (hd : d.WellFormed) (hac : Acyclic d.Precedes)
    (descendants? : Option (Array Nat)) :
    ∃ order, d.traverse dice tieBreak descendants? s = .ok order := by
  have htaken : (Traversal.start d s).taken = [] := (Traversal.start_fields d s).2.1
  have hrun : ∃ t, Traversal.run d dice tieBreak descendants? d.size (Traversal.start d s) = .ok t ∧
      d.size ≤ t.taken.length :=
    (Traversal.sound_start d s).run_eq_ok hd hac d.size (by simp [htaken])
  obtain ⟨t, hrun, hlen⟩ := hrun
  refine ⟨t.taken.reverse, ?_⟩
  unfold traverse
  have hnot : ¬ t.taken.length < d.size := by omega
  rw [hrun]
  show (if t.taken.length < d.size then _ else _) = _
  rw [if_neg hnot]
  rfl

/-- **An acyclic dependency graph has an order by readiness.** -/
theorem listOrderWith_eq_ok (hd : d.WellFormed) (hac : Acyclic d.Precedes) (useClosure : Bool) :
    ∃ order, d.listOrderWith dice s tieBreak useClosure = .ok order := by
  unfold listOrderWith
  split
  · obtain ⟨first, hfirst⟩ := traverse_eq_ok dice s .fifo hd hac none
    obtain ⟨order, horder⟩ := traverse_eq_ok dice s tieBreak hd hac
      (some (d.descendantCounts first))
    refine ⟨order, ?_⟩
    rw [hfirst]
    exact horder
  · exact traverse_eq_ok dice s tieBreak hd hac none

end DependencyGraph

end Dataflow
