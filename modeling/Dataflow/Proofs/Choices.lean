import Mathlib.Algebra.BigOperators.Ring.Finset
import Dataflow.Proofs.Allocations

/-! # Choices among ready nodes

    An order by readiness is made by choices, and every one of them was the
    best at its time: no ready node had a higher priority, and among those of
    the same priority the tie-break decided.  In the order itself, `order.take i`
    is what had been taken when the node at position `i` was chosen.

    The traversal does not look at what has been taken.  It keeps counts of
    the users of each allocation, from which it works out the bytes that a
    node adds (`Traversal.Tallies`), and it numbers the nodes in the order in
    which they become ready (`Traversal.Queued`).  Both are tied to the nodes
    taken so far, and the history of choices (`Traversal.Careful`) is built on
    them, step by step.

    Bytes are compared as signed words.  Where an increase does not fit in one,
    the choice may be a bad one. -/

namespace Dataflow

/-! ## Section 1: What a choice is measured by -/

namespace DependencyGraph

variable {d : DependencyGraph} {taken taken' : List Nat}

/-- All predecessors of a node have been taken. -/
def IsReady (d : DependencyGraph) (taken : List Nat) (v : Nat) : Prop :=
  ∀ u ∈ d.predecessors v, u ∈ taken

instance (d : DependencyGraph) (taken : List Nat) (v : Nat) : Decidable (d.IsReady taken v) :=
  inferInstanceAs (Decidable (∀ u ∈ _, _))

/-- A node that may be taken next. -/
structure IsFree (d : DependencyGraph) (taken : List Nat) (v : Nat) : Prop where
  lt : v < d.size
  untaken : v ∉ taken
  ready : d.IsReady taken v

/-- The place of the priority of a node among all priorities. -/
def rank (d : DependencyGraph) (v : Nat) : Int := (d.priority v).rank

/-- A user of the allocation has been taken, and a user is still to be taken. -/
def IsOpen (d : DependencyGraph) (taken : List Nat) (a : Nat) : Prop :=
  (∃ u ∈ d.users a, u ∈ taken) ∧ ∃ u ∈ d.users a, u ∉ taken

instance (d : DependencyGraph) (taken : List Nat) (a : Nat) : Decidable (d.IsOpen taken a) :=
  inferInstanceAs (Decidable (_ ∧ _))

/-- The bytes that are live when these nodes have been taken. -/
def liveBytes (d : DependencyGraph) (taken : List Nat) : Nat :=
  ∑ a ∈ Finset.range d.allocCount with d.IsOpen taken a, d.allocSize a

/-- What taking `v` next adds to the live bytes. -/
def rise (d : DependencyGraph) (taken : List Nat) (v : Nat) : Int :=
  (d.liveBytes (v :: taken) : Int) - d.liveBytes taken

theorem isReady_congr (h : ∀ u, u ∈ taken ↔ u ∈ taken') (v : Nat) :
    d.IsReady taken v ↔ d.IsReady taken' v :=
  forall₂_congr fun u _ => h u

/-- A node that does not use an allocation neither opens nor closes it. -/
theorem isOpen_cons_of_not_mem {v a : Nat} (h : v ∉ d.users a) :
    d.IsOpen (v :: taken) a ↔ d.IsOpen taken a := by
  have hmem : ∀ u ∈ d.users a, u ∈ v :: taken ↔ u ∈ taken := by
    intro u hu
    have hne : u ≠ v := fun heq => h (heq ▸ hu)
    simp [hne]
  refine and_congr (exists_congr fun u => ?_) (exists_congr fun u => ?_)
  · exact and_congr_right fun hu => hmem u hu
  · exact and_congr_right fun hu => not_congr (hmem u hu)

theorem cast_liveBytes (d : DependencyGraph) (taken : List Nat) :
    (d.liveBytes taken : Int) = ∑ a ∈ Finset.range d.allocCount,
      if d.IsOpen taken a then (d.allocSize a : Int) else 0 := by
  rw [liveBytes, Finset.sum_filter, Nat.cast_sum]
  exact Finset.sum_congr rfl fun a _ => Nat.cast_ite _ _ _

theorem liveBytes_congr (h : ∀ u, u ∈ taken ↔ u ∈ taken') :
    d.liveBytes taken = d.liveBytes taken' := by
  refine Finset.sum_congr (Finset.filter_congr fun a _ => ?_) fun _ _ => rfl
  simp only [IsOpen, h]

theorem rise_congr (h : ∀ u, u ∈ taken ↔ u ∈ taken') (v : Nat) :
    d.rise taken v = d.rise taken' v := by
  have hcons : ∀ u, u ∈ v :: taken ↔ u ∈ v :: taken' := by
    intro u
    simp only [List.mem_cons, h]
  unfold rise
  rw [liveBytes_congr h, liveBytes_congr hcons]

/-- Why `v` was taken next: every other free node is of a lower priority, or it
    is of the same priority and the tie-break does not put it first. -/
structure Chosen (d : DependencyGraph) (tieBreak : TieBreak) (taken : List Nat) (v : Nat) :
    Prop where
  priority : ∀ w, d.IsFree taken w → d.rank w ≤ d.rank v
  greedy : tieBreak = .greedy → ∀ w, d.IsFree taken w → d.rank w = d.rank v →
    toSigned (d.rise taken v) ≤ toSigned (d.rise taken w)
  /-- Whenever the other node was ready, so was this one. -/
  fifo : tieBreak = .fifo → ∀ w, d.IsFree taken w → d.rank w = d.rank v →
    ∀ earlier, earlier <:+ taken → d.IsReady earlier w → d.IsReady earlier v

end DependencyGraph

/-- What is no more eager than the best so far is no more eager than a better
    one. -/
theorem Eagerness.not_before_trans {a b c : Eagerness} (hab : a.before b = false)
    (hcb : c.before b = true) : a.before c = false := by
  simp only [before, Bool.or_eq_true, Bool.and_eq_true, decide_eq_true_eq,
    Bool.or_eq_false_iff, Bool.and_eq_false_iff, decide_eq_false_iff_not] at *
  omega

theorem Eagerness.growth_le {a b : Eagerness} (h : b.before a = false) : a.growth ≤ b.growth := by
  simp only [before, Bool.or_eq_false_iff, decide_eq_false_iff_not] at h
  omega

namespace Traversal

variable {σ : Type} {d : DependencyGraph} {t : Traversal σ}

/-! ## Section 2: Counting the users of allocations -/

/-- The counts of users agree with the nodes taken. -/
structure Tallies (d : DependencyGraph) (t : Traversal σ) : Prop where
  size : t.started.size = d.allocCount
  started : ∀ a < d.allocCount,
    t.started.getD a false = true ↔ ∃ u ∈ d.users a, u ∈ t.taken
  remaining : ∀ a < d.allocCount,
    t.remaining.getD a 0 = ((d.users a).filter (· ∉ t.taken)).length

/-- A node counts once among the users of its allocations, and not at all among
    those of the others. -/
theorem count_users (hnodup : ∀ v, (d.allocs v).Nodup) {v : Nat} (hv : v < d.size) (a : Nat) :
    (d.users a).count v = (d.allocs v).count a := by
  have husers : (d.users a).Nodup := List.nodup_range.filter _
  rw [husers.count, (hnodup v).count]
  refine if_congr ?_ rfl rfl
  rw [DependencyGraph.mem_users]
  exact and_iff_right hv

/-- What one allocation adds when a node is taken, as the counts have it. -/
def increaseOf (d : DependencyGraph) (t : Traversal σ) (a : Nat) : Int :=
  (if t.started.getD a false then 0 else (d.allocSize a : Int)) -
    (if t.remaining.getD a 0 = 1 then (d.allocSize a : Int) else 0)

/-- An allocation of the node is opened unless it was open, and closed if no
    other user is left. -/
theorem Tallies.increaseOf_eq (h : Tallies d t) (hnodup : ∀ v, (d.allocs v).Nodup) {v a : Nat}
    (hv : v < d.size) (hvt : v ∉ t.taken) (ha : a < d.allocCount) (hmem : a ∈ d.allocs v) :
    t.increaseOf d a = (if d.IsOpen (v :: t.taken) a then (d.allocSize a : Int) else 0) -
      (if d.IsOpen t.taken a then (d.allocSize a : Int) else 0) := by
  have huser : v ∈ d.users a := DependencyGraph.mem_users.2 ⟨hv, hmem⟩
  -- the node itself has not been taken: what was started is open
  have hbefore : d.IsOpen t.taken a ↔ t.started.getD a false = true := by
    rw [h.started a ha]
    exact and_iff_left ⟨v, huser, hvt⟩
  -- and it will have been taken: what has a user left is open
  have hcount := length_filter_untaken hvt (d.users a)
  rw [← h.remaining a ha, count_users hnodup hv, List.count_eq_one_of_mem (hnodup v) hmem] at hcount
  have hafter : d.IsOpen (v :: t.taken) a ↔ t.remaining.getD a 0 ≠ 1 := by
    have hleft : (∃ u ∈ d.users a, u ∉ v :: t.taken) ↔
        ((d.users a).filter (· ∉ v :: t.taken)).length ≠ 0 := by
      rw [← Nat.pos_iff_ne_zero, List.length_pos_iff_exists_mem]
      simp
    have hstarted : ∃ u ∈ d.users a, u ∈ v :: t.taken := ⟨v, huser, List.mem_cons_self⟩
    rw [DependencyGraph.IsOpen, and_iff_right hstarted, hleft]
    omega
  rw [increaseOf, if_congr hafter rfl rfl, if_congr hbefore rfl rfl]
  generalize t.started.getD a false = started
  generalize t.remaining.getD a 0 = remaining
  by_cases hone : remaining = 1 <;> cases started <;> simp [hone]

/-- The bytes that a node adds are worked out from the counts. -/
theorem Tallies.increase_eq (h : Tallies d t) (hnodup : ∀ v, (d.allocs v).Nodup) {v : Nat}
    (hv : v < d.size) (hvt : v ∉ t.taken) : t.increase d v = d.rise t.taken v := by
  calc t.increase d v
      = ∑ a ∈ (d.allocs v).toFinset, t.increaseOf d a := by
        rw [List.sum_toFinset _ (hnodup v)]
        rfl
    _ = ∑ a ∈ Finset.range d.allocCount with a ∈ d.allocs v, t.increaseOf d a := by
        refine (Finset.sum_subset (fun a ha => ?_) fun a ha hnot => ?_).symm
        · simpa using (Finset.mem_filter.1 ha).2
        · -- an allocation that is not there has no bytes
          have hbeyond : d.allocSizes.size ≤ a := by
            by_contra hlt
            exact hnot (Finset.mem_filter.2
              ⟨Finset.mem_range.2 (Nat.lt_of_not_le hlt), by simpa using ha⟩)
          have hzero : d.allocSize a = 0 := by
            simp [DependencyGraph.allocSize, Array.getD_eq_getD_getElem?, hbeyond]
          simp [increaseOf, hzero]
    _ = ∑ a ∈ Finset.range d.allocCount,
          ((if d.IsOpen (v :: t.taken) a then (d.allocSize a : Int) else 0) -
            (if d.IsOpen t.taken a then (d.allocSize a : Int) else 0)) := by
        rw [Finset.sum_filter]
        refine Finset.sum_congr rfl fun a ha => ?_
        split
        · rename_i hmem
          exact h.increaseOf_eq hnodup hv hvt (Finset.mem_range.1 ha) hmem
        · rename_i hmem
          have hsame : d.IsOpen (v :: t.taken) a ↔ d.IsOpen t.taken a :=
            DependencyGraph.isOpen_cons_of_not_mem fun hu =>
              hmem (DependencyGraph.mem_users.1 hu).2
          rw [if_congr hsame rfl rfl, sub_self]
    _ = d.rise t.taken v := by
        rw [Finset.sum_sub_distrib, ← DependencyGraph.cast_liveBytes,
          ← DependencyGraph.cast_liveBytes]
        rfl

/-- **Taking a node** takes it off the counts of its allocations. -/
theorem started_useAllocs {a : Nat} (allocs : List Nat) (t : Traversal σ)
    (ha : a < t.started.size) :
    (allocs.foldl useAlloc t).started.getD a false = true ↔
      t.started.getD a false = true ∨ a ∈ allocs := by
  induction allocs generalizing t with
  | nil => simp
  | cons b rest ih =>
    rw [List.foldl_cons, ih (t.useAlloc b) (by simpa [useAlloc] using ha)]
    by_cases hb : b = a
    · subst hb
      simp [useAlloc, Array.getD_eq_getD_getElem?, ha]
    · have hb' : ¬ a = b := fun heq => hb heq.symm
      simp [useAlloc, Array.getD_eq_getD_getElem?, hb, hb']

theorem remaining_useAllocs {a : Nat} (allocs : List Nat) (t : Traversal σ) :
    (allocs.foldl useAlloc t).remaining.getD a 0 = t.remaining.getD a 0 - allocs.count a := by
  induction allocs generalizing t with
  | nil => simp
  | cons b rest ih =>
    rw [List.foldl_cons, ih]
    by_cases hb : b = a
    · subst hb
      cases hget : t.remaining[b]? with
      | none => simp [useAlloc, Array.getD_eq_getD_getElem?, Array.getElem?_modify, hget]
      | some n =>
        simp [useAlloc, Array.getD_eq_getD_getElem?, Array.getElem?_modify, hget]
        omega
    · simp [useAlloc, Array.getD_eq_getD_getElem?, Array.getElem?_modify, hb]

/-- A node is moved from the ready list to the nodes taken; then its
    allocations and its successors hear of it. -/
theorem take_eq {i : Nat} {r : Ready} (hr : t.ready[i]? = some r) :
    t.take d i = (d.successors r.node).foldl release ((d.allocs r.node).foldl useAlloc
      { t with
        ready := (t.ready.swapIfInBounds i (t.ready.size - 1)).pop
        taken := r.node :: t.taken }) := by
  unfold take
  rw [hr]

theorem taken_take {i : Nat} {r : Ready} (hr : t.ready[i]? = some r) :
    (t.take d i).taken = r.node :: t.taken := by
  rw [take_eq hr, taken_releaseAll, taken_useAllocs]

theorem tables_releaseAll (nodes : List Nat) (t : Traversal σ) :
    (nodes.foldl release t).started = t.started ∧
    (nodes.foldl release t).remaining = t.remaining := by
  induction nodes generalizing t with
  | nil => exact ⟨rfl, rfl⟩
  | cons v rest ih =>
    have hrelease : (t.release v).started = t.started ∧ (t.release v).remaining = t.remaining := by
      unfold release
      simp only
      split <;> exact ⟨rfl, rfl⟩
    obtain ⟨hstarted, hremaining⟩ := ih (t.release v)
    exact ⟨hstarted.trans hrelease.1, hremaining.trans hrelease.2⟩

theorem size_started_useAllocs (allocs : List Nat) (t : Traversal σ) :
    (allocs.foldl useAlloc t).started.size = t.started.size := by
  induction allocs generalizing t with
  | nil => rfl
  | cons a rest ih => exact (ih _).trans (by simp [useAlloc])

/-- **One step** keeps the counts. -/
theorem Tallies.take (h : Tallies d t) (hnodup : ∀ v, (d.allocs v).Nodup) {i : Nat} {r : Ready}
    (hr : t.ready[i]? = some r) (hlt : r.node < d.size) (hnot : r.node ∉ t.taken) :
    Tallies d (t.take d i) := by
  refine ⟨?_, ?_, ?_⟩
  · rw [take_eq hr, (tables_releaseAll _ _).1, size_started_useAllocs]
    exact h.size
  · intro a ha
    have ha' : a < t.started.size := h.size ▸ ha
    have huser : a ∈ d.allocs r.node ↔ r.node ∈ d.users a := by
      rw [DependencyGraph.mem_users]
      exact (and_iff_right hlt).symm
    rw [taken_take hr, take_eq hr, (tables_releaseAll _ _).1]
    refine Iff.trans (started_useAllocs (d.allocs r.node) _ ?_) ?_
    · exact ha'
    show t.started.getD a false = true ∨ a ∈ d.allocs r.node ↔ _
    rw [h.started a ha, huser]
    constructor
    · rintro (⟨u, hu, hut⟩ | hr)
      · exact ⟨u, hu, List.mem_cons_of_mem _ hut⟩
      · exact ⟨_, hr, List.mem_cons_self⟩
    · rintro ⟨u, hu, hut⟩
      rcases List.mem_cons.1 hut with rfl | hut
      · exact .inr hu
      · exact .inl ⟨u, hu, hut⟩
  · intro a ha
    have hcount := length_filter_untaken hnot (d.users a)
    rw [← h.remaining a ha, count_users hnodup hlt] at hcount
    rw [taken_take hr, take_eq hr, (tables_releaseAll _ _).2, remaining_useAllocs]
    show t.remaining.getD a 0 - _ = _
    omega

/-! ## Section 3: Turns -/

/-- The nodes became ready in the order of their turns. -/
structure Queued (d : DependencyGraph) (t : Traversal σ) : Prop where
  turn_lt : ∀ r ∈ t.ready, r.turn < t.turn
  /-- Whenever the one of the later turn was ready, so was the other. -/
  in_turn : ∀ r ∈ t.ready, ∀ r' ∈ t.ready, r.turn ≤ r'.turn → ∀ earlier, earlier <:+ t.taken →
    d.IsReady earlier r'.node → d.IsReady earlier r.node

theorem mem_release {v : Nat} {r : Ready} (h : r ∈ (t.release v).ready) :
    r ∈ t.ready ∨ r.node = v ∧ t.turn ≤ r.turn ∧ r.turn < (t.release v).turn := by
  unfold release at h ⊢
  simp only at h ⊢
  split at h
  · rename_i hzero
    rcases Array.mem_push.1 h with h | rfl
    · exact .inl h
    · rw [if_pos hzero]
      exact .inr ⟨rfl, Nat.le_refl _, Nat.lt_succ_self _⟩
  · exact .inl h

theorem turn_le_release (t : Traversal σ) (v : Nat) : t.turn ≤ (t.release v).turn := by
  unfold release
  simp only
  split
  · exact Nat.le_succ _
  · exact Nat.le_refl _

theorem turn_le_releaseAll (nodes : List Nat) (t : Traversal σ) :
    t.turn ≤ (nodes.foldl release t).turn := by
  induction nodes generalizing t with
  | nil => exact Nat.le_refl _
  | cons v rest ih => exact (turn_le_release t v).trans (ih _)

/-- What becomes ready when nodes are released has a new turn. -/
theorem mem_releaseAll {nodes : List Nat} {r : Ready} (h : r ∈ (nodes.foldl release t).ready) :
    r ∈ t.ready ∨
      r.node ∈ nodes ∧ t.turn ≤ r.turn ∧ r.turn < (nodes.foldl release t).turn := by
  induction nodes generalizing t with
  | nil => exact .inl h
  | cons v rest ih =>
    rcases ih h with hmem | ⟨hnode, hle, hlt⟩
    · rcases mem_release hmem with hold | ⟨hnode, hle, hlt⟩
      · exact .inl hold
      · exact .inr ⟨hnode ▸ List.mem_cons_self, hle, hlt.trans_le (turn_le_releaseAll rest _)⟩
    · exact .inr ⟨List.mem_cons_of_mem v hnode, (turn_le_release t v).trans hle, hlt⟩

theorem queue_useAllocs (allocs : List Nat) (t : Traversal σ) :
    (allocs.foldl useAlloc t).ready = t.ready ∧ (allocs.foldl useAlloc t).turn = t.turn := by
  induction allocs generalizing t with
  | nil => exact ⟨rfl, rfl⟩
  | cons a rest ih => exact ih _

/-- What is ready after a step was ready before, or it is a successor of the
    node taken and comes after all others. -/
theorem mem_ready_take {i : Nat} {r r' : Ready} (hr : t.ready[i]? = some r)
    (h : r' ∈ (t.take d i).ready) :
    r' ∈ t.ready ∨ r'.node ∈ d.successors r.node ∧ t.turn ≤ r'.turn ∧
      r'.turn < (t.take d i).turn := by
  rw [take_eq hr] at h ⊢
  rcases mem_releaseAll h with hold | ⟨hnode, hle, hlt⟩
  · rw [(queue_useAllocs _ _).1] at hold
    have hperm := perm_swap_pop t.ready hr
    exact .inl (Array.mem_toList_iff.1
      (hperm.mem_iff.2 (List.mem_cons_of_mem r (Array.mem_toList_iff.2 hold))))
  · rw [(queue_useAllocs _ _).2] at hle
    exact .inr ⟨hnode, hle, hlt⟩

theorem turn_le_take {i : Nat} {r : Ready} (hr : t.ready[i]? = some r) :
    t.turn ≤ (t.take d i).turn := by
  rw [take_eq hr]
  refine Nat.le_trans ?_ (turn_le_releaseAll _ _)
  rw [(queue_useAllocs _ _).2]

/-- The free nodes are those that are ready. -/
theorem Sound.mem_readyNodes (h : Sound d [] t) {v : Nat} :
    v ∈ t.readyNodes ↔ d.IsFree t.taken v := by
  constructor
  · intro hv
    obtain ⟨hlt, hnot, -⟩ := (h.ready_iff v).1 hv
    exact ⟨hlt, hnot, h.predecessors_taken hv⟩
  · intro hv
    exact (h.ready_iff v).2 ⟨hv.lt, hv.untaken, h.degree_eq_zero hv.lt hv.ready⟩

theorem Sound.isFree_of_mem (h : Sound d [] t) {r : Ready} (hr : r ∈ t.ready) :
    d.IsFree t.taken r.node :=
  h.mem_readyNodes.1 (List.mem_map.2 ⟨r, Array.mem_toList_iff.2 hr, rfl⟩)

/-- **One step** keeps the turns: a successor of the node taken was not ready
    before. -/
theorem Queued.take (hd : d.WellFormed) (hsound : Sound d [] t) (h : Queued d t) {i : Nat}
    {r : Ready} (hr : t.ready[i]? = some r) : Queued d (t.take d i) := by
  have hsound' : Sound d [] (t.take d i) := hsound.take hd i
  have hfree := hsound.isFree_of_mem (Array.mem_of_getElem? hr)
  refine ⟨?_, ?_⟩
  · intro q hq
    rcases mem_ready_take hr hq with hold | ⟨-, -, hlt⟩
    · exact (h.turn_lt q hold).trans_le (turn_le_take hr)
    · exact hlt
  · intro q hq q' hq' hle earlier hearlier hready
    have hnow := (hsound'.isFree_of_mem hq).ready
    rw [taken_take hr] at hearlier hnow
    rcases List.suffix_cons_iff.1 hearlier with rfl | hearlier
    · exact hnow
    · rcases mem_ready_take hr hq' with hold' | ⟨hnode', -, -⟩
      · rcases mem_ready_take hr hq with hold | ⟨-, hturn, -⟩
        · exact h.in_turn q hold q' hold' hle earlier hearlier hready
        · have hlt := h.turn_lt q' hold'
          omega
      · -- a successor waits for the node that is only taken now
        have hpred : r.node ∈ d.predecessors q'.node :=
          DependencyGraph.mem_predecessors.2 (DependencyGraph.mem_successors.1 hnode')
        exact absurd (hearlier.subset (hready _ hpred)) hfree.untaken

/-! ## Section 4: One choice -/

/-- The candidates are the ready nodes of the highest priority. -/
theorem mem_candidates_iff {i : Nat} : i ∈ t.candidates d ↔
    ∃ r, t.ready[i]? = some r ∧ ∀ q ∈ t.ready, d.rank q.node ≤ d.rank r.node := by
  unfold candidates
  simp only
  split
  · rename_i top htop
    obtain ⟨hmem, hmax⟩ := List.max?_eq_some_iff.1 htop
    have hplace : (∃ x ∈ (t.ready.toList.map fun q => (d.priority q.node).rank).zipIdx,
        (if x.1 = top then some x.2 else none) = some i) ↔
        ∃ r, t.ready[i]? = some r ∧ d.rank r.node = top := by
      simp [List.mem_zipIdx_iff_getElem?, DependencyGraph.rank]
    rw [List.mem_filterMap, hplace]
    refine exists_congr fun r => and_congr_right fun hr => ?_
    constructor
    · rintro rfl q hq
      exact hmax _ (List.mem_map.2 ⟨q, Array.mem_toList_iff.2 hq, rfl⟩)
    · intro hall
      obtain ⟨q, hq, hqtop⟩ := List.mem_map.1 hmem
      have hle : top ≤ d.rank r.node := hqtop ▸ hall q (Array.mem_toList_iff.1 hq)
      have hge := hmax _ (List.mem_map.2 ⟨r, Array.mem_toList_iff.2 (Array.mem_of_getElem? hr), rfl⟩)
      exact Int.le_antisymm hge hle
  · rename_i hnone
    rw [List.max?_eq_none_iff, List.map_eq_nil_iff, Array.toList_eq_nil_iff] at hnone
    simp [hnone]

/-- No other place is more eager than the one that is picked. -/
theorem mostEager_min {eagerness : Nat → Eagerness} {places : List Nat} {i : Nat}
    (h : mostEager eagerness places = some i) :
    i ∈ places ∧ ∀ j ∈ places, (eagerness j).before (eagerness i) = false := by
  have hself : ∀ a : Eagerness, a.before a = false := by
    simp [Eagerness.before]
  -- the best place so far has been compared with all that were looked at
  have hfold : ∀ (xs : List Nat) (seen : List Nat) (best : Nat), best ∈ seen →
      (∀ j ∈ seen, (eagerness j).before (eagerness best) = false) →
      let last := xs.foldl (fun best j =>
        if (eagerness j).before (eagerness best) then j else best) best
      last ∈ seen ++ xs ∧ ∀ j ∈ seen ++ xs, (eagerness j).before (eagerness last) = false := by
    intro xs
    induction xs with
    | nil =>
      intro seen best hbest hseen
      simpa using ⟨hbest, hseen⟩
    | cons x xs ih =>
      intro seen best hbest hseen
      rw [show seen ++ x :: xs = (seen ++ [x]) ++ xs by simp, List.foldl_cons]
      refine ih (seen ++ [x]) _ ?_ ?_
      · split
        · simp
        · simp [hbest]
      · intro j hj
        split
        · rename_i hx
          rcases List.mem_append.1 hj with hj | hj
          · exact Eagerness.not_before_trans (hseen j hj) hx
          · rw [List.mem_singleton.1 hj]
            exact hself _
        · rename_i hx
          rcases List.mem_append.1 hj with hj | hj
          · exact hseen j hj
          · rw [List.mem_singleton.1 hj]
            simpa using hx
  cases places with
  | nil => cases h
  | cons first rest =>
    cases h
    exact hfold rest [first] first (by simp) (by simpa using hself _)

/-- What is picked is a candidate, and unless it was drawn, none is more eager. -/
theorem pick_min {dice : Dice σ} {tieBreak : TieBreak} {descendants? : Option (Array Nat)} {i : Nat}
    {s : σ} (h : t.pick d dice tieBreak descendants? = (some i, s)) :
    i ∈ t.candidates d ∧ (tieBreak ≠ .random → ∀ j ∈ t.candidates d,
      (t.eagerness d tieBreak descendants? j).before (t.eagerness d tieBreak descendants? i)
        = false) := by
  cases tieBreak with
  | random => exact ⟨List.mem_of_getElem? (congrArg Prod.fst h), fun hne => absurd rfl hne⟩
  | fifo =>
    obtain ⟨hmem, hmin⟩ := mostEager_min (congrArg Prod.fst h)
    exact ⟨hmem, fun _ => hmin⟩
  | greedy =>
    obtain ⟨hmem, hmin⟩ := mostEager_min (congrArg Prod.fst h)
    exact ⟨hmem, fun _ => hmin⟩

/-- **One choice**: what is picked is the best choice at its time. -/
theorem pick_chosen (hnodup : ∀ v, (d.allocs v).Nodup) (hsound : Sound d [] t)
    (htallies : Tallies d t) (hqueued : Queued d t) {dice : Dice σ} {tieBreak : TieBreak}
    {descendants? : Option (Array Nat)} {i : Nat} {s : σ}
    (h : t.pick d dice tieBreak descendants? = (some i, s)) :
    ∃ r, t.ready[i]? = some r ∧ d.Chosen tieBreak t.taken r.node := by
  obtain ⟨hmem, hmin⟩ := pick_min h
  obtain ⟨r, hr, htop⟩ := mem_candidates_iff.1 hmem
  have hready : t.ready.getD i default = r := by
    simp [Array.getD_eq_getD_getElem?, hr]
  -- a free node has a place in the ready list, among the candidates if its priority is as high
  have hplace : ∀ w, d.IsFree t.taken w → ∃ (j : Nat) (q : Ready), t.ready[j]? = some q ∧
      t.ready.getD j default = q ∧ q.node = w ∧ (d.rank w = d.rank r.node → j ∈ t.candidates d) := by
    intro w hw
    obtain ⟨q, hq, rfl⟩ := List.mem_map.1 (hsound.mem_readyNodes.2 hw)
    obtain ⟨j, hj⟩ := Array.mem_iff_getElem?.1 (Array.mem_toList_iff.1 hq)
    refine ⟨j, q, hj, by simp [Array.getD_eq_getD_getElem?, hj], rfl, fun heq => ?_⟩
    refine mem_candidates_iff.2 ⟨q, hj, fun q' hq' => ?_⟩
    rw [heq]
    exact htop q' hq'
  have hgrowth : ∀ w, d.IsFree t.taken w → t.growth d w = toSigned (d.rise t.taken w) := by
    intro w hw
    rw [growth, htallies.increase_eq hnodup hw.lt hw.untaken]
  have hfree := hsound.isFree_of_mem (Array.mem_of_getElem? hr)
  refine ⟨r, hr, ?_, ?_, ?_⟩
  · intro w hw
    obtain ⟨j, q, hj, -, rfl, -⟩ := hplace w hw
    exact htop q (Array.mem_of_getElem? hj)
  · rintro rfl w hw hrank
    obtain ⟨j, q, hj, hq, rfl, hcandidate⟩ := hplace w hw
    have hle := Eagerness.growth_le (hmin (by decide) j (hcandidate hrank))
    simp only [eagerness, hready, hq] at hle
    rwa [← hgrowth _ hw, ← hgrowth _ hfree]
  · rintro rfl w hw hrank
    obtain ⟨j, q, hj, hq, rfl, hcandidate⟩ := hplace w hw
    have hturn := hmin (by decide) j (hcandidate hrank)
    simp only [eagerness, hready, hq, Eagerness.before, lt_self_iff_false, decide_false,
      decide_true, Bool.true_and, Bool.false_or, decide_eq_false_iff_not, Nat.not_lt] at hturn
    exact hqueued.in_turn r (Array.mem_of_getElem? hr) q (Array.mem_of_getElem? hj) hturn

/-! ## Section 5: The history of choices -/

/-- The tables agree with the nodes taken, and each of these was the best
    choice at its time. -/
structure Careful (d : DependencyGraph) (tieBreak : TieBreak) (t : Traversal σ) : Prop where
  sound : Sound d [] t
  tallies : Tallies d t
  queued : Queued d t
  chosen : ∀ later v earlier, t.taken = later ++ v :: earlier → d.Chosen tieBreak earlier v

/-- **One step** is one more choice. -/
theorem Careful.take (hd : d.WellFormed) (hnodup : ∀ v, (d.allocs v).Nodup) {dice : Dice σ}
    {tieBreak : TieBreak} {descendants? : Option (Array Nat)} {i : Nat} {s : σ}
    (h : Careful d tieBreak t) (hpick : t.pick d dice tieBreak descendants? = (some i, s)) :
    Careful d tieBreak (Traversal.take d { t with dice := s } i) := by
  obtain ⟨r, hr, hchosen⟩ := pick_chosen hnodup h.sound h.tallies h.queued hpick
  have hfree := h.sound.isFree_of_mem (Array.mem_of_getElem? hr)
  have hr' : ({ t with dice := s } : Traversal σ).ready[i]? = some r := hr
  have htallies : Tallies d { t with dice := s } := ⟨h.tallies.1, h.tallies.2, h.tallies.3⟩
  have hqueued : Queued d { t with dice := s } := ⟨h.queued.1, h.queued.2⟩
  refine ⟨(h.sound.setDice s).take hd i, htallies.take hnodup hr' hfree.lt hfree.untaken,
    hqueued.take hd (h.sound.setDice s) hr', ?_⟩
  intro later v earlier hsplit
  rw [taken_take hr'] at hsplit
  cases later with
  | nil =>
    cases hsplit
    exact hchosen
  | cons x later =>
    obtain ⟨-, hsplit⟩ := List.cons_eq_cons.1 hsplit
    exact h.chosen later v earlier hsplit

/-- **A whole traversal** is a history of choices. -/
theorem Careful.run (hd : d.WellFormed) (hnodup : ∀ v, (d.allocs v).Nodup) {dice : Dice σ}
    {tieBreak : TieBreak} {descendants? : Option (Array Nat)} {rounds : Nat} {t' : Traversal σ}
    (h : Careful d tieBreak t)
    (hrun : Traversal.run d dice tieBreak descendants? rounds t = .ok t') :
    Careful d tieBreak t' := by
  induction rounds generalizing t with
  | zero =>
    cases hrun
    exact h
  | succ rounds ih =>
    unfold Traversal.run at hrun
    split at hrun
    · cases hrun
      exact h
    · split at hrun
      · cases hrun
      · rename_i i s hpick
        exact ih (h.take hd hnodup hpick) hrun

/-- Pushing nodes leaves the counts alone and numbers the nodes. -/
theorem foldl_push (p : Nat → Prop) [DecidablePred p] (vs : List Nat) (t : Traversal σ)
    (hturn : ∀ r ∈ t.ready, r.turn < t.turn) :
    let t' := vs.foldl (fun t v => if p v then t.push v else t) t
    t'.started = t.started ∧ t'.remaining = t.remaining ∧ ∀ r ∈ t'.ready, r.turn < t'.turn := by
  induction vs generalizing t with
  | nil => exact ⟨rfl, rfl, hturn⟩
  | cons v rest ih =>
    rw [List.foldl_cons]
    split
    · refine ih (t.push v) fun r hr => ?_
      rcases Array.mem_push.1 hr with hr | rfl
      · exact (hturn r hr).trans (Nat.lt_succ_self _)
      · exact Nat.lt_succ_self _
    · exact ih t hturn

theorem careful_start (d : DependencyGraph) (tieBreak : TieBreak) (s : σ) :
    Careful d tieBreak (start d s) := by
  have hsound := sound_start d s
  have htaken := (start_fields d s).2.1
  have hpush : (start d s).started = Array.replicate d.allocCount false ∧
      (start d s).remaining = (Array.range d.allocCount).map (fun a => (d.users a).length) ∧
      ∀ r ∈ (start d s).ready, r.turn < (start d s).turn :=
    foldl_push _ (List.range d.size) _ (by simp)
  obtain ⟨hstarted, hremaining, hturn⟩ := hpush
  refine ⟨hsound, ⟨?_, ?_, ?_⟩, ⟨hturn, ?_⟩, ?_⟩
  · rw [hstarted, Array.size_replicate]
  · intro a ha
    rw [htaken, hstarted]
    simp [Array.getD_eq_getD_getElem?, ha]
  · intro a ha
    rw [htaken, hremaining]
    simp [Array.getD_eq_getD_getElem?, ha]
  · intro r hr r' _ _ earlier hearlier _
    have hready := (hsound.isFree_of_mem hr).ready
    rw [htaken] at hearlier hready
    rw [List.suffix_nil.1 hearlier]
    exact hready
  · intro later v earlier hsplit
    rw [htaken] at hsplit
    simp at hsplit

end Traversal

/-! ## Section 6: Choices along an order -/

namespace DependencyGraph

variable {d : DependencyGraph} {σ : Type} {dice : Dice σ} {s : σ} {tieBreak : TieBreak}
  {order : List Nat}

/-- A number that is a signed word. -/
def FitsSigned (x : Int) : Prop := -(signedRange : Int) ≤ x ∧ x < signedRange

theorem FitsSigned.toSigned_eq {x : Int} (h : FitsSigned x) : toSigned x = x :=
  toSigned_of_lt h.1 h.2

theorem traverse_chosen (hd : d.WellFormed) (hnodup : ∀ v, (d.allocs v).Nodup)
    {descendants? : Option (Array Nat)}
    (h : d.traverse dice tieBreak descendants? s = .ok order) {i u : Nat}
    (hu : order[i]? = some u) : d.Chosen tieBreak (order.take i).reverse u := by
  obtain ⟨t, hrun, h⟩ := except_bind_eq_ok.1 h
  have ht := (Traversal.careful_start d tieBreak s).run hd hnodup hrun
  split at h
  · cases h
  · cases h
    refine ht.chosen (t.taken.reverse.drop (i + 1)).reverse u _ ?_
    obtain ⟨hi, rfl⟩ := List.getElem?_eq_some_iff.1 hu
    have hsplit := List.take_append_drop i t.taken.reverse
    rw [List.drop_eq_getElem_cons hi] at hsplit
    simpa using (congrArg List.reverse hsplit).symm

/-- **Every entry of an order by readiness was the best choice.** -/
theorem listOrderWith_chosen (hd : d.WellFormed) (hnodup : ∀ v, (d.allocs v).Nodup)
    {useClosure : Bool} (h : d.listOrderWith dice s tieBreak useClosure = .ok order) {i u : Nat}
    (hu : order[i]? = some u) : d.Chosen tieBreak (order.take i).reverse u := by
  unfold listOrderWith at h
  split at h
  · obtain ⟨first, -, h⟩ := except_bind_eq_ok.1 h
    exact traverse_chosen hd hnodup h hu
  · exact traverse_chosen hd hnodup h hu

/-- A later entry of an order that is ready earlier was free to be chosen. -/
theorem IsOrder.isFree (h : d.IsOrder order) {i j v : Nat} (hij : i < j) (hv : order[j]? = some v)
    (hready : d.IsReady (order.take i) v) : d.IsFree (order.take i).reverse v := by
  refine ⟨List.mem_range.1 (h.perm.mem_iff.1 (List.mem_of_getElem? hv)), ?_, ?_⟩
  · intro hmem
    obtain ⟨k, hk⟩ := List.mem_iff_getElem?.1 (List.mem_reverse.1 hmem)
    rw [List.getElem?_take] at hk
    split at hk
    · obtain ⟨hlt, -⟩ := List.getElem?_eq_some_iff.1 hk
      have hsame : k = j := (List.getElem?_inj hlt h.nodup).1 (hk.trans hv.symm)
      omega
    · cases hk
  · exact (isReady_congr (fun u => List.mem_reverse.symm) v).1 hready

/-- What is not ready yet has a predecessor in the rest of an order. -/
theorem IsOrder.exists_predecessor (hd : d.WellFormed) (h : d.IsOrder order) {i v : Nat}
    (hnot : ¬ d.IsReady (order.take i) v) :
    ∃ k x, i ≤ k ∧ order[k]? = some x ∧ d.hasEdge x v = true := by
  unfold IsReady at hnot
  push Not at hnot
  obtain ⟨x, hx, hxi⟩ := hnot
  have he := mem_predecessors.1 hx
  obtain ⟨k, hk⟩ := List.mem_iff_getElem?.1
    (h.perm.mem_iff.2 (List.mem_range.2 (hd _ he).1))
  refine ⟨k, x, ?_, hk, Std.ExtTreeSet.contains_iff_mem.2 he⟩
  by_contra hlt
  exact hxi (List.mem_of_getElem? ((List.getElem?_take_of_lt (by omega)).trans hk))

/-- **Choices.**  Take two positions of an order by readiness.  If the later
    node is of a higher priority, it was not ready when the earlier one was
    chosen: one of its predecessors comes up in between.  If both are of the
    same priority and the later one was ready, then under the greedy tie-break
    the earlier one did not add more to the live bytes, as long as what they
    add are signed words; and under the tie-break by age the earlier one became
    ready no later. -/
theorem choices_of_listOrderWith {g : Graph} {extra : ExtraOrder} {options : ScheduleOptions}
    (hd : g.dependencies extra options = .ok d) {useClosure : Bool}
    (h : d.listOrderWith dice s tieBreak useClosure = .ok order) {i j u v : Nat} (hij : i < j)
    (hu : order[i]? = some u) (hv : order[j]? = some v) :
    (d.rank u < d.rank v → ∃ k x, i ≤ k ∧ order[k]? = some x ∧ d.hasEdge x v = true) ∧
    (d.rank u = d.rank v → d.IsReady (order.take i) v →
      (tieBreak = .greedy → FitsSigned (d.rise (order.take i) u) →
        FitsSigned (d.rise (order.take i) v) →
        d.rise (order.take i) u ≤ d.rise (order.take i) v) ∧
      (tieBreak = .fifo → ∀ k, d.IsReady (order.take k) v → d.IsReady (order.take k) u)) := by
  obtain ⟨ids, hids⟩ := Graph.exists_allocation hd
  have hwell := Graph.wellFormed_dependencies hd
  have horder := listOrderWith_isOrder hwell h
  have hchosen := listOrderWith_chosen hwell hids.nodup_allocs h hu
  have hsame : ∀ (k x : Nat), x ∈ order.take k ↔ x ∈ (order.take k).reverse :=
    fun k x => List.mem_reverse.symm
  refine ⟨fun hlt => ?_, fun hrank hready => ⟨?_, ?_⟩⟩
  · refine horder.exists_predecessor hwell fun hready => ?_
    have hle := hchosen.priority v (horder.isFree hij hv hready)
    omega
  · rintro rfl hfitu hfitv
    have hle := hchosen.greedy rfl v (horder.isFree hij hv hready) hrank.symm
    rwa [← rise_congr (hsame i), ← rise_congr (hsame i), hfitu.toSigned_eq, hfitv.toSigned_eq] at hle
  · rintro rfl k hk
    have hturn := hchosen.fifo rfl v (horder.isFree hij hv hready) hrank.symm
    rcases Nat.le_total k i with hki | hik
    · have hsuffix : (order.take k).reverse <:+ (order.take i).reverse :=
        List.reverse_suffix.2 (List.take_prefix_take_left hki)
      exact (isReady_congr (hsame k) u).2
        (hturn _ hsuffix ((isReady_congr (hsame k) v).1 hk))
    · -- it was ready when it was chosen, and stays so
      have hnow := hturn _ List.suffix_rfl ((isReady_congr (hsame i) v).1 hready)
      intro x hx
      exact (List.take_prefix_take_left hik).subset (List.mem_reverse.1 (hnow x hx))

/-- One op reads a short stream, and two ops read a stream of `n` numbers. -/
def twoStreams (n : Nat) : Workspace :=
  let calls : List Call := [
    .addStream "h" ⟨.f32, [n]⟩,
    .addStream "s" ⟨.f32, [1]⟩,
    .createOp Builtin.reduceSum.operator {},
    .connectInput 0 0 "s",
    .createOutput 0 0 "a",
    .settle 0,
    .createOp Builtin.reduceSum.operator {},
    .connectInput 1 0 "h",
    .createOutput 1 0 "b",
    .settle 1,
    .createOp Builtin.reduceSum.operator {},
    .connectInput 2 0 "h",
    .createOutput 2 0 "c",
    .settle 2]
  calls.foldl (fun w c => c.run w) {}

/-- The op that reads the short stream goes first, since the others open the
    long stream. -/
theorem twoStreams_choice : ∃ d, (twoStreams 6).graph.dependencies ∅ {} = .ok d ∧
    d.listOrder {} false = .ok [0, 1, 2] ∧ d.rise [] 0 = 0 ∧ d.rise [] 1 = 24 ∧
    d.rise ([0, 1, 2].take 0) 0 ≤ d.rise ([0, 1, 2].take 0) 1 := by
  have hvalue : (((twoStreams 6).graph.dependencies ∅ {}).toOption.map fun d =>
      (d.listOrder {} false, d.rise [] 0, d.rise [] 1, d.rank 0, d.rank 1,
        decide (d.IsReady [] 1))) = some (.ok [0, 1, 2], 0, 24, 0, 0, true) := by
    decide +kernel
  obtain ⟨d, hd, hvalue⟩ := Option.map_eq_some_iff.1 hvalue
  rw [toOption_eq_some] at hd
  simp only [Prod.mk.injEq, decide_eq_true_eq] at hvalue
  obtain ⟨horder, hfirst, hsecond, hrank, hrank', hready⟩ := hvalue
  refine ⟨d, hd, horder, hfirst, hsecond, ?_⟩
  obtain ⟨-, hties⟩ := choices_of_listOrderWith (i := 0) (j := 1) hd horder (by decide) rfl rfl
  refine (hties (hrank.trans hrank'.symm) hready).1 rfl ?_ ?_
  · show FitsSigned (d.rise [] 0)
    rw [hfirst]
    exact ⟨by decide, by decide⟩
  · show FitsSigned (d.rise [] 1)
    rw [hsecond]
    exact ⟨by decide, by decide⟩

/-- **A choice that is not greedy.**  A stream of more than half the word range
    is opened first, although the op that reads the short stream was ready and
    adds nothing. -/
theorem twoStreams_misled :
    ∃ d, (twoStreams 2305843009213956096).graph.dependencies ∅ {} = .ok d ∧
      d.listOrder {} false = .ok [1, 0, 2] ∧ d.rank 1 = d.rank 0 ∧ d.IsReady [] 0 ∧
      d.rise [] 0 = 0 ∧ d.rise [] 1 = 9223372036855824384 := by
  have hvalue : (((twoStreams 2305843009213956096).graph.dependencies ∅ {}).toOption.map fun d =>
      (d.listOrder {} false, d.rank 1, d.rank 0, decide (d.IsReady [] 0), d.rise [] 0,
        d.rise [] 1)) = some (.ok [1, 0, 2], 0, 0, true, 0, 9223372036855824384) := by
    decide +kernel
  obtain ⟨d, hd, hvalue⟩ := Option.map_eq_some_iff.1 hvalue
  rw [toOption_eq_some] at hd
  simp only [Prod.mk.injEq, decide_eq_true_eq] at hvalue
  obtain ⟨horder, hrank, hrank', hready, hfirst, hsecond⟩ := hvalue
  exact ⟨d, hd, horder, hrank.trans hrank'.symm, hready, hfirst, hsecond⟩

end DependencyGraph

end Dataflow
