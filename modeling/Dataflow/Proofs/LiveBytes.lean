import Mathlib.Algebra.Order.BigOperators.Group.Finset
import Mathlib.Algebra.Ring.Int.Defs
import Mathlib.Algebra.Ring.Nat
import Mathlib.Data.List.Induction
import Mathlib.Data.List.Nodup
import Dataflow.Schedule.Liveness

/-! # Live bytes are summed up from changes

    An allocation is live at a position if it is used there or before, and there
    or after (`liveAt_hull`).  The profile is not worked out from this.  Every
    lifetime is entered into a table of changes, as one more at its first position
    and one less past its last, and the changes are summed up.

    The changes are signed words, and so are their sums.  This does no harm: sums
    wrap around to the same word whether or not what they are made of has wrapped
    around before (`toWord_add_right`).  So an entry of the profile is the word that
    the live bytes wrap around to (`profile_eq`), and it is the live bytes if all
    allocations together fit (`toWord_liveSum`). -/

namespace Dataflow

/-! ## Section 1: Lifetimes -/

namespace DependencyGraph

/-- The smallest interval that holds some positions starts at or before `p` if
    one of them is there, and ends likewise. -/
theorem hull_eq_some {ps : List Nat} (hne : ps ≠ []) :
    ∃ lo hi, hull ps = some (lo, hi) ∧ (∀ p, lo ≤ p ↔ ∃ x ∈ ps, x ≤ p) ∧
      ∀ p, p ≤ hi ↔ ∃ x ∈ ps, p ≤ x := by
  induction ps using List.reverseRecOn with
  | nil => exact absurd rfl hne
  | append_singleton ps last ih =>
    by_cases hps : ps = []
    · subst hps
      exact ⟨last, last, rfl, by simp, by simp⟩
    · -- the interval so far is widened by the last position
      obtain ⟨lo, hi, hhull, hlo, hhi⟩ := ih hps
      refine ⟨min lo last, max hi last, ?_, fun p => ?_, fun p => ?_⟩
      · unfold hull at hhull ⊢
        rw [List.foldl_append, hhull]
        rfl
      · rw [min_le_iff, hlo]
        simp [or_and_right, exists_or]
      · rw [le_max_iff, hhi]
        simp [or_and_right, exists_or]

/-- **An allocation is live** at a position if it is used there or before, and
    there or after. -/
theorem liveAt_hull (p size : Nat) (ps : List Nat) :
    liveAt p (hull ps) size = if (∃ x ∈ ps, x ≤ p) ∧ ∃ x ∈ ps, p ≤ x then size else 0 := by
  by_cases hne : ps = []
  · subst hne
    simp [hull, liveAt]
  · obtain ⟨lo, hi, hhull, hlo, hhi⟩ := hull_eq_some hne
    simp [hhull, liveAt, hlo, hhi]

/-- Every node of the list is entered with its place, and nothing else is. -/
theorem getElem?_place {α : Type} (f : Nat → α) {order : List Nat} (hnodup : order.Nodup)
    (table : Array α) (k node : Nat) :
    ((order.zipIdx k).foldl (fun table (node, pos) => table.setIfInBounds node (f pos)) table)[node]?
      = if node ∈ order ∧ node < table.size then some (f (order.idxOf node + k))
        else table[node]? := by
  induction order generalizing table k with
  | nil => simp
  | cons x rest ih =>
    obtain ⟨hx, hrest⟩ := List.nodup_cons.1 hnodup
    rw [List.zipIdx_cons, List.foldl_cons, ih hrest, Array.getElem?_setIfInBounds,
      Array.size_setIfInBounds]
    by_cases hnode : x = node
    · subst hnode
      simp only [hx, false_and, if_false, if_true, List.mem_cons, true_or, true_and,
        List.idxOf_cons_self, Nat.zero_add]
      split
      · rfl
      · rename_i hsize
        exact (Array.getElem?_eq_none (Nat.le_of_not_lt hsize)).symm
    · have hidx : (x :: rest).idxOf node + k = rest.idxOf node + (k + 1) := by
        rw [List.idxOf_cons_ne _ hnode]
        omega
      rw [hidx]
      simp [hnode, Ne.symm hnode]

variable (d : DependencyGraph)

/-- The bytes of allocation `a` that are live at position `p` of an order. -/
def liveOf (order : List Nat) (p a : Nat) : Nat :=
  liveAt p (hull ((d.users a).map fun node => order.idxOf node)) (d.allocSize a)

/-- The bytes of all allocations that are live at position `p` of an order. -/
def liveSum (order : List Nat) (p : Nat) : Nat :=
  ∑ a ∈ Finset.range d.allocCount, d.liveOf order p a

variable {d}

theorem mem_users {a node : Nat} : node ∈ d.users a ↔ node < d.size ∧ a ∈ d.allocs node := by
  simp [users]

theorem total_eq_sum (ns : List Nat) : total ns = ns.sum := by
  induction ns with
  | nil => rfl
  | cons n ns ih => rw [total, ih, List.sum_cons]

theorem sum_range_eq (f : Nat → Nat) (n : Nat) :
    ∑ a ∈ Finset.range n, f a = ((List.range n).map f).sum := by
  show ((List.range n : Multiset Nat).map f).sum = _
  rw [Multiset.map_coe, Multiset.sum_coe]

theorem peak_le_iff {ns : List Nat} {m : Nat} : peak ns ≤ m ↔ ∀ n ∈ ns, n ≤ m := by
  have hfold : ∀ (xs : List Nat) (k : Nat),
      xs.foldl max k ≤ m ↔ k ≤ m ∧ ∀ n ∈ xs, n ≤ m := by
    intro xs
    induction xs with
    | nil => simp
    | cons x xs ih =>
      intro k
      rw [List.foldl_cons, ih, max_le_iff, List.forall_mem_cons, and_assoc]
  unfold peak
  rw [hfold]
  simp

theorem nodup_of_perm {order : List Nat} (h : order.Perm (List.range d.size)) : order.Nodup :=
  h.nodup_iff.2 List.nodup_range

theorem mem_of_perm {order : List Nat} (h : order.Perm (List.range d.size)) {node : Nat} :
    node ∈ order ↔ node < d.size := by rw [h.mem_iff, List.mem_range]

/-- The positions of the users of an allocation give its lifetime. -/
theorem lifetime_eq {order : List Nat} (h : order.Perm (List.range d.size)) (a : Nat) :
    d.lifetime (d.positions order) a = hull ((d.users a).map fun node => order.idxOf node) := by
  unfold lifetime
  congr 1
  rw [← List.filterMap_eq_map]
  refine List.filterMap_congr fun node hnode => ?_
  have hlt := (mem_users.1 hnode).1
  unfold positions
  rw [getElem?_place some (nodup_of_perm h)]
  simp [(mem_of_perm h).2 hlt, hlt]

/-- The last position of a lifetime is one of the order. -/
theorem lt_of_lifetime {order : List Nat} (h : order.Perm (List.range d.size)) {a lo hi : Nat}
    (hlife : d.lifetime (d.positions order) a = some (lo, hi)) : lo ≤ hi ∧ hi < order.length := by
  rw [lifetime_eq h] at hlife
  have hne : ((d.users a).map fun node => order.idxOf node) ≠ [] := by
    intro hnil
    rw [hnil] at hlife
    cases hlife
  obtain ⟨lo', hi', hhull, hlo, hhi⟩ := hull_eq_some hne
  cases hhull.symm.trans hlife
  obtain ⟨x, hx, hle⟩ := (hhi hi).1 (Nat.le_refl _)
  refine ⟨(hlo hi).2 ?_, ?_⟩
  · obtain ⟨y, hy, hylo⟩ := (hlo lo).1 (Nat.le_refl _)
    have hyhi := (hhi y).2 ⟨y, hy, Nat.le_refl _⟩
    exact ⟨y, hy, hyhi⟩
  · obtain ⟨node, hnode, rfl⟩ := List.mem_map.1 hx
    have hmem := (mem_of_perm h).2 (mem_users.1 hnode).1
    exact lt_of_le_of_lt hle (List.idxOf_lt_length_of_mem hmem)

/-! ## Section 2: The profile is summed up from changes -/

/-- The sum of the changes up to position `p`. -/
def changeUpTo (changes : Array Int) (p : Nat) : Int :=
  ∑ q ∈ Finset.range (p + 1), changes.getD q 0

/-- **A running sum** is the word that the sum of the changes so far wraps around to. -/
theorem getElem?_runningSums (live : Int) {cs : List Int} {p : Nat} (hp : p < cs.length) :
    (runningSums live cs)[p]? = some (toWord (live + ∑ q ∈ Finset.range (p + 1), cs.getD q 0)) := by
  induction cs generalizing live p with
  | nil => exact absurd hp (Nat.not_lt_zero p)
  | cons c cs ih =>
    cases p with
    | zero => simpa [runningSums] using toWord_toSigned_add (live + c) 0
    | succ p =>
      have hp' : p < cs.length := Nat.lt_of_succ_lt_succ hp
      show (runningSums (toSigned (live + c)) cs)[p]? = _
      rw [ih _ hp', toWord_toSigned_add, Finset.sum_range_succ' _ (p + 1)]
      simp only [List.getD_cons_succ, List.getD_cons_zero]
      congr 2
      omega

theorem length_runningSums (live : Int) (cs : List Int) :
    (runningSums live cs).length = cs.length := by
  induction cs generalizing live with
  | nil => rfl
  | cons c cs ih => simp [runningSums, ih]

/-- Changing one entry by `n` changes the sums from there on by `n`. -/
theorem changeUpTo_modify (changes : Array Int) {k : Nat} (hk : k < changes.size) (n : Int)
    (p : Nat) : toWord (changeUpTo (changes.modify k fun c => toSigned (c + n)) p)
      = toWord (changeUpTo changes p + if k ≤ p then n else 0) := by
  have hother : ∀ q, q ≠ k →
      (changes.modify k fun c => toSigned (c + n)).getD q 0 = changes.getD q 0 := by
    intro q hq
    simp [Array.getD_eq_getD_getElem?, Array.getElem?_modify, Ne.symm hq]
  have hself : (changes.modify k fun c => toSigned (c + n)).getD k 0
      = toSigned (changes.getD k 0 + n) := by
    simp [Array.getD_eq_getD_getElem?, Array.getElem_modify_self, hk]
  unfold changeUpTo
  by_cases hkp : k ≤ p
  · have hmem : k ∈ Finset.range (p + 1) := Finset.mem_range.2 (Nat.lt_succ_of_le hkp)
    rw [← Finset.add_sum_erase _ _ hmem, ← Finset.add_sum_erase _ _ hmem, hself, if_pos hkp,
      toWord_toSigned_add, Finset.sum_congr rfl fun q hq => hother q (Finset.ne_of_mem_erase hq)]
    congr 1
    omega
  · have hrest : ∀ q ∈ Finset.range (p + 1), q ≠ k := fun q hq hqk =>
      hkp (hqk ▸ Nat.lt_succ_iff.1 (Finset.mem_range.1 hq))
    rw [if_neg hkp, add_zero, Finset.sum_congr rfl fun q hq => hother q (hrest q hq)]

/-- **A lifetime** adds its size to the sums for the positions within it. -/
theorem changeUpTo_addLifetime {changes : Array Int} {life : Option (Nat × Nat)}
    (hlife : ∀ lo hi, life = some (lo, hi) → lo ≤ hi ∧ hi + 1 < changes.size) (size p : Nat) :
    toWord (changeUpTo (addLifetime changes life size) p)
      = toWord (changeUpTo changes p + liveAt p life size) := by
  cases life with
  | none => simp [addLifetime, liveAt]
  | some span =>
    obtain ⟨lo, hi⟩ := span
    obtain ⟨hle, hsize⟩ := hlife lo hi rfl
    have hearly := changeUpTo_modify changes (k := lo) (by omega) (toSigned size) p
    have hlate := changeUpTo_modify (changes.modify lo fun c => toSigned (c + toSigned size))
      (k := hi + 1) (by simpa using hsize) (-toSigned size) p
    simp only [addLifetime, Int.sub_eq_add_neg, hlate, toWord_add_right hearly]
    by_cases hlo : lo ≤ p
    · by_cases hhi : hi + 1 ≤ p
      · -- past the lifetime both changes count, and cancel out
        have hlive : liveAt p (some (lo, hi)) size = 0 := by
          simp [liveAt, Nat.not_le.2 hhi]
        rw [if_pos hlo, if_pos hhi, hlive, add_neg_cancel_right, Nat.cast_zero, add_zero]
      · have hlive : liveAt p (some (lo, hi)) size = size := by
          simp [liveAt, hlo, Nat.lt_succ_iff.1 (Nat.not_le.1 hhi)]
        rw [if_pos hlo, if_neg hhi, hlive, add_zero, add_comm, toWord_toSigned_add, add_comm]
    · have hlive : liveAt p (some (lo, hi)) size = 0 := by simp [liveAt, hlo]
      rw [if_neg hlo, if_neg (by omega), hlive, Nat.cast_zero, add_zero]

theorem size_addLifetime (changes : Array Int) (life : Option (Nat × Nat)) (size : Nat) :
    (addLifetime changes life size).size = changes.size := by
  cases life <;> simp [addLifetime]

/-- **Some lifetimes**, entered one after another. -/
theorem changeUpTo_foldl {life : Nat → Option (Nat × Nat)} {room : Nat}
    (hlife : ∀ a lo hi, life a = some (lo, hi) → lo ≤ hi ∧ hi + 1 < room) (size : Nat → Nat)
    (n p : Nat) :
    let changes := (List.range n).foldl (fun changes a => addLifetime changes (life a) (size a))
      (Array.replicate room 0)
    changes.size = room ∧ toWord (changeUpTo changes p)
      = toWord (∑ a ∈ Finset.range n, liveAt p (life a) (size a) : Nat) := by
  induction n with
  | zero =>
    have hzero : ∀ q, (Array.replicate room (0 : Int)).getD q 0 = 0 := by
      intro q
      rw [Array.getD_eq_getD_getElem?, Array.getElem?_replicate]
      split <;> rfl
    simp [changeUpTo, hzero]
  | succ n ih =>
    obtain ⟨hsize, hsum⟩ := ih
    rw [List.range_succ, List.foldl_append]
    refine ⟨(size_addLifetime ..).trans hsize, ?_⟩
    have hstep := changeUpTo_addLifetime (fun lo hi h => hsize.symm ▸ hlife n lo hi h) (size n) p
    rw [Finset.sum_range_succ, Nat.cast_add, ← toWord_add_right hsum]
    exact hstep

/-- **The profile** of an order of all nodes: at each position, the word that all
    live bytes wrap around to. -/
theorem profile_eq {order : List Nat} (h : order.Perm (List.range d.size)) :
    d.profile order = (List.range order.length).map fun p => toWord (d.liveSum order p) := by
  have hlife : ∀ a lo hi, d.lifetime (d.positions order) a = some (lo, hi) →
      lo ≤ hi ∧ hi + 1 < order.length + 1 := by
    intro a lo hi hsome
    obtain ⟨hle, hlt⟩ := lt_of_lifetime h hsome
    exact ⟨hle, Nat.succ_lt_succ hlt⟩
  have hchanges := changeUpTo_foldl hlife d.allocSize d.allocCount
  have hlength : ((d.changes order).toList.take order.length).length = order.length := by
    have hsize : (d.changes order).size = order.length + 1 := (hchanges 0).1
    simp [hsize]
  refine List.ext_getElem? fun p => ?_
  by_cases hp : p < order.length
  · have hentries : ∑ q ∈ Finset.range (p + 1),
        ((d.changes order).toList.take order.length).getD q 0 = changeUpTo (d.changes order) p := by
      refine Finset.sum_congr rfl fun q hq => ?_
      have hq' : q < order.length := lt_of_lt_of_le (Finset.mem_range.1 hq) hp
      simp [hq']
    unfold profile
    rw [getElem?_runningSums 0 (by omega), hentries, zero_add, List.getElem?_map,
      List.getElem?_range hp]
    exact congrArg some ((hchanges p).2.trans (by simp only [lifetime_eq h]; rfl))
  · rw [List.getElem?_eq_none (by simpa [profile, length_runningSums, hlength] using hp),
      List.getElem?_eq_none (by simpa using hp)]

/-! ## Section 3: Live bytes that fit in a word -/

/-- All allocations of a dependency graph together. -/
def allocBytes (d : DependencyGraph) : Nat := total d.allocSizes.toList

theorem allocBytes_eq_sum : d.allocBytes = ∑ a ∈ Finset.range d.allocCount, d.allocSize a := by
  have hsizes : d.allocSizes.toList = (List.range d.allocCount).map d.allocSize := by
    refine List.ext_getElem (by simp [allocCount]) fun a ha _ => ?_
    have hlt : a < d.allocSizes.size := by simpa using ha
    simp [allocSize, Array.getD_eq_getD_getElem?, hlt]
  unfold allocBytes
  rw [total_eq_sum, hsizes, sum_range_eq]

/-- What is live is a part of all allocations. -/
theorem liveSum_le (d : DependencyGraph) (order : List Nat) (p : Nat) :
    d.liveSum order p ≤ d.allocBytes := by
  rw [allocBytes_eq_sum]
  refine Finset.sum_le_sum fun a _ => ?_
  unfold liveOf
  rw [liveAt_hull]
  split
  · exact Nat.le_refl _
  · exact Nat.zero_le _

/-- Live bytes do not wrap around if all allocations together fit. -/
theorem toWord_liveSum (h : d.allocBytes < signedRange) (order : List Nat) (p : Nat) :
    toWord (d.liveSum order p) = d.liveSum order p := by
  refine toWord_of_lt (lt_of_le_of_lt (liveSum_le d order p) (lt_trans h ?_))
  decide

end DependencyGraph

end Dataflow
