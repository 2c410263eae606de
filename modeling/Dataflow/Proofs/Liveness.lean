import Mathlib.Logic.Equiv.Basic
import Dataflow.Proofs.Exchange
import Dataflow.Proofs.LiveBytes

/-! # Live bytes while neighbours change places

    A `LiveOrder` does not work out its profile again when two neighbours change
    places.  It takes the allocations that the two nodes use out of two
    entries, and puts them back with their new lifetimes.

    This is enough.  A user that moves from `i` to `i + 1` or back is before, or
    after, any other position exactly if it was so all along, and an allocation
    that neither node uses has no user that moves.

    So after any exchanges a live order is what it would be if it were worked
    out from scratch (`LiveOrder.Exact`), with entries that are words and may have
    wrapped around.  If all allocations together fit (`FitsWord`), nothing is ever
    taken out of an entry, a count or the total that is not in it. -/

namespace Dataflow

/-! ## Section 1: Two neighbours change places -/

/-- Moving from `i` to `i + 1` or back leads past no other position. -/
theorem swap_le {i x p : Nat} (hp : p ≠ i) : Equiv.swap i (i + 1) x ≤ p ↔ x ≤ p := by
  rw [Equiv.swap_apply_def]
  split
  · omega
  · split <;> omega

theorem le_swap {i x p : Nat} (hp : p ≠ i + 1) : p ≤ Equiv.swap i (i + 1) x ↔ p ≤ x := by
  rw [Equiv.swap_apply_def]
  split
  · omega
  · split <;> omega

theorem idxOf_of_getElem? {xs : List Nat} (hnodup : xs.Nodup) {x p : Nat} (h : xs[p]? = some x) :
    xs.idxOf x = p := by
  obtain ⟨hlt, rfl⟩ := List.getElem?_eq_some_iff.1 h
  exact hnodup.idxOf_getElem p hlt

namespace LiveOrder

section Exchange

variable {order : Array Nat} {i : Nat}

theorem getElem?_exchange (h : i + 1 < order.size) (p : Nat) :
    (exchange order i)[p]? = order[Equiv.swap i (i + 1) p]? := by
  have hi : i < order.size := Nat.lt_of_succ_lt h
  rw [Equiv.swap_apply_def]
  unfold exchange
  rw [Array.getElem?_setIfInBounds, Array.getElem?_setIfInBounds, Array.size_setIfInBounds]
  by_cases hp : p = i
  · subst hp
    simp [hi, h]
  · by_cases hp' : p = i + 1
    · subst hp'
      simp [hi, h]
    · simp [hp, hp', Ne.symm hp, Ne.symm hp']

theorem perm_exchange (h : i + 1 < order.size) :
    (exchange order i).toList.Perm order.toList := by
  rw [toList_exchange h]
  conv_rhs => rw [split_at h]
  exact (List.Perm.swap _ _ _).append_left _

/-- The two nodes have changed places, and all others are where they were. -/
theorem idxOf_exchange (h : i + 1 < order.size) (hnodup : order.toList.Nodup) {node : Nat}
    (hnode : node ∈ order.toList) :
    (exchange order i).toList.idxOf node = Equiv.swap i (i + 1) (order.toList.idxOf node) := by
  refine idxOf_of_getElem? ((perm_exchange h).nodup_iff.2 hnodup) ?_
  rw [Array.getElem?_toList, getElem?_exchange h, Equiv.swap_apply_self, ← Array.getElem?_toList]
  exact List.getElem?_idxOf hnode

end Exchange

end LiveOrder

namespace DependencyGraph

open LiveOrder (exchange idxOf_exchange perm_exchange)

variable {d : DependencyGraph} {order : Array Nat} {i : Nat}

/-- At any other position an allocation is live as before. -/
theorem liveOf_exchange (h : order.toList.Perm (List.range d.size)) (hi : i + 1 < order.size)
    {p : Nat} (hp : p ≠ i) (hp' : p ≠ i + 1) (a : Nat) :
    d.liveOf (exchange order i).toList p a = d.liveOf order.toList p a := by
  have hmoved : ∀ node ∈ d.users a, (exchange order i).toList.idxOf node
      = Equiv.swap i (i + 1) (order.toList.idxOf node) := fun node hnode =>
    idxOf_exchange hi (nodup_of_perm h) ((mem_of_perm h).2 (mem_users.1 hnode).1)
  unfold liveOf
  rw [liveAt_hull, liveAt_hull]
  have hbefore : (∃ x ∈ (d.users a).map ((exchange order i).toList.idxOf ·), x ≤ p) ↔
      ∃ x ∈ (d.users a).map (order.toList.idxOf ·), x ≤ p := by
    simp only [List.mem_map, exists_exists_and_eq_and]
    refine exists_congr fun node => and_congr_right fun hnode => ?_
    rw [hmoved node hnode, swap_le hp]
  have hafter : (∃ x ∈ (d.users a).map ((exchange order i).toList.idxOf ·), p ≤ x) ↔
      ∃ x ∈ (d.users a).map (order.toList.idxOf ·), p ≤ x := by
    simp only [List.mem_map, exists_exists_and_eq_and]
    refine exists_congr fun node => and_congr_right fun hnode => ?_
    rw [hmoved node hnode, le_swap hp']
  simp only [hbefore, hafter]

/-- An allocation that neither of the two nodes uses is live as before. -/
theorem liveOf_exchange_of_unused (h : order.toList.Perm (List.range d.size))
    (hi : i + 1 < order.size) {a : Nat} (ha : a ∉ d.allocs (order.getD i 0))
    (hb : a ∉ d.allocs (order.getD (i + 1) 0)) (p : Nat) :
    d.liveOf (exchange order i).toList p a = d.liveOf order.toList p a := by
  unfold liveOf
  congr 2
  refine List.map_congr_left fun node hnode => ?_
  obtain ⟨hlt, huses⟩ := mem_users.1 hnode
  have hmem := (mem_of_perm h).2 hlt
  rw [idxOf_exchange hi (nodup_of_perm h) hmem]
  have hplace := List.getElem?_idxOf hmem
  refine Equiv.swap_apply_of_ne_of_ne ?_ ?_
  · intro hat
    rw [hat, Array.getElem?_toList] at hplace
    simp [Array.getD_eq_getD_getElem?, hplace, huses] at ha
  · intro hat
    rw [hat, Array.getElem?_toList] at hplace
    simp [Array.getD_eq_getD_getElem?, hplace, huses] at hb

end DependencyGraph

/-! ## Section 2: The profile is brought up to date -/

theorem nodup_eraseDups (xs : List Nat) : xs.eraseDups.Nodup := by
  induction h : xs.length using Nat.strongRecOn generalizing xs with
  | _ n ih =>
    cases xs with
    | nil => simp
    | cons x rest =>
      rw [List.eraseDups_cons, List.nodup_cons]
      refine ⟨by simp [List.mem_eraseDups], ih _ ?_ _ rfl⟩
      have := List.length_filter_le (fun y => !y == x) rest
      rw [List.length_cons] at h
      omega

namespace LiveOrder

/-- The order is one of all nodes, and the table of positions is its inverse. -/
structure Placed (d : DependencyGraph) (l : LiveOrder) : Prop where
  perm : l.order.toList.Perm (List.range d.size)
  position : ∀ node p : Nat, l.position[node]? = some p ↔ l.order[p]? = some node
  users : l.users = d.userTable

variable {d : DependencyGraph} {l : LiveOrder} {i : Nat}

namespace Placed

theorem size (h : l.Placed d) : l.order.size = d.size := by
  simpa using h.perm.length_eq

theorem getD_position (h : l.Placed d) {node : Nat} (hnode : node < d.size) :
    l.position.getD node 0 = l.order.toList.idxOf node := by
  have hmem := (DependencyGraph.mem_of_perm h.perm).2 hnode
  have hplace := List.getElem?_idxOf hmem
  rw [Array.getElem?_toList] at hplace
  simp [Array.getD_eq_getD_getElem?, (h.position node _).2 hplace]

/-- For an allocation with a user, the table of positions gives the lifetime. -/
theorem bytesAt_eq (h : l.Placed d) {a : Nat} (ha : d.users a ≠ []) (p : Nat) :
    l.bytesAt d p a = d.liveOf l.order.toList p a := by
  unfold bytesAt
  by_cases hlt : a < d.allocCount
  · have husers : l.users.getD a [] = d.users a := by
      simp [h.users, DependencyGraph.userTable, Array.getD_eq_getD_getElem?, hlt]
    have hmap : ((l.users.getD a []).map fun node => l.position.getD node 0)
        = (d.users a).map fun node => l.order.toList.idxOf node := by
      rw [husers]
      exact List.map_congr_left fun node hnode =>
        h.getD_position (DependencyGraph.mem_users.1 hnode).1
    unfold span DependencyGraph.liveOf
    rw [hmap]
    have hne : ((d.users a).map fun node => l.order.toList.idxOf node) ≠ [] := by simpa using ha
    obtain ⟨lo, hi, hhull, -⟩ := DependencyGraph.hull_eq_some hne
    rw [hhull]
    rfl
  · -- beyond the table there is nothing to be live
    have hzero : d.allocSize a = 0 := by
      have hsize : d.allocSizes.size ≤ a := Nat.le_of_not_lt hlt
      simp [DependencyGraph.allocSize, Array.getD_eq_getD_getElem?, hsize]
    have hnone : ∀ life, DependencyGraph.liveAt p life 0 = 0 := by
      intro life
      cases life <;> simp [DependencyGraph.liveAt]
    rw [DependencyGraph.liveOf, hzero, hnone, hnone]

/-- The bytes of some allocations at a position are theirs among all that are
    live there. -/
theorem total_bytesAt (h : l.Placed d) {allocs : List Nat} (hnodup : allocs.Nodup)
    (hused : ∀ a ∈ allocs, d.users a ≠ []) (p : Nat) :
    Dataflow.total (allocs.map (l.bytesAt d p))
      = ∑ a ∈ Finset.range d.allocCount with a ∈ allocs, d.liveOf l.order.toList p a := by
  have hsum : Dataflow.total (allocs.map (l.bytesAt d p))
      = ∑ a ∈ allocs.toFinset, d.liveOf l.order.toList p a := by
    rw [DependencyGraph.total_eq_sum, List.sum_toFinset _ hnodup]
    congr 1
    exact List.map_congr_left fun a ha => h.bytesAt_eq (hused a ha) p
  rw [hsum]
  refine (Finset.sum_subset (fun a ha => ?_) fun a ha hnot => ?_).symm
  · simpa using (Finset.mem_filter.1 ha).2
  · have hbeyond : ¬ a < d.allocCount := by
      intro hlt
      exact hnot (Finset.mem_filter.2 ⟨Finset.mem_range.2 hlt, by simpa using ha⟩)
    have hsize : d.allocSizes.size ≤ a := Nat.le_of_not_lt hbeyond
    have hzero : d.allocSize a = 0 := by
      simp [DependencyGraph.allocSize, Array.getD_eq_getD_getElem?, hsize]
    rw [DependencyGraph.liveOf, DependencyGraph.liveAt_hull, hzero, ite_self]

/-- Some allocations are part of what is live. -/
theorem total_bytesAt_le (h : l.Placed d) {allocs : List Nat} (hnodup : allocs.Nodup)
    (hused : ∀ a ∈ allocs, d.users a ≠ []) (p : Nat) :
    Dataflow.total (allocs.map (l.bytesAt d p)) ≤ d.liveSum l.order.toList p := by
  rw [h.total_bytesAt hnodup hused]
  exact Finset.sum_le_sum_of_subset (Finset.filter_subset _ _)

/-- The two nodes are entered at their new places. -/
theorem exchanged (h : l.Placed d) (hi : i + 1 < d.size) : (l.exchanged i).Placed d := by
  have hsize := h.size
  have hi' : i + 1 < l.order.size := by omega
  have hlt : i < l.order.size := by omega
  have hnodup := DependencyGraph.nodup_of_perm h.perm
  have horder : (l.exchanged i).order = exchange l.order i := rfl
  obtain ⟨a, ha⟩ : ∃ a, l.order[i]? = some a := ⟨_, Array.getElem?_eq_getElem hlt⟩
  obtain ⟨b, hb⟩ : ∃ b, l.order[i + 1]? = some b := ⟨_, Array.getElem?_eq_getElem hi'⟩
  have hga : l.order.getD i 0 = a := by simp [Array.getD_eq_getD_getElem?, ha]
  have hgb : l.order.getD (i + 1) 0 = b := by simp [Array.getD_eq_getD_getElem?, hb]
  -- a node is at one place only
  have hat : ∀ {q node : Nat}, l.order[q]? = some node → ∀ p, l.order[p]? = some node ↔ p = q := by
    intro q node hq p
    refine ⟨fun hp => ?_, fun hp => hp ▸ hq⟩
    rw [← Array.getElem?_toList] at hp hq
    exact (idxOf_of_getElem? hnodup hp).symm.trans (idxOf_of_getElem? hnodup hq)
  have hbound : ∀ {p node : Nat}, l.order[p]? = some node → node < l.position.size := fun hp =>
    (Array.getElem?_eq_some_iff.1 ((h.position _ _).2 hp)).1
  refine ⟨(perm_exchange hi').trans h.perm, fun node p => ?_, h.users⟩
  rw [horder, getElem?_exchange hi']
  show ((l.position.setIfInBounds (l.order.getD i 0) (i + 1)).setIfInBounds
    (l.order.getD (i + 1) 0) i)[node]? = some p ↔ _
  rw [hga, hgb, Array.getElem?_setIfInBounds, Array.getElem?_setIfInBounds,
    Array.size_setIfInBounds, if_pos (hbound ha), if_pos (hbound hb)]
  by_cases hnb : b = node
  · subst hnb
    rw [if_pos rfl, hat hb, Equiv.swap_apply_eq_iff, Equiv.swap_apply_right, Option.some.injEq,
      eq_comm]
  · rw [if_neg hnb]
    by_cases hna : a = node
    · subst hna
      rw [if_pos rfl, hat ha, Equiv.swap_apply_eq_iff, Equiv.swap_apply_left, Option.some.injEq,
        eq_comm]
    · rw [if_neg hna, h.position]
      -- all other nodes stay where they are
      by_cases hp : p = i
      · subst hp
        simp [ha, hb, hna, hnb]
      · by_cases hp' : p = i + 1
        · subst hp'
          simp [ha, hb, hna, hnb]
        · rw [Equiv.swap_apply_of_ne_of_ne hp hp']

/-- The allocations of the two nodes, each of them once. -/
theorem touched_used (h : l.Placed d) (hi : i + 1 < d.size) {a : Nat} (ha : a ∈ l.touched d i) :
    d.users a ≠ [] := by
  have hsize := h.size
  have hnode : ∀ p < l.order.size, l.order.getD p 0 < d.size := by
    intro p hp
    have hmem : l.order.getD p 0 ∈ l.order.toList := by
      simp [Array.getD_eq_getD_getElem?, hp]
    exact (DependencyGraph.mem_of_perm h.perm).1 hmem
  unfold touched at ha
  rw [List.mem_eraseDups, List.mem_append] at ha
  rcases ha with ha | ha
  · exact List.ne_nil_of_mem (DependencyGraph.mem_users.2 ⟨hnode i (by omega), ha⟩)
  · exact List.ne_nil_of_mem (DependencyGraph.mem_users.2 ⟨hnode (i + 1) (by omega), ha⟩)

end Placed

/-- Taking allocations out of a word, one after the other. -/
theorem takeOut_toWord (l : LiveOrder) (pos : Nat) (allocs : List Nat) (level : Int) :
    l.takeOut d pos allocs (toWord level)
      = toWord (level - Dataflow.total (allocs.map (l.bytesAt d pos))) := by
  induction allocs generalizing level with
  | nil => simp [takeOut, Dataflow.total]
  | cons a allocs ih =>
    show l.takeOut d pos allocs (toWord (toWord level - l.bytesAt d pos a)) = _
    rw [toWord_sub, ih, List.map_cons, Dataflow.total, Nat.cast_add, sub_sub]

/-- Putting allocations into a word, one after the other. -/
theorem putIn_toWord (l : LiveOrder) (pos : Nat) (allocs : List Nat) (level : Int) :
    l.putIn d pos allocs (toWord level)
      = toWord (level + Dataflow.total (allocs.map (l.bytesAt d pos))) := by
  induction allocs generalizing level with
  | nil => simp [putIn, Dataflow.total]
  | cons a allocs ih =>
    show l.putIn d pos allocs (toWord (toWord level + l.bytesAt d pos a)) = _
    rw [toWord_add, ih, List.map_cons, Dataflow.total, Nat.cast_add, add_assoc]

/-- **The two entries** are what they are when worked out from scratch. -/
theorem Placed.levelAfter (h : l.Placed d) (hi : i + 1 < d.size) {p : Nat}
    (hprofile : l.profile.getD p 0 = toWord (d.liveSum l.order.toList p)) :
    l.levelAfter d i p = toWord (d.liveSum (exchange l.order i).toList p) := by
  have hi' : i + 1 < l.order.size := by rw [h.size]; exact hi
  have hnodup : (l.touched d i).Nodup := nodup_eraseDups _
  have hold := h.total_bytesAt hnodup (fun a ha => h.touched_used hi ha) p
  have hnew := (h.exchanged hi).total_bytesAt hnodup (fun a ha => h.touched_used hi ha) p
  have hsame : ∑ a ∈ Finset.range d.allocCount with ¬ a ∈ l.touched d i,
      d.liveOf (exchange l.order i).toList p a
      = ∑ a ∈ Finset.range d.allocCount with ¬ a ∈ l.touched d i, d.liveOf l.order.toList p a := by
    refine Finset.sum_congr rfl fun a ha => ?_
    have huntouched := (Finset.mem_filter.1 ha).2
    unfold touched at huntouched
    rw [List.mem_eraseDups, List.mem_append, not_or] at huntouched
    exact DependencyGraph.liveOf_exchange_of_unused h.perm hi' huntouched.1 huntouched.2 p
  have hsplit : _ = d.liveSum l.order.toList p := Finset.sum_filter_add_sum_filter_not
    (Finset.range d.allocCount) (· ∈ l.touched d i) (d.liveOf l.order.toList p)
  have hsplit' : _ = d.liveSum (exchange l.order i).toList p :=
    Finset.sum_filter_add_sum_filter_not (Finset.range d.allocCount) (· ∈ l.touched d i)
      (d.liveOf (exchange l.order i).toList p)
  have horder : (l.exchanged i).order = exchange l.order i := rfl
  rw [horder] at hnew
  show (l.exchanged i).putIn d p (l.touched d i)
    (l.takeOut d p (l.touched d i) (l.profile.getD p 0)) = _
  rw [hprofile, takeOut_toWord, putIn_toWord]
  congr 1
  omega

/-! ## Section 3: Counts and total -/

/-- The levels give for each number how often it occurs, and nothing for a
    number that does not. -/
def Counts (levels : Std.ExtTreeMap Nat Nat) (ns : List Nat) : Prop :=
  ∀ v, levels[v]? = if v ∈ ns then some (ns.count v) else none

namespace Counts

variable {levels : Std.ExtTreeMap Nat Nat} {ns ms : List Nat}

theorem getD (h : Counts levels ns) (v : Nat) : levels.getD v 0 = ns.count v := by
  rw [Std.ExtTreeMap.getD_eq_getD_getElem?, h v]
  split
  · rfl
  · rename_i hv
    exact (List.count_eq_zero.2 hv).symm

theorem perm (h : Counts levels ns) (hperm : ns.Perm ms) : Counts levels ms := fun v => by
  rw [h v, hperm.count_eq v]
  simp only [hperm.mem_iff]

theorem addLevel (h : Counts levels ns) (value : Nat) :
    Counts (addLevel levels value) (value :: ns) := by
  intro v
  unfold LiveOrder.addLevel
  rw [Std.ExtTreeMap.getElem?_insert, h.getD value]
  by_cases hv : v = value
  · subst hv
    simp
  · simp [h v, hv, Ne.symm hv]

theorem dropLevel {value : Nat} (h : Counts levels (value :: ns)) :
    Counts (dropLevel levels value) ns := by
  intro v
  have hcount : levels.getD value 0 = ns.count value + 1 := by
    rw [h.getD value, List.count_cons_self]
  unfold LiveOrder.dropLevel
  simp only [hcount]
  by_cases hv : v = value
  · subst hv
    by_cases hmem : v ∈ ns
    · have hpos := List.count_pos_iff.2 hmem
      rw [if_pos (by omega)]
      simp [hmem]
    · rw [if_neg (by rw [List.count_eq_zero.2 hmem]; omega)]
      simp [hmem]
  · have hrest : levels[v]? = if v ∈ ns then some (ns.count v) else none := by
      rw [h v]
      simp [hv, Ne.symm hv]
    split
    · simp [Std.ExtTreeMap.getElem?_insert, Ne.symm hv, hrest]
    · simp [Std.ExtTreeMap.getElem?_erase, Ne.symm hv, hrest]

/-- Counting the numbers one by one. -/
theorem foldl_addLevel (h : Counts levels ns) (ms : List Nat) :
    Counts (ms.foldl LiveOrder.addLevel levels) (ms ++ ns) := by
  induction ms generalizing levels ns with
  | nil => exact h
  | cons m ms ih => exact (ih (h.addLevel m)).perm List.perm_middle

theorem empty : Counts ∅ [] := fun v => by simp

/-- The largest number that is counted. -/
theorem maxKey? (h : Counts levels ns) : levels.maxKey?.getD 0 = DependencyGraph.peak ns := by
  have hmem : ∀ v, v ∈ levels ↔ v ∈ ns := by
    intro v
    rw [Std.ExtTreeMap.mem_iff_isSome_getElem?, h v]
    by_cases hv : v ∈ ns <;> simp [hv]
  cases hmax : levels.maxKey? with
  | none =>
    rw [Std.ExtTreeMap.maxKey?_eq_none_iff] at hmax
    have hnil : ns = [] := List.eq_nil_iff_forall_not_mem.2 fun v hv => by
      simpa [hmax] using (hmem v).2 hv
    rw [hnil]
    rfl
  | some top =>
    obtain ⟨htop, hbelow⟩ := Std.ExtTreeMap.maxKey?_eq_some_iff_mem_and_forall.1 hmax
    refine Nat.le_antisymm ?_ (DependencyGraph.peak_le_iff.2 fun v hv => ?_)
    · exact DependencyGraph.peak_le_iff.1 (Nat.le_refl _) top ((hmem top).1 htop)
    · exact Nat.isLE_compare.1 (hbelow v ((hmem v).2 hv))

end Counts

/-- The levels count the entries of the profile, and the total is the word that
    their sum wraps around to. -/
structure Tallied (l : LiveOrder) : Prop where
  levels : Counts l.levels l.profile.toList
  total : l.total = wordTotal l.profile.toList

theorem total_perm {ns ms : List Nat} (h : ns.Perm ms) : Dataflow.total ns = Dataflow.total ms := by
  rw [DependencyGraph.total_eq_sum, DependencyGraph.total_eq_sum, h.sum_eq]

theorem setLevel_of_eq {pos value : Nat} (h : l.profile.getD pos 0 = value) :
    l.setLevel pos value = l := if_pos h

theorem setLevel_of_ne {pos value : Nat} (h : l.profile.getD pos 0 ≠ value) :
    l.setLevel pos value = { l with
      profile := l.profile.setIfInBounds pos value
      levels := addLevel (dropLevel l.levels (l.profile.getD pos 0)) value
      total := toWord ((toWord ((l.total : Int) - l.profile.getD pos 0) : Int) + value) } :=
  if_neg h

theorem profile_setLevel (l : LiveOrder) (pos value : Nat) :
    (l.setLevel pos value).profile = l.profile.setIfInBounds pos value := by
  by_cases h : l.profile.getD pos 0 = value
  · rw [setLevel_of_eq h]
    refine Array.ext (by simp) fun p hp _ => ?_
    rw [Array.getElem_setIfInBounds]
    split
    · rename_i hpos
      subst hpos
      simpa [Array.getD_eq_getD_getElem?, hp] using h
    · rfl
  · rw [setLevel_of_ne h]

/-- Replacing an entry moves no node. -/
theorem Placed.setLevel (h : l.Placed d) (pos value : Nat) : (l.setLevel pos value).Placed d := by
  by_cases hsame : l.profile.getD pos 0 = value
  · rw [setLevel_of_eq hsame]
    exact h
  · rw [setLevel_of_ne hsame]
    exact ⟨h.perm, h.position, h.users⟩

namespace Tallied

variable {pos : Nat}

/-- The profile as one of its entries and the others. -/
theorem perm_profile (hpos : pos < l.profile.size) :
    l.profile.toList.Perm (l.profile.getD pos 0 :: l.profile.toList.eraseIdx pos) := by
  have hentry : l.profile.getD pos 0 = l.profile.toList[pos] := by
    simp [Array.getD_eq_getD_getElem?, hpos]
  rw [hentry]
  exact (List.getElem_cons_eraseIdx_perm (by simpa using hpos)).symm

/-- **Replacing an entry** keeps the count and the total. -/
theorem setLevel (h : l.Tallied) (hpos : pos < l.profile.size) (value : Nat) :
    (l.setLevel pos value).Tallied := by
  by_cases hsame : l.profile.getD pos 0 = value
  · rw [setLevel_of_eq hsame]
    exact h
  have hperm := perm_profile hpos
  have hset : (value :: l.profile.toList.eraseIdx pos).Perm
      (l.setLevel pos value).profile.toList := by
    rw [profile_setLevel, Array.toList_setIfInBounds]
    exact (List.set_perm_cons_eraseIdx (by simpa using hpos) value).symm
  refine ⟨Counts.perm ?_ hset, ?_⟩
  · rw [setLevel_of_ne hsame]
    exact (h.levels.perm hperm).dropLevel.addLevel value
  · rw [wordTotal, ← total_perm hset, setLevel_of_ne hsame]
    show toWord ((toWord ((l.total : Int) - l.profile.getD pos 0) : Int) + value) = _
    rw [h.total, wordTotal, toWord_sub, toWord_add, total_perm hperm, Dataflow.total,
      Dataflow.total]
    congr 1
    omega

end Tallied

/-! ## Section 4: Every live order is exact -/

/-- A live order is what it would be if it were worked out from scratch. -/
structure Exact (d : DependencyGraph) (l : LiveOrder) : Prop extends
    l.Placed d, l.Tallied where
  profile : l.profile.toList = d.profile l.order.toList

/-- A profile is exact if each of its entries is. -/
theorem Placed.profile_eq (h : l.Placed d) (hsize : l.profile.size = d.size) :
    l.profile.toList = d.profile l.order.toList ↔
      ∀ p < d.size, l.profile.getD p 0 = toWord (d.liveSum l.order.toList p) := by
  rw [DependencyGraph.profile_eq h.perm]
  constructor
  · intro hprofile p hp
    have hentry : l.profile.toList[p]? = _ := congrArg (·[p]?) hprofile
    rw [List.getElem?_map, List.getElem?_range (by simpa [h.size]), Array.getElem?_toList] at hentry
    simp [Array.getD_eq_getD_getElem?, hentry]
  · intro hentries
    refine List.ext_getElem (by simp [hsize, h.size]) fun p hp _ => ?_
    have hlt : p < l.profile.size := by simpa using hp
    have hentry := hentries p (hsize ▸ hlt)
    simpa [Array.getD_eq_getD_getElem?, hlt] using hentry

namespace Exact

theorem ofOrder {order : List Nat} (h : order.Perm (List.range d.size)) :
    (LiveOrder.ofOrder d order).Exact d := by
  have hlevels : Counts ((d.profile order).foldl addLevel ∅) (d.profile order) := by
    simpa using Counts.empty.foldl_addLevel (d.profile order)
  refine ⟨⟨by simpa [LiveOrder.ofOrder] using h, fun node p => ?_, rfl⟩, ⟨hlevels, rfl⟩, rfl⟩
  have hnodup := DependencyGraph.nodup_of_perm h
  have hplace : (LiveOrder.ofOrder d order).position[node]? = _ :=
    DependencyGraph.getElem?_place (fun pos => pos) hnodup (Array.replicate d.size 0) 0 node
  have hlist : (LiveOrder.ofOrder d order).order[p]? = order[p]? := List.getElem?_toArray
  rw [hplace, hlist]
  by_cases hnode : node < d.size
  · have hmem := (DependencyGraph.mem_of_perm h).2 hnode
    simp only [hmem, Array.size_replicate, hnode, and_self, if_true, Nat.add_zero,
      Option.some.injEq]
    exact ⟨fun hp => hp ▸ List.getElem?_idxOf hmem, fun hp => idxOf_of_getElem? hnodup hp⟩
  · have hmem : node ∉ order := fun hmem => hnode ((DependencyGraph.mem_of_perm h).1 hmem)
    have habsent : order[p]? ≠ some node := fun hp => hmem (List.mem_of_getElem? hp)
    simp [hmem, hnode, habsent]

theorem size_profile (h : l.Exact d) : l.profile.size = d.size := by
  have hlen := congrArg List.length h.profile
  rw [DependencyGraph.profile_eq h.perm] at hlen
  simpa [h.size] using hlen

theorem getD_profile (h : l.Exact d) {p : Nat} (hp : p < d.size) :
    l.profile.getD p 0 = toWord (d.liveSum l.order.toList p) :=
  (h.toPlaced.profile_eq h.size_profile).1 h.profile p hp

/-- **An exchange** keeps a live order exact. -/
theorem swap (h : l.Exact d) (hi : i + 1 < d.size) : (l.swap d i).Exact d := by
  have hsize := h.size_profile
  have hexchanged := h.toPlaced.exchanged hi
  have htallied : (l.exchanged i).Tallied := ⟨h.levels, h.total⟩
  have hplaced : (l.swap d i).Placed d := (hexchanged.setLevel _ _).setLevel _ _
  have hprofile : (l.swap d i).profile
      = (l.profile.setIfInBounds i (l.levelAfter d i i)).setIfInBounds (i + 1)
        (l.levelAfter d i (i + 1)) := by
    unfold LiveOrder.swap
    rw [profile_setLevel, profile_setLevel]
    rfl
  have hsize' : (l.swap d i).profile.size = d.size := by simp [hprofile, hsize]
  refine ⟨hplaced, ?_, (hplaced.profile_eq hsize').2 fun p hp => ?_⟩
  · refine (htallied.setLevel ?_ _).setLevel ?_ _
    · show i < l.profile.size
      omega
    · rw [profile_setLevel, Array.size_setIfInBounds]
      show i + 1 < l.profile.size
      omega
  · have hi' : i + 1 < l.order.size := h.size ▸ hi
    have hlevel := h.toPlaced.levelAfter hi (h.getD_profile hp)
    rw [hprofile, order_swap, Array.getD_eq_getD_getElem?, Array.getElem?_setIfInBounds,
      Array.getElem?_setIfInBounds, Array.size_setIfInBounds]
    by_cases hp' : i + 1 = p
    · subst hp'
      simp [hsize, hi, hlevel]
    · by_cases hpi : i = p
      · subst hpi
        simp [hsize, hp, hlevel]
      · -- everywhere else the entry is kept, and rightly so
        have hsame : d.liveSum (exchange l.order i).toList p = d.liveSum l.order.toList p :=
          Finset.sum_congr rfl fun a _ =>
            DependencyGraph.liveOf_exchange h.perm hi' (Ne.symm hpi) (Ne.symm hp') a
        rw [if_neg hp', if_neg hpi, ← Array.getD_eq_getD_getElem?, h.getD_profile hp, hsame]

theorem objective (h : l.Exact d) :
    l.objective = ⟨DependencyGraph.peak (d.profile l.order.toList),
      wordTotal (d.profile l.order.toList)⟩ := by
  unfold LiveOrder.objective
  rw [h.levels.maxKey?, h.total, h.profile]

/-- **Any number of exchanges** keeps a live order exact, and gives the order
    in which these neighbours have changed places. -/
theorem swaps {swaps : List Nat} (hswaps : ∀ i ∈ swaps, i + 1 < d.size) (h : l.Exact d) :
    (swaps.foldl (LiveOrder.swap d) l).Exact d ∧
    (swaps.foldl (LiveOrder.swap d) l).order = swaps.foldl exchange l.order := by
  induction swaps generalizing l with
  | nil => exact ⟨h, rfl⟩
  | cons i swaps ih =>
    obtain ⟨hi, hrest⟩ := List.forall_mem_cons.1 hswaps
    obtain ⟨hexact, horder⟩ := ih hrest (h.swap hi)
    exact ⟨hexact, by rw [List.foldl_cons, horder, order_swap, List.foldl_cons]⟩

end Exact

end LiveOrder

end Dataflow
