import Dataflow.Proofs.LiveBytes
import Dataflow.Proofs.Reachability

/-! # What live bytes mean for a graph

    A dependency graph knows allocations by number only.  They are numbered
    while the ops of a graph are looked at one after another: a tensor that is
    not trained state gets the next number when it is met for the first time.

    So the table of allocations is a list of tensors without repetition
    (`AllocTable.Lists`), and looking at further ops only makes it longer.  With
    the list at hand the numbers can be forgotten: a node uses the tensors that
    its op occupies, each of them once (`Graph.Uses`), and the live bytes at a
    position are the bytes of the tensors that are occupied there or before, and
    there or after. -/

namespace Dataflow.Graph

/-! ## Section 1: Tensors that take up memory -/

/-- The bytes of a tensor, none if it is not there. -/
def bytesOf (g : Graph) (t : TensorId) : Nat := ((g.tensor? t).map Tensor.bytes).getD 0

/-- A tensor that is not trained state. -/
def IsBuffer (g : Graph) (t : TensorId) : Prop := (g.tensor? t).isSome ∧ g.kind? t ≠ some .var

instance (g : Graph) (t : TensorId) : Decidable (g.IsBuffer t) :=
  inferInstanceAs (Decidable (_ ∧ _))

/-- Op number `op` occupies `t`: it has `t` at an output, or at an input that it
    does not overwrite. -/
def Occupies (g : Graph) (op : OpId) (t : TensorId) : Prop :=
  ∃ o, g.op? op = some o ∧ ((∃ i, o.outputs.get? i = some t) ∨
    ∃ i, o.inputs.get? i = some t ∧ o.operator.modifies i = false)

theorem mem_touched {o : Op} {t : TensorId} : t ∈ touched o ↔ (∃ i, o.outputs.get? i = some t) ∨
    ∃ i, o.inputs.get? i = some t ∧ o.operator.modifies i = false := by
  simp only [touched, List.mem_map, List.mem_append, List.mem_filter, Prod.exists,
    Ports.mem_toList, Bool.not_eq_true']
  constructor
  · rintro ⟨i, t', hi | hi, rfl⟩
    · exact .inr ⟨i, hi⟩
    · exact .inl ⟨i, hi⟩
  · rintro (⟨i, hi⟩ | ⟨i, hi⟩)
    · exact ⟨i, t, .inr hi, rfl⟩
    · exact ⟨i, t, .inl hi, rfl⟩

theorem occupies_iff {g : Graph} {op : OpId} {t : TensorId} :
    g.Occupies op t ↔ ∃ o ∈ g.op? op, t ∈ touched o :=
  exists_congr fun _ => and_congr_right fun _ => mem_touched.symm

instance (g : Graph) (op : OpId) (t : TensorId) : Decidable (g.Occupies op t) :=
  decidable_of_iff _ occupies_iff.symm

/-- At position `p` of an order, `t` is live: some op at `p` or before occupies
    it, and some op at `p` or after. -/
def LiveAt (g : Graph) (d : DependencyGraph) (order : List Nat) (p : Nat) (t : TensorId) : Prop :=
  (∃ op ∈ d.opsIn (order.take (p + 1)), g.Occupies op t) ∧
    ∃ op ∈ d.opsIn (order.drop p), g.Occupies op t

instance (g : Graph) (d : DependencyGraph) (order : List Nat) (p : Nat) (t : TensorId) :
    Decidable (g.LiveAt d order p t) :=
  inferInstanceAs (Decidable (_ ∧ _))

/-! ## Section 2: Numbering -/

/-- The table numbers the tensors of a list by their places. -/
structure AllocTable.Lists (g : Graph) (table : AllocTable) (ids : List TensorId) : Prop where
  nodup : ids.Nodup
  numbers : ∀ (t : TensorId) (n : Nat), table.numbers[t]? = some n ↔ ids[n]? = some t
  sizes : table.sizes.toList = ids.map g.bytesOf

/-- The allocations of the buffers among some tensors, each of them once. -/
structure Uses (g : Graph) (ids tensors : List TensorId) (allocs : List Nat) : Prop where
  nodup : allocs.Nodup
  mem_iff : ∀ n, n ∈ allocs ↔ ∃ t ∈ tensors, g.IsBuffer t ∧ ids[n]? = some t
  listed : ∀ t ∈ tensors, g.IsBuffer t → t ∈ ids

variable {g : Graph} {ids : List TensorId}

theorem AllocTable.lists_empty (g : Graph) : AllocTable.Lists g {} [] :=
  ⟨.nil, by simp, rfl⟩

/-- A tensor that is not listed yet is listed last. -/
theorem AllocTable.Lists.number {table : AllocTable} (h : table.Lists g ids) {t : TensorId}
    {x : Tensor} (ht : g.tensor? t = some x) : ∃ more,
    (table.number t x.bytes).2.Lists g (ids ++ more) ∧
      (ids ++ more)[(table.number t x.bytes).1]? = some t := by
  unfold AllocTable.number
  cases hn : table.numbers[t]? with
  | some n => exact ⟨[], by simpa using h, by simpa using (h.numbers t n).1 hn⟩
  | none =>
    have hnew : t ∉ ids := fun hmem => by
      obtain ⟨n, hn'⟩ := List.mem_iff_getElem?.1 hmem
      rw [(h.numbers t n).2 hn'] at hn
      cases hn
    have hsize : table.sizes.size = ids.length := by
      simpa using congrArg List.length h.sizes
    refine ⟨[t], ⟨?_, fun u n => ?_, ?_⟩, ?_⟩
    · simpa using List.Nodup.concat hnew h.nodup
    · rw [Std.ExtTreeMap.getElem?_insert, hsize]
      by_cases hu : t = u
      · subst hu
        have hold : ids[n]? ≠ some t := fun hmem => hnew (List.mem_of_getElem? hmem)
        rw [if_pos Std.ReflCmp.compare_self, Option.some.injEq, List.getElem?_append]
        grind
      · rw [if_neg (by simpa using hu), h.numbers, List.getElem?_append]
        grind
    · simp [h.sizes, bytesOf, ht]
    · simp [hsize]

/-- Looking at more tensors does not change what has been numbered. -/
theorem Uses.append {tensors more : List TensorId} {allocs : List Nat}
    (h : g.Uses ids tensors allocs) (hnodup : (ids ++ more).Nodup) :
    g.Uses (ids ++ more) tensors allocs where
  nodup := h.nodup
  mem_iff n := by
    rw [h.mem_iff]
    refine exists_congr fun t => and_congr_right fun ht => and_congr_right fun hbuffer => ?_
    constructor
    · intro hn
      rw [List.getElem?_append_left (List.getElem?_eq_some_iff.1 hn).1, hn]
    · intro hn
      -- the tensor is listed before, and only once
      obtain ⟨m, hm⟩ := List.mem_iff_getElem?.1 (h.listed t ht hbuffer)
      have hm' : (ids ++ more)[m]? = some t := by
        rw [List.getElem?_append_left (List.getElem?_eq_some_iff.1 hm).1, hm]
      have hplace : m = n := (List.getElem?_inj (List.getElem?_eq_some_iff.1 hm').1 hnodup).1
        (hm'.trans hn.symm)
      exact hplace ▸ hm
  listed t ht hbuffer := List.mem_append_left _ (h.listed t ht hbuffer)

/-- One more tensor, which takes up no memory of its own. -/
theorem Uses.skip {tensors : List TensorId} {allocs : List Nat} (h : g.Uses ids tensors allocs)
    {t : TensorId} (ht : ¬ g.IsBuffer t) : g.Uses ids (tensors ++ [t]) allocs := by
  have hold : ∀ u ∈ tensors ++ [t], g.IsBuffer u → u ∈ tensors := by
    intro u hu hbuffer
    rcases List.mem_append.1 hu with hu | hu
    · exact hu
    · exact absurd (List.mem_singleton.1 hu ▸ hbuffer) ht
  refine ⟨h.nodup, fun n => ?_, fun u hu hbuffer => h.listed u (hold u hu hbuffer) hbuffer⟩
  rw [h.mem_iff]
  constructor
  · rintro ⟨u, hu, hbuffer, hn⟩
    exact ⟨u, List.mem_append_left _ hu, hbuffer, hn⟩
  · rintro ⟨u, hu, hbuffer, hn⟩
    exact ⟨u, hold u hu hbuffer, hbuffer, hn⟩

/-- One more tensor, whose allocation is added unless it is there already. -/
theorem Uses.insert {tensors : List TensorId} {allocs : List Nat} (h : g.Uses ids tensors allocs)
    (hnodup : ids.Nodup) {t : TensorId} (ht : g.IsBuffer t) {n : Nat} (hn : ids[n]? = some t) :
    g.Uses ids (tensors ++ [t]) (if allocs.contains n then allocs else allocs ++ [n]) := by
  have hmem : ∀ m, m ∈ (if allocs.contains n then allocs else allocs ++ [n]) ↔
      m ∈ allocs ∨ m = n := by
    intro m
    split
    · rename_i hin
      have hin' : n ∈ allocs := by simpa using hin
      exact ⟨.inl, fun hm => hm.elim id fun heq => heq ▸ hin'⟩
    · simp
  have hplace : ∀ m, ids[m]? = some t ↔ m = n := by
    intro m
    refine ⟨fun hm => ?_, fun heq => heq ▸ hn⟩
    exact (List.getElem?_inj (List.getElem?_eq_some_iff.1 hm).1 hnodup).1 (hm.trans hn.symm)
  refine ⟨?_, fun m => ?_, fun u hu hbuffer => ?_⟩
  · split
    · exact h.nodup
    · rename_i hout
      have hout' : n ∉ allocs := by simpa using hout
      simpa using List.Nodup.concat hout' h.nodup
  · rw [hmem, h.mem_iff]
    constructor
    · rintro (⟨u, hu, hbuffer, hm⟩ | rfl)
      · exact ⟨u, List.mem_append_left _ hu, hbuffer, hm⟩
      · exact ⟨t, by simp, ht, hn⟩
    · rintro ⟨u, hu, hbuffer, hm⟩
      rcases List.mem_append.1 hu with hu | hu
      · exact .inl ⟨u, hu, hbuffer, hm⟩
      · cases List.mem_singleton.1 hu
        exact .inr ((hplace m).1 hm)
  · rcases List.mem_append.1 hu with hu | hu
    · exact h.listed u hu hbuffer
    · cases List.mem_singleton.1 hu
      exact List.mem_of_getElem? hn

/-- **The tensors of one op** are looked at one by one. -/
theorem Uses.allocsOf {op : OpId} {rest seen : List TensorId} {allocs allocs' : List Nat}
    {table table' : AllocTable} (hlists : table.Lists g ids) (h : g.Uses ids seen allocs)
    (hrun : g.allocsOf op rest allocs table = .ok (allocs', table')) :
    ∃ more, table'.Lists g (ids ++ more) ∧ g.Uses (ids ++ more) (seen ++ rest) allocs' := by
  induction rest generalizing ids seen allocs table with
  | nil =>
    cases hrun
    exact ⟨[], by simpa using hlists, by simpa using h⟩
  | cons t rest ih =>
    unfold Graph.allocsOf at hrun
    cases hx : g.tensor? t with
    | none =>
      rw [hx] at hrun
      cases hrun
    | some x =>
      rw [hx] at hrun
      simp only at hrun
      split at hrun
      · rename_i hvar
        have hnot : ¬ g.IsBuffer t := fun hbuffer => hbuffer.2 (by simp [kind?, hx, hvar])
        obtain ⟨more, hmore, huses⟩ := ih hlists (h.skip hnot) hrun
        exact ⟨more, hmore, by simpa using huses⟩
      · rename_i hkind
        have hbuffer : g.IsBuffer t := ⟨by simp [hx], by simpa [kind?, hx] using hkind⟩
        obtain ⟨first, hfirst, hplace⟩ := hlists.number hx
        obtain ⟨more, hmore, huses⟩ :=
          ih hfirst ((h.append hfirst.nodup).insert hfirst.nodup hbuffer hplace) hrun
        exact ⟨first ++ more, by simpa using hmore, by simpa using huses⟩

/-- **The nodes of all ops**, one after another. -/
theorem opNodes_uses {ops : List (OpId × Op)} {table table' : AllocTable} {nodes : List Node}
    (hlists : table.Lists g ids) (hrun : g.opNodes ops table = .ok (nodes, table')) :
    ∃ more, table'.Lists g (ids ++ more) ∧ List.Forall₂ (fun x node =>
      node.op? = some x.1 ∧ g.Uses (ids ++ more) (touched x.2) node.allocs) ops nodes := by
  induction ops generalizing ids table nodes with
  | nil =>
    cases hrun
    exact ⟨[], by simpa using hlists, .nil⟩
  | cons x rest ih =>
    obtain ⟨⟨allocs, table₁⟩, hallocs, hrun⟩ := except_bind_eq_ok.1 hrun
    obtain ⟨⟨later, table₂⟩, hrest, hrun⟩ := except_bind_eq_ok.1 hrun
    cases hrun
    have hnone : g.Uses ids [] [] := ⟨.nil, by simp, by simp⟩
    obtain ⟨first, hfirst, huses⟩ := hnone.allocsOf hlists hallocs
    obtain ⟨more, hmore, hlater⟩ := ih hfirst hrest
    rw [List.append_assoc] at hmore hlater
    refine ⟨first ++ more, hmore, .cons ⟨rfl, ?_⟩ hlater⟩
    have hnodup : ((ids ++ first) ++ more).Nodup := by simpa using hmore.nodup
    simpa using huses.append hnodup

/-! ## Section 3: The allocations of a dependency graph -/

/-- The allocations of a dependency graph are the tensors of a list, and a node
    uses those that its op occupies.  Barriers use none. -/
structure Allocation (g : Graph) (d : DependencyGraph) (ids : List TensorId) : Prop where
  nodup : ids.Nodup
  sizes : d.allocSizes.toList = ids.map g.bytesOf
  node : ∀ n ∈ d.nodes.toList, (n.op? = none ∧ n.allocs = []) ∨
    ∃ op o, n.op? = some op ∧ g.op? op = some o ∧ g.Uses ids (touched o) n.allocs

variable {d : DependencyGraph} {extra : ExtraOrder} {options : ScheduleOptions}

theorem exists_allocation (h : g.dependencies extra options = .ok d) :
    ∃ ids, g.Allocation d ids := by
  unfold dependencies at h
  obtain ⟨⟨nodes, table⟩, hnodes, h⟩ := except_bind_eq_ok.1 h
  obtain ⟨further, -, h⟩ := except_bind_eq_ok.1 h
  obtain ⟨ids, hlists, huses⟩ := opNodes_uses (AllocTable.lists_empty g) hnodes
  rw [List.nil_append] at hlists huses
  have hnode : ∀ n ∈ nodes, ∃ op o, n.op? = some op ∧ g.op? op = some o ∧
      g.Uses ids (touched o) n.allocs := by
    intro n hn
    obtain ⟨⟨op, o⟩, hmem, hop, huse⟩ := forall₂_mem_right huses hn
    exact ⟨op, o, hop, Std.ExtTreeMap.mem_toList_iff_getElem?_eq_some.1 hmem, huse⟩
  split at h
  · obtain ⟨bins, -, h⟩ := except_bind_eq_ok.1 h
    cases h
    refine ⟨ids, hlists.nodup, hlists.sizes, fun n hn => ?_⟩
    rcases List.mem_append.1 hn with hn | hn
    · obtain ⟨⟨m, bin⟩, hzip, rfl⟩ := List.mem_map.1 hn
      exact .inr (hnode m (List.of_mem_zip hzip).1)
    · obtain ⟨k, -, rfl⟩ := List.mem_map.1 hn
      exact .inl ⟨rfl, rfl⟩
  · cases h
    exact ⟨ids, hlists.nodup, hlists.sizes, fun n hn => .inr (hnode n hn)⟩

namespace Allocation

theorem nodup_allocs (h : g.Allocation d ids) (node : Nat) : (d.allocs node).Nodup := by
  unfold DependencyGraph.allocs
  cases hn : d.nodes[node]? with
  | none => exact .nil
  | some n =>
    rcases h.node n (Array.mem_toList_iff.2 (Array.mem_of_getElem? hn)) with
      ⟨-, hnil⟩ | ⟨_, _, _, _, huses⟩
    · simp [hnil]
    · exact huses.nodup

/-- **What a node uses**: the buffers that its op occupies. -/
theorem mem_allocs (h : g.Allocation d ids) {node a : Nat} : a ∈ d.allocs node ↔
    ∃ op ∈ d.op? node, ∃ t, g.Occupies op t ∧ g.IsBuffer t ∧ ids[a]? = some t := by
  unfold DependencyGraph.allocs DependencyGraph.op?
  cases hn : d.nodes[node]? with
  | none => simp
  | some n =>
    rcases h.node n (Array.mem_toList_iff.2 (Array.mem_of_getElem? hn)) with
      ⟨hop, hnil⟩ | ⟨op, o, hop, ho, huses⟩
    · simp [hop, hnil]
    · simp [hop, occupies_iff, ho, huses.mem_iff]

theorem mem_of_occupies (h : g.Allocation d ids) {node : Nat} {op : OpId} {t : TensorId}
    (hop : d.op? node = some op) (hocc : g.Occupies op t) (hbuffer : g.IsBuffer t) : t ∈ ids := by
  obtain ⟨n, hn, hnop⟩ := Option.bind_eq_some_iff.1 hop
  rcases h.node n (Array.mem_toList_iff.2 (Array.mem_of_getElem? hn)) with
    ⟨hnone, -⟩ | ⟨op', o, hop', ho, huses⟩
  · rw [hnone] at hnop
    cases hnop
  · cases hop'.symm.trans hnop
    obtain ⟨o', ho', htouched⟩ := occupies_iff.1 hocc
    cases ho.symm.trans ho'
    exact huses.listed t htouched hbuffer

end Allocation

/-- In a list without repetition, what is left after `p` entries is what has a
    position from `p` on. -/
theorem mem_drop_iff_le_idxOf {order : List Nat} (hnodup : order.Nodup) {node p : Nat}
    (hnode : node ∈ order) : node ∈ order.drop p ↔ p ≤ order.idxOf node := by
  have hdisjoint := List.disjoint_take_drop hnodup (Nat.le_refl p)
  have hsplit : node ∈ order.take p ∨ node ∈ order.drop p := by
    rw [← List.mem_append, List.take_append_drop]
    exact hnode
  rw [← not_lt, ← List.mem_take_iff_idxOf_lt hnode]
  exact ⟨fun hdrop htake => hdisjoint htake hdrop, fun htake => hsplit.resolve_left htake⟩

/-- **An allocation is live** where its tensor is. -/
theorem Allocation.liveOf_eq (h : g.Allocation d ids) {order : List Nat}
    (hperm : order.Perm (List.range d.size)) {a : Nat} {t : TensorId} (ha : ids[a]? = some t)
    (p : Nat) : d.liveOf order p a =
      if g.IsBuffer t ∧ g.LiveAt d order p t then g.bytesOf t else 0 := by
  have hsize : d.allocSize a = g.bytesOf t := by
    have hget : d.allocSizes.toList[a]? = some (g.bytesOf t) := by simp [h.sizes, ha]
    rw [Array.getElem?_toList] at hget
    simp [DependencyGraph.allocSize, Array.getD_eq_getD_getElem?, hget]
  -- a user at a place of some kind is an op there that occupies the tensor
  have husers : ∀ (place : Nat → Prop) (part : List Nat),
      (∀ node ∈ order, node ∈ part ↔ place (order.idxOf node)) → (∀ node ∈ part, node ∈ order) →
      ((∃ x ∈ (d.users a).map fun node => order.idxOf node, place x) ↔
        g.IsBuffer t ∧ ∃ op ∈ d.opsIn part, g.Occupies op t) := by
    intro place part hplace hpart
    simp only [List.mem_map, exists_exists_and_eq_and, DependencyGraph.mem_users, h.mem_allocs,
      DependencyGraph.opsIn, List.mem_filterMap]
    constructor
    · rintro ⟨node, ⟨hlt, op, hop, u, hocc, hbuffer, hu⟩, hx⟩
      cases ha.symm.trans hu
      have hnode := (DependencyGraph.mem_of_perm hperm).2 hlt
      exact ⟨hbuffer, op, ⟨node, (hplace node hnode).2 hx, hop⟩, hocc⟩
    · rintro ⟨hbuffer, op, ⟨node, hnode, hop⟩, hocc⟩
      have hmem := hpart node hnode
      exact ⟨node, ⟨(DependencyGraph.mem_of_perm hperm).1 hmem, op, hop, t, hocc, hbuffer, ha⟩,
        (hplace node hmem).1 hnode⟩
  have hbefore := husers (· ≤ p) (order.take (p + 1))
    (fun node hnode => (List.mem_take_iff_idxOf_lt hnode).trans Nat.lt_succ_iff)
    (fun node hnode => List.mem_of_mem_take hnode)
  have hafter := husers (p ≤ ·) (order.drop p)
    (fun node hnode => mem_drop_iff_le_idxOf (DependencyGraph.nodup_of_perm hperm) hnode)
    (fun node hnode => List.mem_of_mem_drop hnode)
  unfold DependencyGraph.liveOf
  rw [DependencyGraph.liveAt_hull, hsize]
  refine if_congr ?_ rfl rfl
  rw [hbefore, hafter, LiveAt]
  tauto

/-- The bytes of the tensors that are live at position `p` of an order. -/
def liveBytes (g : Graph) (d : DependencyGraph) (order : List Nat) (p : Nat) : Nat :=
  ∑ t ∈ g.tensorIds.toFinset with g.IsBuffer t ∧ g.LiveAt d order p t, g.bytesOf t

/-- The bytes of all tensors that are not trained state. -/
def bufferBytes (g : Graph) : Nat := ∑ t ∈ g.tensorIds.toFinset with g.IsBuffer t, g.bytesOf t

/-- **The live allocations** are the live tensors. -/
theorem Allocation.liveSum_eq (h : g.Allocation d ids) {order : List Nat}
    (hperm : order.Perm (List.range d.size)) (p : Nat) :
    d.liveSum order p = g.liveBytes d order p := by
  have hcount : d.allocCount = ids.length := by
    simpa [DependencyGraph.allocCount] using congrArg List.length h.sizes
  calc ∑ a ∈ Finset.range d.allocCount, d.liveOf order p a
      = ((List.range ids.length).map fun a => d.liveOf order p a).sum := by
        rw [hcount, DependencyGraph.sum_range_eq]
    _ = (ids.map fun t => if g.IsBuffer t ∧ g.LiveAt d order p t then g.bytesOf t else 0).sum := by
        congr 1
        refine List.ext_getElem (by simp) fun a ha _ => ?_
        have hlt : a < ids.length := by simpa using ha
        simpa using h.liveOf_eq hperm (List.getElem?_eq_getElem hlt) p
    _ = ∑ t ∈ ids.toFinset, if g.IsBuffer t ∧ g.LiveAt d order p t then g.bytesOf t else 0 :=
        (List.sum_toFinset _ h.nodup).symm
    _ = ∑ t ∈ g.tensorIds.toFinset with g.IsBuffer t ∧ g.LiveAt d order p t, g.bytesOf t := by
        rw [← Finset.sum_filter]
        refine Finset.sum_congr (Finset.ext fun t => ?_) fun _ _ => rfl
        simp only [Finset.mem_filter, List.mem_toFinset, mem_tensorIds]
        refine and_congr_left fun hlive => ⟨fun _ => hlive.1.1, fun _ => ?_⟩
        obtain ⟨hbuffer, ⟨op, hop, hocc⟩, -⟩ := hlive
        obtain ⟨node, -, hnode⟩ := List.mem_filterMap.1 hop
        exact h.mem_of_occupies hnode hocc hbuffer

theorem liveBytes_le_bufferBytes (g : Graph) (d : DependencyGraph) (order : List Nat) (p : Nat) :
    g.liveBytes d order p ≤ g.bufferBytes := by
  refine Finset.sum_le_sum_of_subset fun t ht => ?_
  obtain ⟨hmem, hbuffer, -⟩ := Finset.mem_filter.1 ht
  exact Finset.mem_filter.2 ⟨hmem, hbuffer⟩

/-- **The live bytes at a position** of an order are the bytes of the tensors
    that are live there.  However often a tensor is wired, it counts once; and
    trained state does not count.  The profile gives the word that they wrap around
    to, and so the bytes themselves if all tensors together fit in a signed word. -/
theorem profile_eq_sum_live (h : g.dependencies extra options = .ok d) {order : List Nat}
    (hperm : order.Perm (List.range d.size)) :
    (d.profile order = (List.range order.length).map fun p => toWord (g.liveBytes d order p)) ∧
    (g.bufferBytes < signedRange →
      d.profile order = (List.range order.length).map fun p => g.liveBytes d order p) := by
  obtain ⟨ids, hids⟩ := exists_allocation h
  have hprofile : d.profile order
      = (List.range order.length).map fun p => toWord (g.liveBytes d order p) := by
    rw [DependencyGraph.profile_eq hperm]
    exact List.map_congr_left fun p _ => by rw [hids.liveSum_eq hperm]
  refine ⟨hprofile, fun hfits => hprofile.trans (List.map_congr_left fun p _ => ?_)⟩
  have hrange : signedRange < wordRange := by decide
  have hle := g.liveBytes_le_bufferBytes d order p
  exact toWord_of_lt (by omega)

/-- A stream is read twice by the first op.  The second op overwrites what the
    first one has made, so it does not occupy it, and runs in a later phase. -/
def recycledSum : Workspace :=
  let calls : List Call := [
    .addVar "v" ⟨.f32, [4]⟩ (Payload.zeros 16),
    .addInput "x" ⟨.f32, [4]⟩,
    .createOp Builtin.add.operator {},
    .connectInput 0 0 "x",
    .connectInput 0 1 "x",
    .createOutput 0 0 "y",
    .settle 0,
    .createOp Builtin.accumulateInplace.operator { phase? := some 0 },
    .connectInput 1 0 "y",
    .connectInput 1 1 "v",
    .createOutput 1 0 "z",
    .settle 1,
    .createOp Builtin.reduceSum.operator { phase? := some 0 },
    .connectInput 2 0 "x",
    .createOutput 2 0 "l",
    .settle 2]
  calls.foldl (fun w c => c.run w) {}

theorem recycledSum_profile : ∃ d, recycledSum.graph.dependencies ∅ { phases := 2 } = .ok d ∧
    [0, 3, 1, 2].Perm (List.range d.size) ∧ recycledSum.graph.bufferBytes = 52 ∧
    d.profile [0, 3, 1, 2] = [32, 16, 32, 20] ∧
    d.profile [0, 3, 1, 2]
      = (List.range 4).map fun p => recycledSum.graph.liveBytes d [0, 3, 1, 2] p := by
  have hbytes : recycledSum.graph.bufferBytes = 52 := by decide +kernel
  have hvalue : ((recycledSum.graph.dependencies ∅ { phases := 2 }).toOption.map fun d =>
      (d.size, d.profile [0, 3, 1, 2])) = some (4, [32, 16, 32, 20]) := by
    decide +kernel
  obtain ⟨d, hd, hvalue⟩ := Option.map_eq_some_iff.1 hvalue
  rw [toOption_eq_some] at hd
  rw [Prod.mk.injEq] at hvalue
  have hperm : [0, 3, 1, 2].Perm (List.range d.size) := by
    rw [hvalue.1]
    decide
  have hfits : recycledSum.graph.bufferBytes < signedRange := by
    rw [hbytes]
    decide
  exact ⟨d, hd, hperm, hbytes, hvalue.2, (profile_eq_sum_live hd hperm).2 hfits⟩

/-- A small stream is read before and after a stream that fills a word but for
    its last eight bytes. -/
def wideStream : Workspace :=
  let calls : List Call := [
    .addInput "b" ⟨.f32, [2]⟩,
    .addInput "a" ⟨.f32, [4611686018427387902]⟩,
    .createOp Builtin.reduceSum.operator {},
    .connectInput 0 0 "b",
    .createOutput 0 0 "p",
    .settle 0,
    .createOp Builtin.reduceSum.operator {},
    .connectInput 1 0 "a",
    .createOutput 1 0 "q",
    .settle 1,
    .createOp Builtin.reduceSum.operator {},
    .connectInput 2 0 "b",
    .createOutput 2 0 "r",
    .settle 2]
  calls.foldl (fun w c => c.run w) {}

/-- The wide stream and the eight bytes of the small one are live at the second
    position, and count as nothing. -/
theorem wideStream_profile : ∃ d, wideStream.graph.dependencies ∅ {} = .ok d ∧
    [0, 1, 2].Perm (List.range d.size) ∧ d.profile [0, 1, 2] = [12, 4, 12] ∧
    ((List.range 3).map fun p => wideStream.graph.liveBytes d [0, 1, 2] p)
      = [12, wordRange + 4, 12] := by
  have hvalue : ((wideStream.graph.dependencies ∅ {}).toOption.map fun d =>
      (d.size, d.profile [0, 1, 2],
        (List.range 3).map fun p => wideStream.graph.liveBytes d [0, 1, 2] p))
        = some (3, [12, 4, 12], [12, wordRange + 4, 12]) := by
    decide +kernel
  obtain ⟨d, hd, hvalue⟩ := Option.map_eq_some_iff.1 hvalue
  rw [toOption_eq_some] at hd
  simp only [Prod.mk.injEq] at hvalue
  obtain ⟨hsize, hprofile, hlive⟩ := hvalue
  refine ⟨d, hd, ?_, hprofile, hlive⟩
  rw [hsize]
  decide

end Dataflow.Graph
