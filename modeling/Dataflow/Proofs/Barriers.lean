import Mathlib.Data.List.Permutation
import Dataflow.CommandLine
import Dataflow.Proofs.Compilation
import Dataflow.Proofs.Improvement

/-! # Barriers find their places again

    A schedule lists ops.  The order of nodes behind it has barriers as well,
    and these are put back when the peak of the schedule is to be told: one pass
    over the ops sets each barrier right before the first op of a later phase.

    The edges leave a barrier no choice.  Whatever belongs to an earlier phase
    leads to it, and it leads to whatever belongs to a later one, so in any order
    the nodes rise by level (`Phased.pairwise_level`).  The pass therefore gives
    back the very order that the barriers were dropped from
    (`Phased.nodesOf_opsIn`), with the same peak. -/

namespace Dataflow

open Dataflow.Graph Relation

/-! ## Section 1: Ops and barriers of a dependency graph -/

/-- The nodes of a dependency graph are the ops of a list, followed by the
    barriers between their bins. -/
structure DependencyGraph.Phased (d : DependencyGraph) (ops : List OpId) (bins : List Nat) :
    Prop where
  nodup : ops.Nodup
  length : bins.length = ops.length
  op : ∀ node, d.op? node = ops[node]?
  size : d.size = bins.length + bins.foldl max 0
  bin : ∀ {node b : Nat}, bins[node]? = some b → d.bin node = b
  barrier : ∀ e ∈ barrierEdges bins (bins.foldl max 0), e ∈ d.edges

namespace Graph

variable {g : Graph} {d : DependencyGraph} {extra : ExtraOrder} {options : ScheduleOptions}

/-- The bins of the ops, if there is more than one phase. -/
theorem bin_of_phases (h : g.dependencies extra options = .ok d) (hphases : options.phases > 1)
    {bins : List Nat}
    (hbins : List.Forall₂ (fun x bin => binOf x.1 x.2 = .ok bin) g.ops.toList bins)
    {node b : Nat} (hb : bins[node]? = some b) : d.bin node = b := by
  unfold dependencies at h
  obtain ⟨⟨nodes, table⟩, hnodes, h⟩ := except_bind_eq_ok.1 h
  obtain ⟨further, -, h⟩ := except_bind_eq_ok.1 h
  simp only [hphases, if_true] at h
  obtain ⟨bins', hbins', h⟩ := except_bind_eq_ok.1 h
  cases h
  -- each op has one bin
  have hunique : Relator.RightUnique fun (x : OpId × Op) bin => binOf x.1 x.2 = .ok bin := by
    intro x b₁ b₂ h₁ h₂
    rw [h₁] at h₂
    exact Except.ok.inj h₂
  have hsame : bins' = bins := hunique.forall₂ (mapM_eq_ok hbins') hbins
  subst hsame
  have hlength : nodes.length = bins'.length := by
    have hops := congrArg List.length (opNodes_ops hnodes)
    have hall := hbins.length_eq
    simp only [List.length_map] at hops
    omega
  have hlt : node < bins'.length := (List.getElem?_eq_some_iff.1 hb).1
  unfold DependencyGraph.bin
  rw [List.getElem?_toArray, List.getElem?_append_left (by simp; omega), ← List.getElem?_map,
    List.map_map]
  show ((nodes.zip bins').map Prod.snd)[node]?.getD 0 = b
  rw [List.map_snd_zip (Nat.le_of_eq hlength.symm), hb]
  rfl

theorem bin_of_opNodes {ops : List (OpId × Op)} {table table' : AllocTable} {nodes : List Node}
    (h : g.opNodes ops table = .ok (nodes, table')) : ∀ n ∈ nodes, n.bin = 0 := by
  induction ops generalizing table nodes with
  | nil =>
    cases h
    simp
  | cons head rest ih =>
    obtain ⟨⟨allocs, table₁⟩, -, h⟩ := except_bind_eq_ok.1 h
    obtain ⟨⟨later, table₂⟩, hrest, h⟩ := except_bind_eq_ok.1 h
    cases h
    exact List.forall_mem_cons.2 ⟨rfl, ih hrest⟩

/-- With a single phase, all ops are in the same bin. -/
theorem bin_of_single (h : g.dependencies extra options = .ok d) (hphases : ¬ options.phases > 1)
    (node : Nat) : d.bin node = 0 := by
  unfold dependencies at h
  obtain ⟨⟨nodes, table⟩, hnodes, h⟩ := except_bind_eq_ok.1 h
  obtain ⟨further, -, h⟩ := except_bind_eq_ok.1 h
  simp only [hphases, if_false] at h
  cases h
  unfold DependencyGraph.bin
  rw [List.getElem?_toArray]
  cases hn : nodes[node]? with
  | none => rfl
  | some n => exact bin_of_opNodes hnodes n (List.mem_of_getElem? hn)

/-- **The dependency graph of a graph** has the ops of the graph as its nodes,
    and barriers if there is more than one phase. -/
theorem phased_dependencies (h : g.dependencies extra options = .ok d) :
    ∃ bins, d.Phased g.opIds bins := by
  obtain ⟨hop, -, further, -, hspec⟩ := dependencies_eq_ok h
  split at hspec
  · rename_i hphases
    obtain ⟨bins, hbins, hsize, hedges⟩ := hspec
    have hlength : bins.length = g.opIds.length := by
      rw [← hbins.length_eq, opIds, ← Std.ExtTreeMap.map_fst_toList_eq_keys, List.length_map]
    exact ⟨bins, g.nodup_opIds, hlength, hop, hsize, bin_of_phases h hphases hbins,
      fun e he => (hedges e).2 (.inr he)⟩
  · -- all ops are in the first bin, so there is nothing to keep apart
    rename_i hphases
    have hzero : ∀ b ∈ List.replicate g.opIds.length 0, b = 0 := fun b hb =>
      (List.mem_replicate.1 hb).2
    have hmax : (List.replicate g.opIds.length 0).foldl max 0 = 0 :=
      Nat.le_zero.1 (DependencyGraph.peak_le_iff.2 fun b hb => Nat.le_of_eq (hzero b hb))
    refine ⟨List.replicate g.opIds.length 0, g.nodup_opIds, by simp, hop, ?_, ?_, ?_⟩
    · rw [hmax, List.length_replicate, hspec.1, Nat.add_zero]
    · intro node b hb
      rw [bin_of_single h hphases, hzero b (List.mem_of_getElem? hb)]
    · intro e he
      rw [hmax] at he
      rcases mem_barrierEdges.1 he with ⟨b, v, -, hb, -⟩ | ⟨b, v, hv, hb, -⟩ | ⟨k, -, hk, -⟩
      · omega
      · have := hzero b (List.mem_of_getElem? hv)
        omega
      · omega

/-! ## Section 2: Levels -/

/-- A barrier leads to those that follow. -/
theorem barrier_leads_on {bins : List Nat} {barriers j k : Nat} (hjk : j ≤ k) (hk : k < barriers) :
    ReflTransGen (fun u v => (⟨u, v⟩ : Edge) ∈ barrierEdges bins barriers)
      (bins.length + j) (bins.length + k) := by
  induction k, hjk using Nat.le_induction with
  | base => exact .refl
  | succ k hjk ih =>
    exact (ih (by omega)).tail (mem_barrierEdges.2 (.inr (.inr ⟨k + 1, by omega, hk, rfl⟩)))

/-- A node is an op with its bin, or a barrier with its number. -/
theorem bin_or_barrier {bins : List Nat} {barriers u : Nat} (h : u < bins.length + barriers) :
    (∃ b, bins[u]? = some b) ∨ ∃ k < barriers, u = bins.length + k := by
  by_cases hu : u < bins.length
  · exact .inl ⟨bins[u], List.getElem?_eq_getElem hu⟩
  · exact .inr ⟨u - bins.length, by omega, by omega⟩

/-- **Lower levels lead to higher ones.** -/
theorem transGen_of_level_lt {bins : List Nat} {barriers u v : Nat}
    (hbins : ∀ b ∈ bins, b ≤ barriers) (hu : u < bins.length + barriers)
    (hv : v < bins.length + barriers) (hlt : level bins u < level bins v) :
    TransGen (fun u v => (⟨u, v⟩ : Edge) ∈ barrierEdges bins barriers) u v := by
  rcases bin_or_barrier hu with ⟨b, hb⟩ | ⟨j, hj, rfl⟩
  · rcases bin_or_barrier hv with ⟨c, hc⟩ | ⟨k, hk, rfl⟩
    · rw [level_of_bin hb, level_of_bin hc] at hlt
      exact transGen_barriers hbins hb hc (by omega)
    · -- the op leads to the barrier that ends its own bin
      rw [level_of_bin hb, level_barrier] at hlt
      have hown : (⟨u, bins.length + b⟩ : Edge) ∈ barrierEdges bins barriers :=
        mem_barrierEdges.2 (.inl ⟨b, u, hb, by omega, rfl⟩)
      exact .head' hown (barrier_leads_on (by omega) hk)
  · rcases bin_or_barrier hv with ⟨c, hc⟩ | ⟨k, hk, rfl⟩
    · -- the barrier that starts the bin of the op leads to it
      rw [level_barrier, level_of_bin hc] at hlt
      have hc' := hbins c (List.mem_of_getElem? hc)
      have hown : (⟨bins.length + c - 1, v⟩ : Edge) ∈ barrierEdges bins barriers :=
        mem_barrierEdges.2 (.inr (.inl ⟨c, v, hc, by omega, rfl⟩))
      rw [show bins.length + c - 1 = bins.length + (c - 1) by omega] at hown
      exact .tail' (barrier_leads_on (by omega) (by omega)) hown
    · rw [level_barrier, level_barrier] at hlt
      have hnext : (⟨bins.length + k - 1, bins.length + k⟩ : Edge) ∈ barrierEdges bins barriers :=
        mem_barrierEdges.2 (.inr (.inr ⟨k, by omega, hk, rfl⟩))
      rw [show bins.length + k - 1 = bins.length + (k - 1) by omega] at hnext
      exact .tail' (barrier_leads_on (by omega) (by omega)) hnext

end Graph

namespace DependencyGraph

variable {d : DependencyGraph} {ops : List OpId} {bins : List Nat}

/-- **In an order the levels rise.** -/
theorem Phased.pairwise_level (h : d.Phased ops bins) {order : List Nat} (ho : d.IsOrder order) :
    order.Pairwise fun u v => level bins u ≤ level bins v := by
  rw [List.pairwise_iff_forall_sublist]
  intro u v huv
  by_contra hlt
  have hnode : ∀ w ∈ order, w < bins.length + bins.foldl max 0 := by
    intro w hw
    rw [← h.size]
    exact (mem_of_perm ho.perm).1 hw
  have hpath := transGen_of_level_lt (fun b hb => le_foldl_max hb)
    (hnode v (Before.right_mem huv)) (hnode u (Before.left_mem huv)) (by omega)
  have hback : Before order v u :=
    .of_transGen ho.nodup (fun _ _ he => ho.respects _ (h.barrier _ he)) hpath
  exact Before.asymm huv ho.nodup hback

/-! ## Section 3: Putting barriers back -/

/-- The nodes are the ops and then the barriers. -/
theorem Phased.map_op (h : d.Phased ops bins) : d.nodes.toList.map Node.op?
    = ops.map some ++ List.replicate (bins.foldl max 0) none := by
  have hlength := h.length
  have hsize : d.nodes.size = bins.length + bins.foldl max 0 := h.size
  refine List.ext_getElem? fun node => ?_
  have hop : (d.nodes[node]?).bind Node.op? = ops[node]? := h.op node
  rw [List.getElem?_map, Array.getElem?_toList, List.getElem?_append, List.getElem?_map,
    List.length_map, List.getElem?_replicate]
  by_cases hnode : node < d.nodes.size
  · rw [Array.getElem?_eq_getElem hnode, Option.bind_some] at hop
    rw [Array.getElem?_eq_getElem hnode, Option.map_some, hop]
    split
    · rename_i hlt
      rw [List.getElem?_eq_getElem hlt, Option.map_some]
    · rename_i hge
      rw [List.getElem?_eq_none (by omega), if_pos (by omega)]
  · rw [Array.getElem?_eq_none (by omega), if_neg (by omega), if_neg (by omega), Option.map_none]

theorem Phased.opCount_eq (h : d.Phased ops bins) : d.opCount = bins.length := by
  have hcount : d.opCount = (d.nodes.toList.map Node.op?).countP Option.isSome := by
    rw [List.countP_map]
    exact Array.countP_toList.symm
  rw [hcount, h.map_op, h.length, List.countP_append]
  simp [List.countP_replicate]

theorem Phased.barrierCount_eq (h : d.Phased ops bins) : d.barrierCount = bins.foldl max 0 := by
  have hcount : d.barrierCount = (d.nodes.toList.map Node.op?).countP Option.isNone := by
    rw [List.countP_map]
    exact Array.countP_toList.symm
  rw [hcount, h.map_op, List.countP_append]
  simp [List.countP_replicate]

theorem Phased.nodeOf?_eq (h : d.Phased ops bins) {op : OpId} {v : Nat} (hv : ops[v]? = some op) :
    d.nodeOf? op = some v := by
  have hop : ∀ {u : Nat} (hu : u < d.nodes.size), (d.nodes[u]).op? = ops[u]? := by
    intro u hu
    rw [← h.op u, DependencyGraph.op?, Array.getElem?_eq_getElem hu, Option.bind_some]
  have hlt : v < ops.length := (List.getElem?_eq_some_iff.1 hv).1
  have hsize : d.nodes.size = bins.length + bins.foldl max 0 := h.size
  have hnode : v < d.nodes.size := by
    have hlength := h.length
    omega
  unfold nodeOf?
  rw [Array.findIdx?_eq_some_iff_getElem]
  refine ⟨hnode, by simp [hop hnode, hv], fun u huv => ?_⟩
  rw [hop (by omega), beq_iff_eq]
  intro hu
  -- no op is listed twice
  exact absurd ((List.getElem?_inj (by omega) h.nodup).1 (hu.trans hv.symm)) (by omega)

/-- The barriers up to a bin, from number `next` on. -/
theorem Phased.barriersBefore_eq (h : d.Phased ops bins) (next bin : Nat) :
    d.barriersBefore next bin
      = (List.range' next (min bin (bins.foldl max 0) - next)).map (bins.length + ·) := by
  unfold barriersBefore
  rw [h.opCount_eq, h.barrierCount_eq]

/-- **An op** whose bin has begun comes without barriers. -/
theorem Phased.nodesFrom_op (h : d.Phased ops bins) {op : OpId} {v next : Nat} {seen : List Nat}
    (hv : ops[v]? = some op) (hseen : v ∉ seen) (hbin : d.bin v ≤ next) (rest : List OpId) :
    d.nodesFrom (op :: rest) seen next
      = (d.nodesFrom rest (v :: seen) next).map (v :: ·) := by
  have hnone : d.barriersBefore next (d.bin v) = [] := by
    rw [h.barriersBefore_eq, show min (d.bin v) (bins.foldl max 0) - next = 0 by omega]
    rfl
  have hnot : seen.contains v = false := by simpa using hseen
  rw [nodesFrom]
  simp only [h.nodeOf?_eq hv, hnot, hnone]
  cases d.nodesFrom rest (v :: seen) next <;> rfl

/-- **A barrier** is set as soon as only ops of later bins are left. -/
theorem Phased.nodesFrom_barrier (h : d.Phased ops bins) {next : Nat}
    (hnext : next < bins.foldl max 0) {schedule : List OpId}
    (hlater : ∀ op ∈ schedule, ∀ v, d.nodeOf? op = some v → next < d.bin v) (seen : List Nat) :
    d.nodesFrom schedule seen next
      = (d.nodesFrom schedule seen (next + 1)).map ((bins.length + next) :: ·) := by
  have hfirst : ∀ bin, next < bin → d.barriersBefore next bin
      = (bins.length + next) :: d.barriersBefore (next + 1) bin := by
    intro bin hbin
    rw [h.barriersBefore_eq, h.barriersBefore_eq,
      show min bin (bins.foldl max 0) - next = min bin (bins.foldl max 0) - (next + 1) + 1 by omega,
      List.range'_succ, List.map_cons]
  cases schedule with
  | nil =>
    rw [nodesFrom, nodesFrom, hfirst _ (by rw [h.barrierCount_eq]; exact hnext)]
    rfl
  | cons op rest =>
    rw [nodesFrom, nodesFrom]
    cases hv : d.nodeOf? op with
    | none => rfl
    | some v =>
      have hlen : next + ((d.barriersBefore (next + 1) (d.bin v)).length + 1)
          = next + 1 + (d.barriersBefore (next + 1) (d.bin v)).length := by omega
      simp only [hfirst _ (hlater op List.mem_cons_self v hv), List.length_cons, hlen]
      split
      · rfl
      · cases d.nodesFrom rest (v :: seen)
          (next + 1 + (d.barriersBefore (next + 1) (d.bin v)).length) <;> rfl

/-- The rest of an order, from barrier number `next` on: the levels rise, and of
    the barriers it has those that are still to be set. -/
structure Remainder (bins : List Nat) (next : Nat) (order : List Nat) : Prop where
  nodup : order.Nodup
  node : ∀ v ∈ order, v < bins.length + bins.foldl max 0
  level : order.Pairwise fun u v => level bins u ≤ level bins v
  next_le : next ≤ bins.foldl max 0
  barriers : ∀ k < bins.foldl max 0, bins.length + k ∈ order ↔ next ≤ k

namespace Remainder

variable {next : Nat} {rest : List Nat}

/-- At the end all barriers have been set. -/
theorem nil (h : Remainder bins next []) : next = bins.foldl max 0 := by
  have hle := h.next_le
  by_contra hne
  have hmem := (h.barriers next (by omega)).2 (Nat.le_refl _)
  cases hmem

/-- **An op comes first.**  Its bin has begun, because the next barrier is still to
    come. -/
theorem op {v b : Nat} (h : Remainder bins next (v :: rest)) (hb : bins[v]? = some b) :
    b ≤ next ∧ Remainder bins next rest := by
  obtain ⟨-, hrest⟩ := List.nodup_cons.1 h.nodup
  obtain ⟨hhead, htail⟩ := List.pairwise_cons.1 h.level
  have hv : v < bins.length := (List.getElem?_eq_some_iff.1 hb).1
  have hlater : ∀ k, bins.length + k ∈ v :: rest ↔ bins.length + k ∈ rest := by
    intro k
    rw [List.mem_cons]
    exact ⟨fun hmem => hmem.resolve_left (by omega), .inr⟩
  constructor
  · by_cases hmore : next < bins.foldl max 0
    · have hmem := (h.barriers next hmore).2 (Nat.le_refl _)
      have hrise := hhead _ ((hlater next).1 hmem)
      rw [level_of_bin hb, level_barrier] at hrise
      omega
    · have hmax := le_foldl_max (List.mem_of_getElem? hb)
      omega
  · exact {
      nodup := hrest
      node := fun w hw => h.node w (List.mem_cons_of_mem v hw)
      level := htail
      next_le := h.next_le
      barriers := fun k hk => (hlater k).symm.trans (h.barriers k hk) }

/-- **A barrier comes first.**  It is the next one, because that one has the
    lowest level of all barriers, and only ops of later bins follow. -/
theorem barrier {k : Nat} (h : Remainder bins next ((bins.length + k) :: rest))
    (hk : k < bins.foldl max 0) : k = next ∧ Remainder bins (next + 1) rest ∧
      ∀ w ∈ rest, ∀ b, bins[w]? = some b → next < b := by
  obtain ⟨hnew, hrest⟩ := List.nodup_cons.1 h.nodup
  obtain ⟨hhead, htail⟩ := List.pairwise_cons.1 h.level
  have hle : next ≤ k := (h.barriers k hk).1 List.mem_cons_self
  have heq : k = next := by
    have hmem := (h.barriers next (by omega)).2 (Nat.le_refl _)
    rcases List.mem_cons.1 hmem with hsame | hmem
    · omega
    · have hrise := hhead _ hmem
      rw [level_barrier, level_barrier] at hrise
      omega
  subst heq
  refine ⟨rfl, ?_, ?_⟩
  · refine ⟨hrest, fun w hw => h.node w (List.mem_cons_of_mem _ hw), htail, hk, fun j hj => ?_⟩
    constructor
    · intro hmem
      have hge := (h.barriers j hj).1 (List.mem_cons_of_mem _ hmem)
      have hne : j ≠ k := fun hjk => hnew (hjk ▸ hmem)
      omega
    · intro hge
      have hmem := (h.barriers j hj).2 (by omega)
      exact (List.mem_cons.1 hmem).resolve_left (by omega)
  · intro w hw b hb
    have hrise := hhead w hw
    rw [level_barrier, level_of_bin hb] at hrise
    omega

end Remainder

theorem Phased.remainder (h : d.Phased ops bins) {order : List Nat} (ho : d.IsOrder order) :
    Remainder bins 0 order where
  nodup := ho.nodup
  node v hv := by
    rw [← h.size]
    exact (mem_of_perm ho.perm).1 hv
  level := h.pairwise_level ho
  next_le := Nat.zero_le _
  barriers k hk := by
    rw [mem_of_perm ho.perm, h.size]
    omega

/-- **The rest of an order** comes back from its ops. -/
theorem Phased.nodesFrom_opsIn (h : d.Phased ops bins) {order seen : List Nat} {next : Nat}
    (hrest : Remainder bins next order) (hseen : ∀ v ∈ order, v ∉ seen) :
    d.nodesFrom (d.opsIn order) seen next = .ok order := by
  induction order generalizing seen next with
  | nil =>
    show d.nodesFrom [] seen next = .ok []
    rw [nodesFrom, h.barriersBefore_eq, h.barrierCount_eq, hrest.nil, Nat.min_self, Nat.sub_self]
    rfl
  | cons v rest ih =>
    have hlater : ∀ w ∈ rest, w ∉ seen := fun w hw => hseen w (List.mem_cons_of_mem v hw)
    rcases bin_or_barrier (hrest.node v List.mem_cons_self) with ⟨b, hb⟩ | ⟨k, hk, rfl⟩
    · obtain ⟨hbegun, hrest'⟩ := hrest.op hb
      rw [← h.bin hb] at hbegun
      have hlt : v < ops.length := h.length ▸ (List.getElem?_eq_some_iff.1 hb).1
      have hop : ops[v]? = some ops[v] := List.getElem?_eq_getElem hlt
      have hops : d.opsIn (v :: rest) = ops[v] :: d.opsIn rest :=
        List.filterMap_cons_some ((h.op v).trans hop)
      have hseen' : ∀ w ∈ rest, w ∉ v :: seen := by
        intro w hw hmem
        rcases List.mem_cons.1 hmem with rfl | hmem
        · exact (List.nodup_cons.1 hrest.nodup).1 hw
        · exact hlater w hw hmem
      rw [hops, h.nodesFrom_op hop (hseen v List.mem_cons_self) hbegun, ih hrest' hseen']
      rfl
    · obtain ⟨rfl, hrest', hbeyond⟩ := hrest.barrier hk
      have hops : d.opsIn ((bins.length + k) :: rest) = d.opsIn rest := by
        refine List.filterMap_cons_none ((h.op _).trans (List.getElem?_eq_none ?_))
        rw [h.length]
        omega
      have hbins : ∀ op ∈ d.opsIn rest, ∀ v, d.nodeOf? op = some v → k < d.bin v := by
        intro op hmem v hv
        obtain ⟨w, hw, hop⟩ := List.mem_filterMap.1 hmem
        rw [h.op w] at hop
        cases (h.nodeOf?_eq hop).symm.trans hv
        have hlt : v < bins.length := h.length ▸ (List.getElem?_eq_some_iff.1 hop).1
        have hb := List.getElem?_eq_getElem hlt
        rw [h.bin hb]
        exact hbeyond v hw _ hb
      rw [hops, h.nodesFrom_barrier hk hbins, ih hrest' hlater]
      rfl

/-- **Dropping the barriers of an order and putting them back** changes nothing. -/
theorem Phased.nodesOf_opsIn (h : d.Phased ops bins) {order : List Nat} (ho : d.IsOrder order) :
    d.nodesOf (d.opsIn order) = .ok order :=
  h.nodesFrom_opsIn (h.remainder ho) fun _ _ => List.not_mem_nil

/-! ## Section 4: The peak that is reported -/

/-- What annealing makes of the order by readiness, with its report. -/
def annealed (d : DependencyGraph) (options : ScheduleOptions) (chance : Chance) :
    Except ScheduleError (List Nat × AnnealReport) :=
  (d.listOrderWith chance.dice chance.start options.tieBreak
      (d.size ≤ options.closureThreshold)).map
    (d.annealWith chance.dice chance.start chance.isTimeUp options.swapLimit)

/-- A good schedule lists the ops of the annealed order. -/
theorem schedule_eq_ok_iff {options : ScheduleOptions} {chance : Chance} {schedule : List OpId} :
    d.schedule options true chance = .ok schedule ↔
      ∃ result, d.annealed options chance = .ok result ∧ schedule = d.opsIn result.1 := by
  unfold DependencyGraph.schedule annealed
  simp only [Bool.true_and, if_true]
  cases d.listOrderWith chance.dice chance.start options.tieBreak
    (decide (d.size ≤ options.closureThreshold)) with
  | error e => simp [bind, Except.bind, Except.map]
  | ok order => simp [bind, Except.bind, Except.map, pure, Except.pure, eq_comm]

/-- The annealed order is an order, and its peak is the one in the report. -/
theorem annealed_eq_ok (hd : d.WellFormed) {options : ScheduleOptions} {chance : Chance}
    {result : List Nat × AnnealReport} (h : d.annealed options chance = .ok result) :
    d.IsOrder result.1 ∧ result.2.best.peak = peak (d.profile result.1) := by
  unfold annealed at h
  cases horder : d.listOrderWith chance.dice chance.start options.tieBreak
      (d.size ≤ options.closureThreshold) with
  | error e =>
    rw [horder] at h
    cases h
  | ok order =>
    rw [horder] at h
    cases h
    have hanneals := (listOrderWith_isOrder hd horder).annealsTo chance.dice chance.start
      chance.isTimeUp options.swapLimit
    exact ⟨hanneals.isOrder, by rw [hanneals.best]; rfl⟩

end DependencyGraph

/-- A planner that has just been set up remembers nothing. -/
theorem last?_setOptions (options : ScheduleOptions) :
    (Planner.setOptions {} options).last? = none := by
  unfold Planner.setOptions
  split <;> rfl

/-- Without memory, a schedule is worked out. -/
theorem Planner.scheduleGraph_of_forgotten {p : Planner} (hp : p.last? = none) (g : Graph)
    (extra : ExtraOrder) {chance : Chance} {schedule : List OpId}
    (h : (p.scheduleGraph g extra true chance).1 = .ok schedule) :
    ∃ d, g.dependencies extra p.options = .ok d ∧
      d.schedule p.options true chance = .ok schedule := by
  unfold Planner.scheduleGraph at h
  split at h
  · rename_i d hd
    refine ⟨d, hd, ?_⟩
    simp only [Planner.schedule, Planner.remembered?, hp] at h
    split at h
    · rename_i order horder
      exact horder.trans h
    · cases h
  · cases h

theorem Model.compile_options {m : Model} {catalogue : Catalogue} {options : SessionOptions}
    {chance : Chance} {p : Products} (h : m.compile catalogue options chance = .ok p) :
    p.options = options.effective := by
  obtain ⟨g, -, h⟩ := except_bind_eq_ok.1 h
  obtain ⟨_, -, h⟩ := except_bind_eq_ok.1 h
  obtain ⟨⟨gradients?, g₁⟩, -, h⟩ := except_bind_eq_ok.1 h
  obtain ⟨⟨pruned?, g₂⟩, -, h⟩ := except_bind_eq_ok.1 h
  obtain ⟨_, -, h⟩ := except_bind_eq_ok.1 h
  obtain ⟨schedule, -, h⟩ := except_bind_eq_ok.1 h
  cases h
  rfl

/-- **The nodes of a compiled schedule** are the annealed order. -/
theorem Model.nodes_of_compile {m : Model} {catalogue : Catalogue} {options : SessionOptions}
    {chance : Chance} {p : Products} (h : m.compile catalogue options chance = .ok p) :
    let planner := Planner.setOptions {} options.effective
    ∃ d result, p.graph.dependencies ∅ p.options = .ok d ∧
      d.annealed planner.options chance = .ok result ∧
      p.schedule = d.opsIn result.1 ∧ p.nodes = .ok (d, result.1) ∧
      result.2.best.peak = DependencyGraph.peak (d.profile result.1) := by
  intro planner
  have hschedule := (Model.compile_eq_ok h).2
  obtain ⟨d, hd, hgood⟩ :=
    Planner.scheduleGraph_of_forgotten (last?_setOptions options.effective) p.graph ∅ hschedule
  obtain ⟨result, hannealed, hops⟩ := DependencyGraph.schedule_eq_ok_iff.1 hgood
  obtain ⟨horder, hpeak⟩ := DependencyGraph.annealed_eq_ok (wellFormed_dependencies hd) hannealed
  obtain ⟨bins, hphased⟩ := phased_dependencies hd
  -- the options of the planner may be spelled differently, but the phases are the same
  have hd' : p.graph.dependencies ∅ p.options = .ok d := by
    rw [Model.compile_options h, ← hd]
    exact dependencies_congr (phases_setOptions options.effective).symm
  refine ⟨d, result, hd', hannealed, hops, ?_, hpeak⟩
  refine except_bind_eq_ok.2 ⟨d, hd', except_bind_eq_ok.2 ⟨result.1, ?_, rfl⟩⟩
  rw [hops, hphased.nodesOf_opsIn horder]

/-- **Barriers find their places again.**  Take the dependency graph of any graph,
    under any options, and any order of its nodes.  If the barriers are dropped
    and put back, the outcome is that order: all nodes are in it once, it respects
    all edges, it has the same ops, and its peak is the same.

    So whenever the model of a request compiles, the peak that is printed is the
    one that annealing has reached, whatever chance decides. -/
theorem CommandLine.peak_of_restored :
    (∀ (g : Graph) (extra : ExtraOrder) (options : ScheduleOptions) (d : DependencyGraph)
      (order : List Nat), g.dependencies extra options = .ok d → d.IsOrder order →
      d.nodesOf (d.opsIn order) = .ok order) ∧
    ∀ (request : CompileRequest) (content? : String → Option String)
      (chance : ScheduleOptions → Chance) (model : Model) (options : SessionOptions) (p : Products),
      (content? request.model).bind Model.ofJson? = some model →
      request.options? content? = some options →
      let planner := Planner.setOptions {} options.effective
      model.compile .builtin options (chance planner.options) = .ok p →
      ∃ d result, p.graph.dependencies ∅ p.options = .ok d ∧
        d.annealed planner.options (chance planner.options) = .ok result ∧
        p.schedule = d.opsIn result.1 ∧
        result.2.best.peak = DependencyGraph.peak (d.profile result.1) ∧
        request.run? content? chance = some (report p result.2.best.peak request.showGraph) := by
  constructor
  · intro g extra options d order hd horder
    obtain ⟨bins, hphased⟩ := phased_dependencies hd
    exact hphased.nodesOf_opsIn horder
  · intro request content? chance model options p hmodel hoptions planner hcompile
    obtain ⟨d, result, hd, hannealed, hops, hnodes, hpeak⟩ := Model.nodes_of_compile hcompile
    refine ⟨d, result, hd, hannealed, hops, hpeak, ?_⟩
    obtain ⟨source, hsource, hparse⟩ := Option.bind_eq_some_iff.1 hmodel
    simp only [planner] at hcompile
    simp [CompileRequest.run?, hsource, hparse, hoptions, hcompile, hnodes, Except.toOption, hpeak]

/-- A model with ops of two phases, as it is written down. -/
def CommandLine.phasedText : String :=
  "\x7b\"inputs\":[\x7b\"id\":\"x\",\"dtype\":\"f32\",\"shape\":[2]\x7d],\"nodes\":[" ++
  "\x7b\"op_type\":\"Relu\",\"inputs\":[\"x\"],\"outputs\":[\"y\"],\"phase\":0\x7d," ++
  "\x7b\"op_type\":\"Relu\",\"inputs\":[\"y\"],\"outputs\":[\"z\"],\"phase\":1\x7d]," ++
  "\"outputs\":[\"z\"]\x7d"

/-- The file of the model, and one with the number of phases. -/
def CommandLine.phasedFiles (file : String) : Option String :=
  if file = "model" then some phasedText else some "execution_phases = 3"

def CommandLine.phasedRequest : CompileRequest where
  model := "model"
  optionsFile? := some "options"

/-- What has to run ahead of what.  Nodes 2 and 3 are barriers. -/
def CommandLine.phasedEdges : List Edge := [⟨0, 1⟩, ⟨0, 3⟩, ⟨2, 0⟩, ⟨2, 3⟩, ⟨3, 1⟩]

/-- The barriers leave one order only. -/
theorem CommandLine.eq_of_phasedEdges {order : List Nat} (hperm : order.Perm [0, 1, 2, 3])
    (hrespects : ∀ e ∈ phasedEdges, [e.before, e.after].Sublist order) : order = [2, 0, 3, 1] := by
  have hall : ∀ order ∈ [0, 1, 2, 3].permutations',
      (∀ e ∈ phasedEdges, [e.before, e.after].Sublist order) → order = [2, 0, 3, 1] := by
    decide +kernel
  exact hall order (List.mem_permutations'.2 hperm) hrespects

/-- An order with two barriers, and a request for a model with phases.  Its ops
    can run one after the other only, so chance has no say. -/
theorem CommandLine.threePhases_restored :
    (∃ d, Workspace.threePhases.graph.dependencies ∅ { phases := 3 } = .ok d ∧
      d.IsOrder [2, 3, 0, 4, 1] ∧ d.opsIn [2, 3, 0, 4, 1] = [2, 0, 1] ∧
      d.nodesOf [2, 0, 1] = .ok [2, 3, 0, 4, 1]) ∧
    ∃ (model : Model) (options : SessionOptions),
      Model.ofJson? phasedText = some model ∧ phasedRequest.options? phasedFiles = some options ∧
      ∀ chance : ScheduleOptions → Chance, ∃ (p : Products) (d : DependencyGraph),
        model.compile .builtin options
          (chance (Planner.setOptions {} options.effective).options) = .ok p ∧
        p.graph.dependencies ∅ p.options = .ok d ∧ d.barrierCount = 2 ∧ p.schedule = [0, 1] ∧
        phasedRequest.run? phasedFiles chance = some (report p 16 false) := by
  constructor
  · have hvalue : ((Workspace.threePhases.graph.dependencies ∅ { phases := 3 }).toOption.map
        fun d => (decide (d.IsOrder [2, 3, 0, 4, 1]), d.opsIn [2, 3, 0, 4, 1]))
        = some (true, [2, 0, 1]) := by
      decide +kernel
    obtain ⟨d, hd, hvalue⟩ := Option.map_eq_some_iff.1 hvalue
    rw [toOption_eq_some] at hd
    simp only [Prod.mk.injEq, decide_eq_true_eq] at hvalue
    obtain ⟨horder, hops⟩ := hvalue
    have hrestored := peak_of_restored.1 _ _ _ d _ hd horder
    rw [hops] at hrestored
    exact ⟨d, hd, horder, hops, hrestored⟩
  · have hpasses : ((Model.ofJson? phasedText).bind fun m =>
        (phasedRequest.options? phasedFiles).bind fun options =>
          (m.build .builtin).toOption.bind fun g =>
            (g.differentiateLoss options).toOption.bind fun x =>
              (x.2.pruneFor options x.1).toOption.bind fun y =>
                (y.2.orderWriters.2.dependencies ∅ options.effective).toOption.map fun d =>
                  decide (d.size = 4 ∧ d.edges.toList = phasedEdges ∧ d.barrierCount = 2 ∧
                    d.opsIn [2, 0, 3, 1] = [0, 1] ∧
                    DependencyGraph.peak (d.profile [2, 0, 3, 1]) = 16)) = some true := by
      decide +kernel
    obtain ⟨m, hm, hpasses⟩ := Option.bind_eq_some_iff.1 hpasses
    obtain ⟨options, hoptions, hpasses⟩ := Option.bind_eq_some_iff.1 hpasses
    obtain ⟨g, hbuild, hpasses⟩ := Option.bind_eq_some_iff.1 hpasses
    obtain ⟨⟨gradients?, g₁⟩, hdiff, hpasses⟩ := Option.bind_eq_some_iff.1 hpasses
    obtain ⟨⟨pruned?, g₂⟩, hprune, hpasses⟩ := Option.bind_eq_some_iff.1 hpasses
    obtain ⟨d, hd, hvalue⟩ := Option.map_eq_some_iff.1 hpasses
    rw [toOption_eq_some] at hbuild hdiff hprune hd
    obtain ⟨hsize, hedges, hbarriers, hops, hpeak⟩ := of_decide_eq_true hvalue
    have honly : ∀ order, d.IsOrder order → order = [2, 0, 3, 1] := by
      intro order horder
      rw [DependencyGraph.isOrder_iff, hsize, hedges] at horder
      exact eq_of_phasedEdges horder.1 horder.2
    have horder : d.IsOrder [2, 0, 3, 1] := by
      rw [DependencyGraph.isOrder_iff, hsize, hedges]
      decide
    refine ⟨m, options, hm, hoptions, fun chance => ?_⟩
    obtain ⟨p, hcompile, hp⟩ := Model.compile_of_isOrder hbuild hdiff hprune hd horder
      (chance (Planner.setOptions {} options.effective).options)
    have hfile : phasedFiles phasedRequest.model = some phasedText := if_pos rfl
    have hread : (phasedFiles phasedRequest.model).bind Model.ofJson? = some m := by
      rw [hfile, Option.bind_some, hm]
    obtain ⟨d', result, hd', hannealed, hlisted, hbest, hrun⟩ :=
      peak_of_restored.2 phasedRequest phasedFiles chance m options p hread hoptions hcompile
    cases hp.symm.trans hd'
    have hresult := (DependencyGraph.annealed_eq_ok (wellFormed_dependencies hd) hannealed).1
    rw [honly _ hresult] at hlisted hbest
    rw [hbest, hpeak] at hrun
    exact ⟨p, d, hcompile, hp, hbarriers, hlisted.trans hops, hrun⟩

end Dataflow
