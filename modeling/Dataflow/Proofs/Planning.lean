import Dataflow.Graph.Dependencies
import Dataflow.Proofs.Exchange
import Dataflow.Proofs.Rewiring

/-! # Plans

    The dependency graph of a graph numbers its ops and carries every edge
    that a schedule has to respect.  An order of its nodes, with the barriers
    left out, is therefore a valid schedule of the graph: `Graph.IsSchedule`.

    A planner may answer from memory.  What it remembers is an order of the
    dependency graph it was made for, and it is given out for an equal one
    only, so a remembered answer is as good as a new one. -/

namespace Dataflow

/-! ## Section 1: Memory -/

namespace DependencyGraph

variable {d d' : DependencyGraph}

/-- Nodes that compare equal agree in all but the sign of a priority of zero. -/
theorem node_of_beq {a b : Node} (h : (a == b) = true) :
    a.op? = b.op? ∧ a.allocs = b.allocs ∧ (a.priority == b.priority) = true ∧ a.bin = b.bin := by
  have hand : (a.op? == b.op? && (a.allocs == b.allocs && (a.priority == b.priority
      && a.bin == b.bin))) = true := h
  simpa only [Bool.and_eq_true, beq_iff_eq] using hand

/-- Dependency graphs that compare equal have the same ops at the same nodes
    and the same edges. -/
theorem of_beq (h : (d == d') = true) :
    d.size = d'.size ∧ (∀ node, d.op? node = d'.op? node) ∧ d.edges = d'.edges := by
  have hand : (d.nodes == d'.nodes && (d.allocSizes == d'.allocSizes && d.edges == d'.edges))
      = true := h
  simp only [Bool.and_eq_true] at hand
  obtain ⟨hnodes, -, hedges⟩ := hand
  obtain ⟨hsize, hsame⟩ := Array.isEqv_iff_rel.1 hnodes
  refine ⟨hsize, fun node => ?_, eq_of_beq hedges⟩
  unfold op?
  by_cases hlt : node < d.nodes.size
  · have hlt' : node < d'.nodes.size := hsize ▸ hlt
    simp [hlt, hlt', (node_of_beq (hsame node hlt)).1]
  · have hlt' : ¬ node < d'.nodes.size := hsize ▸ hlt
    simp [hlt, hlt']

theorem IsOrder.of_beq (h : (d == d') = true) {nodes : List Nat} (ho : d.IsOrder nodes) :
    d'.IsOrder nodes := by
  obtain ⟨hsize, -, hedges⟩ := DependencyGraph.of_beq h
  exact ⟨hsize ▸ ho.perm, hedges ▸ ho.respects⟩

theorem opsIn_of_beq (h : (d == d') = true) (nodes : List Nat) :
    d.opsIn nodes = d'.opsIn nodes := by
  obtain ⟨-, hop, -⟩ := DependencyGraph.of_beq h
  unfold opsIn
  congr 1
  funext node
  exact hop node

end DependencyGraph

namespace Planner

variable {p p' : Planner} {d : DependencyGraph}

/-- The remembered schedule is an order of the dependency graph that it was
    made for. -/
def Sound (p : Planner) : Prop :=
  ∀ r, p.last? = some r → ∃ nodes, r.graph.IsOrder nodes ∧ r.order = r.graph.opsIn nodes

theorem sound_empty (options : ScheduleOptions) : Sound { options := options } := by
  intro r hr
  cases hr

theorem Sound.setOptions (hp : p.Sound) (options : ScheduleOptions) :
    (p.setOptions options).Sound := by
  unfold Planner.setOptions
  split
  · intro r hr
    cases hr
  · exact hp

/-- A remembered answer is an order of the dependency graph in question. -/
theorem Sound.remembered (hp : p.Sound) {optimal : Bool} {ops : List OpId}
    (h : p.remembered? d optimal = some ops) : ∃ nodes, d.IsOrder nodes ∧ ops = d.opsIn nodes := by
  unfold remembered? at h
  split at h
  · rename_i last hlast
    split at h
    · rename_i hsame
      cases h
      have hbeq : (last.graph == d) = true := (Bool.and_eq_true_iff.1 hsame).1
      obtain ⟨nodes, hnodes, horder⟩ := hp last hlast
      exact ⟨nodes, hnodes.of_beq hbeq, horder.trans (DependencyGraph.opsIn_of_beq hbeq nodes)⟩
    · cases h
  · cases h

/-- **Every answer is an order**, from memory or not, and what is remembered
    afterwards is one too. -/
theorem Sound.schedule (hp : p.Sound) (hd : d.WellFormed) {optimal : Bool} {chance : Chance}
    {answer : Except ScheduleError (List OpId)} (h : p.schedule d optimal chance = (answer, p')) :
    p'.Sound ∧ ∀ ops, answer = .ok ops → ∃ nodes, d.IsOrder nodes ∧ ops = d.opsIn nodes := by
  unfold Planner.schedule at h
  split at h
  · rename_i ops hremembered
    cases h
    refine ⟨hp, fun ops' hops => ?_⟩
    cases hops
    exact hp.remembered hremembered
  · simp only at h
    split at h
    · rename_i ops hschedule
      cases h
      have hops := DependencyGraph.schedule_isOrder hd hschedule
      refine ⟨fun r hr => ?_, fun ops' hops' => ?_⟩
      · cases hr
        exact hops
      · cases hops'
        exact hops
    · cases h
      exact ⟨hp, fun ops hops => nomatch hops⟩

end Planner

/-! ## Section 2: Nodes of ops -/

namespace Graph

variable {g : Graph} {d : DependencyGraph} {extra : ExtraOrder} {options : ScheduleOptions}

/-- Ops are numbered by their place in the list of all ops. -/
theorem nodeNumbers_eq_some {op : OpId} {k : Nat} :
    g.nodeNumbers[op]? = some k ↔ g.opIds[k]? = some op := by
  have hkeys : g.opIds.zipIdx.Pairwise fun a b => ¬ compare a.1 b.1 = .eq := by
    have hfst : (g.opIds.zipIdx.map Prod.fst).Pairwise fun a b => ¬ compare a b = .eq := by
      rw [List.zipIdx_map_fst]
      exact Std.ExtTreeMap.distinct_keys
    exact List.pairwise_map.1 hfst
  have hmem : ∀ j, g.opIds[j]? = some op → g.nodeNumbers[op]? = some j := by
    intro j hj
    exact Std.ExtTreeMap.getElem?_ofList_of_mem Std.ReflCmp.compare_self hkeys
      (List.mem_zipIdx_iff_getElem?.2 hj)
  refine ⟨fun h => ?_, hmem k⟩
  by_cases hop : op ∈ g.opIds
  · obtain ⟨j, hj⟩ := List.mem_iff_getElem?.1 hop
    have hjk : j = k := Option.some.inj ((hmem j hj).symm.trans h)
    exact hjk ▸ hj
  · have hnone : g.nodeNumbers[op]? = none := by
      refine Std.ExtTreeMap.getElem?_ofList_of_contains_eq_false ?_
      rw [List.zipIdx_map_fst]
      simpa using hop
    rw [hnone] at h
    cases h

theorem nodeNumbers_lt {op : OpId} {k : Nat} (h : g.nodeNumbers[op]? = some k) :
    k < g.opIds.length := by
  obtain ⟨hlt, -⟩ := List.getElem?_eq_some_iff.1 (nodeNumbers_eq_some.1 h)
  exact hlt

/-- Each op becomes one node. -/
theorem opNodes_ops {ops : List (OpId × Op)} {table table' : AllocTable} {nodes : List Node}
    (h : g.opNodes ops table = .ok (nodes, table')) :
    nodes.map Node.op? = ops.map fun x => some x.1 := by
  induction ops generalizing table nodes with
  | nil =>
    cases h
    rfl
  | cons head rest ih =>
    obtain ⟨⟨allocs, table₁⟩, -, h⟩ := except_bind_eq_ok.1 h
    obtain ⟨⟨later, table₂⟩, hrest, h⟩ := except_bind_eq_ok.1 h
    cases h
    rw [List.map_cons, List.map_cons, ih hrest]

/-! ## Section 3: Edges -/

theorem mem_dataEdges {e : Edge} : e ∈ g.dataEdges g.nodeNumbers ↔ ∃ op reader,
    g.opIds[e.before]? = some op ∧ g.nodeNumbers[reader]? = some e.after ∧
      reader ∈ g.dataSuccessors op := by
  simp only [dataEdges, List.mem_flatMap, List.mem_filterMap, Option.map_eq_some_iff, Prod.exists]
  constructor
  · rintro ⟨op, node, hmem, reader, hreader, target, htarget, rfl⟩
    exact ⟨op, reader, List.mem_zipIdx_iff_getElem?.1 hmem, htarget, hreader⟩
  · rintro ⟨op, reader, hop, hreader, hmem⟩
    exact ⟨op, e.before, List.mem_zipIdx_iff_getElem?.2 hop, reader, hmem, e.after, hreader, rfl⟩

theorem mem_constraintEdges {e : Edge} : e ∈ g.constraintEdges g.nodeNumbers ↔
    ∃ c ∈ g.constraints.toList,
      g.nodeNumbers[c.before]? = some e.before ∧ g.nodeNumbers[c.after]? = some e.after := by
  simp only [constraintEdges, List.mem_filterMap]
  refine exists_congr fun c => and_congr_right fun _ => ?_
  constructor
  · intro h
    split at h
    · rename_i b a hb ha
      cases h
      exact ⟨hb, ha⟩
    · cases h
  · rintro ⟨hb, ha⟩
    simp [hb, ha]

theorem namedNode_eq_ok {number : Std.ExtTreeMap OpId Nat} {op : OpId} {k : Nat} :
    namedNode number op = .ok k ↔ number[op]? = some k := by
  unfold namedNode
  cases number[op]? <;> simp

/-- The extra edges of a query join the nodes of the ops that it names. -/
theorem mem_extraEdges {number : Std.ExtTreeMap OpId Nat} {edges : List Edge}
    (h : extraEdges number extra = .ok edges) :
    (∀ e ∈ edges, e.before ≠ e.after ∧ ∃ (u v : OpId) (us : List OpId),
      extra[v]? = some us ∧ u ∈ us ∧ number[u]? = some e.before ∧ number[v]? = some e.after) ∧
    ∀ (v : OpId) (us : List OpId), extra[v]? = some us → ∀ u ∈ us,
      ∃ b a, number[u]? = some b ∧ number[v]? = some a ∧
      (b ≠ a → (⟨b, a⟩ : Edge) ∈ edges) := by
  obtain ⟨lists, hlists, h⟩ := except_bind_eq_ok.1 h
  cases h
  have hall := mapM_eq_ok hlists
  -- each op that a query names has a node, and all edges of its list end there
  have hlist : ∀ (x : OpId × List OpId) (l : List Edge), (do
      let a ← namedNode number x.1
      x.2.mapM fun before => do
        let b ← namedNode number before
        return (⟨b, a⟩ : Edge)) = Except.ok l →
      ∃ a, number[x.1]? = some a ∧
        List.Forall₂ (fun u e => ∃ b, number[u]? = some b ∧ e = (⟨b, a⟩ : Edge)) x.2 l := by
    intro x l hx
    obtain ⟨a, ha, hx⟩ := except_bind_eq_ok.1 hx
    refine ⟨a, namedNode_eq_ok.1 ha, (mapM_eq_ok hx).imp fun u e hu => ?_⟩
    obtain ⟨b, hb, hu⟩ := except_bind_eq_ok.1 hu
    cases hu
    exact ⟨b, namedNode_eq_ok.1 hb, rfl⟩
  constructor
  · intro e he
    obtain ⟨hflat, hne⟩ := List.mem_filter.1 he
    obtain ⟨l, hl, hel⟩ := List.mem_flatten.1 hflat
    obtain ⟨x, hmem, hx⟩ := forall₂_mem_right hall hl
    obtain ⟨a, ha, hedges⟩ := hlist x l hx
    obtain ⟨u, hu, b, hb, rfl⟩ := forall₂_mem_right hedges hel
    exact ⟨by simpa using hne, u, x.1, x.2,
      Std.ExtTreeMap.mem_toList_iff_getElem?_eq_some.1 hmem, hu, hb, ha⟩
  · intro v us hv u hu
    have hmem : (v, us) ∈ extra.toList := Std.ExtTreeMap.mem_toList_iff_getElem?_eq_some.2 hv
    obtain ⟨l, hl, hx⟩ := forall₂_mem_left hall hmem
    obtain ⟨a, ha, hedges⟩ := hlist (v, us) l hx
    obtain ⟨e, he, b, hb, rfl⟩ := forall₂_mem_left hedges hu
    refine ⟨b, a, hb, ha, fun hne => List.mem_filter.2 ⟨?_, by simpa using hne⟩⟩
    exact List.mem_flatten.2 ⟨l, hl, he⟩

/-! ## Section 4: Phases -/

theorem le_foldl_max {bins : List Nat} {b : Nat} (h : b ∈ bins) : b ≤ bins.foldl max 0 := by
  have hloop : ∀ (xs : List Nat) (m : Nat), m ≤ xs.foldl max m ∧ ∀ x ∈ xs, x ≤ xs.foldl max m := by
    intro xs
    induction xs with
    | nil => simp
    | cons x xs ih =>
      intro m
      obtain ⟨hstart, hrest⟩ := ih (max m x)
      refine ⟨by rw [List.foldl_cons]; omega, fun y hy => ?_⟩
      rcases List.mem_cons.1 hy with rfl | hy
      · rw [List.foldl_cons]
        omega
      · exact hrest y hy
  exact (hloop bins 0).2 b h

theorem mem_barrierEdges {bins : List Nat} {barriers : Nat} {e : Edge} :
    e ∈ barrierEdges bins barriers ↔
      (∃ bin v, bins[v]? = some bin ∧ bin < barriers ∧ e = ⟨v, bins.length + bin⟩) ∨
      (∃ bin v, bins[v]? = some bin ∧ 0 < bin ∧ e = ⟨bins.length + bin - 1, v⟩) ∨
      ∃ k, 1 ≤ k ∧ k < barriers ∧ e = ⟨bins.length + k - 1, bins.length + k⟩ := by
  have hrange : ∀ k, k ∈ List.range' 1 (barriers - 1) ↔ 1 ≤ k ∧ k < barriers := by
    intro k
    rw [List.mem_range'_1]
    omega
  simp only [barrierEdges, List.mem_append, List.mem_flatMap, List.mem_map, Prod.exists,
    List.mem_zipIdx_iff_getElem?, hrange]
  constructor
  · rintro (⟨bin, v, hv, hmem | hmem⟩ | ⟨k, ⟨hk, hlt⟩, rfl⟩)
    · split at hmem
      · rename_i hbin
        exact .inl ⟨bin, v, hv, hbin, List.mem_singleton.1 hmem⟩
      · cases hmem
    · split at hmem
      · rename_i hbin
        exact .inr (.inl ⟨bin, v, hv, hbin, List.mem_singleton.1 hmem⟩)
      · cases hmem
    · exact .inr (.inr ⟨k, hk, hlt, rfl⟩)
  · rintro (⟨bin, v, hv, hbin, rfl⟩ | ⟨bin, v, hv, hbin, rfl⟩ | ⟨k, hk, hlt, rfl⟩)
    · exact .inl ⟨bin, v, hv, .inl (by simp [hbin])⟩
    · exact .inl ⟨bin, v, hv, .inr (by simp [hbin])⟩
    · exact .inr ⟨k, ⟨hk, hlt⟩, rfl⟩

/-- A lower bin leads to a higher one through the barriers in between. -/
theorem transGen_barriers {bins : List Nat} {barriers : Nat} (hbins : ∀ b ∈ bins, b ≤ barriers)
    {u v bu bv : Nat} (hu : bins[u]? = some bu) (hv : bins[v]? = some bv) (hlt : bu < bv) :
    Relation.TransGen (fun u v => (⟨u, v⟩ : Edge) ∈ barrierEdges bins barriers) u v := by
  have hbv : bv ≤ barriers := hbins bv (List.mem_of_getElem? hv)
  have hlast : (⟨bins.length + bv - 1, v⟩ : Edge) ∈ barrierEdges bins barriers :=
    mem_barrierEdges.2 (.inr (.inl ⟨bv, v, hv, by omega, rfl⟩))
  -- from the barrier that ends the lower bin to the one that starts the higher bin
  have hchain : ∀ k, bu + k < barriers →
      Relation.TransGen (fun u v => (⟨u, v⟩ : Edge) ∈ barrierEdges bins barriers) u
        (bins.length + (bu + k)) := by
    intro k
    induction k with
    | zero =>
      intro hk
      exact .single (mem_barrierEdges.2 (.inl ⟨bu, u, hu, hk, rfl⟩))
    | succ k ih =>
      intro hk
      have hstep : (⟨bins.length + (bu + (k + 1)) - 1, bins.length + (bu + (k + 1))⟩ : Edge) ∈
          barrierEdges bins barriers :=
        mem_barrierEdges.2 (.inr (.inr ⟨bu + (k + 1), by omega, hk, rfl⟩))
      rw [show bins.length + (bu + (k + 1)) - 1 = bins.length + (bu + k) by omega] at hstep
      exact (ih (by omega)).tail hstep
  rw [show bins.length + bv - 1 = bins.length + (bu + (bv - bu - 1)) by omega] at hlast
  exact (hchain (bv - bu - 1) (by omega)).tail hlast

/-- The barriers keep the bins apart: in any order that respects their edges,
    a node of an earlier bin stands ahead of one of a later bin. -/
theorem before_of_bin_lt {bins : List Nat} {barriers : Nat} {nodes : List Nat}
    (hn : nodes.Nodup) (hbins : ∀ b ∈ bins, b ≤ barriers)
    (h : ∀ e ∈ barrierEdges bins barriers, Before nodes e.before e.after) {u v bu bv : Nat}
    (hu : bins[u]? = some bu) (hv : bins[v]? = some bv) (hlt : bu < bv) : Before nodes u v :=
  .of_transGen hn (fun _ _ he => h _ he) (transGen_barriers hbins hu hv hlt)

/-! ## Section 5: Valid schedules -/

/-- The phase of an op.  An op without one runs in the first phase. -/
def phaseOf (g : Graph) (op : OpId) : Int :=
  ((g.op? op).bind fun o => o.settings.phase?).getD (-1)

/-- An order of all ops of a graph that respects data, constraints, the extra
    order of a query, and phases if there is more than one. -/
structure IsSchedule (g : Graph) (extra : ExtraOrder) (options : ScheduleOptions)
    (order : List OpId) : Prop where
  perm : order.Perm g.opIds
  edges : ∀ u vs, (u, vs) ∈ g.edgeMap → ∀ v ∈ vs, Before order u v
  extra : ∀ (v : OpId) (us : List OpId), extra[v]? = some us → ∀ u ∈ us, u ≠ v → Before order u v
  phases : 1 < options.phases → order.Pairwise fun u v => g.phaseOf u ≤ g.phaseOf v

/-- The ops of a list of nodes that ends in barriers. -/
theorem op?_of_nodes {ids : List OpId} {nodes barriers : List Node}
    (h : nodes.map Node.op? = ids.map some) (hb : ∀ b ∈ barriers, b.op? = none) (k : Nat) :
    ((nodes ++ barriers)[k]?).bind Node.op? = ids[k]? := by
  have hlen : nodes.length = ids.length := by simpa using congrArg List.length h
  by_cases hk : k < nodes.length
  · have hget := congrArg (·[k]?) h
    simp only [List.getElem?_map] at hget
    rw [List.getElem?_append_left hk]
    have hk' : k < ids.length := by omega
    simpa [hk, hk'] using hget
  · have hnone : ids[k]? = none := List.getElem?_eq_none (by omega)
    rw [List.getElem?_append_right (by omega), hnone, Option.bind_eq_none_iff]
    exact fun b hmem => hb b (List.mem_of_getElem? hmem)

/-- The scheduling options matter to a dependency graph through the number of
    phases alone. -/
theorem dependencies_congr {options' : ScheduleOptions}
    (h : options'.phases = options.phases) :
    g.dependencies extra options' = g.dependencies extra options := by
  unfold dependencies
  rw [h]

/-- What the dependency graph of a graph is made of.  The edges of the graph
    come in one list, those between ops and barriers in another. -/
theorem dependencies_eq_ok (h : g.dependencies extra options = .ok d) :
    (∀ node, d.op? node = g.opIds[node]?) ∧ g.opIds.length ≤ d.size ∧
    ∃ further, extraEdges g.nodeNumbers extra = .ok further ∧
      if options.phases > 1 then
        ∃ bins : List Nat, List.Forall₂ (fun x bin => binOf x.1 x.2 = .ok bin) g.ops.toList bins ∧
          d.size = bins.length + bins.foldl max 0 ∧
          ∀ e, e ∈ d.edges ↔
            e ∈ g.dataEdges g.nodeNumbers ++ g.constraintEdges g.nodeNumbers ++ further ∨
            e ∈ barrierEdges bins (bins.foldl max 0)
      else
        d.size = g.opIds.length ∧
        ∀ e, e ∈ d.edges ↔
          e ∈ g.dataEdges g.nodeNumbers ++ g.constraintEdges g.nodeNumbers ++ further := by
  unfold dependencies at h
  obtain ⟨⟨nodes, table⟩, hnodes, h⟩ := except_bind_eq_ok.1 h
  obtain ⟨further, hfurther, h⟩ := except_bind_eq_ok.1 h
  have hops : nodes.map Node.op? = g.opIds.map some := by
    rw [opNodes_ops hnodes, opIds, ← Std.ExtTreeMap.map_fst_toList_eq_keys, List.map_map]
    rfl
  have hlen : nodes.length = g.opIds.length := by
    simpa using congrArg List.length hops
  by_cases hphases : options.phases > 1
  · -- the barriers follow the ops, so the numbers of the ops are the same
    simp only [hphases, if_true] at h ⊢
    obtain ⟨bins, hbins, h⟩ := except_bind_eq_ok.1 h
    cases h
    have hall := mapM_eq_ok hbins
    have hbinlen : bins.length = g.opIds.length := by
      rw [← hall.length_eq, ← List.length_map (f := Prod.fst),
        Std.ExtTreeMap.map_fst_toList_eq_keys]
      rfl
    have hopNodes : ((nodes.zip bins).map fun x => { x.1 with bin := x.2 }).map Node.op?
        = g.opIds.map some := by
      rw [List.map_map, ← hops]
      refine (List.map_map (f := Prod.fst) (g := Node.op?)).symm.trans ?_
      rw [List.map_fst_zip (by omega)]
    refine ⟨fun node => ?_, ?_, further, hfurther, bins, hall, ?_, fun e => ?_⟩
    · refine (congrArg (Option.bind · Node.op?) List.getElem?_toArray).trans
        (op?_of_nodes hopNodes ?_ node)
      intro b hb
      obtain ⟨k, -, rfl⟩ := List.mem_map.1 hb
      rfl
    · simp only [DependencyGraph.size, List.size_toArray, List.length_append, List.length_map,
        List.length_zip, List.length_range]
      omega
    · simp only [DependencyGraph.size, List.size_toArray, List.length_append, List.length_map,
        List.length_zip, List.length_range]
      omega
    · rw [Std.ExtTreeSet.mem_ofList, List.contains_iff_mem, List.mem_append]
  · simp only [hphases, if_false] at h ⊢
    cases h
    refine ⟨fun node => ?_, Nat.le_of_eq hlen.symm, further, hfurther, hlen, fun e => ?_⟩
    · have hall : ((nodes ++ [])[node]?).bind Node.op? = g.opIds[node]? :=
        op?_of_nodes hops (by simp) node
      rw [List.append_nil] at hall
      exact (congrArg (Option.bind · Node.op?) List.getElem?_toArray).trans hall
    · rw [Std.ExtTreeSet.mem_ofList, List.contains_iff_mem]

/-- The edges of a dependency graph join its nodes. -/
theorem wellFormed_dependencies (h : g.dependencies extra options = .ok d) : d.WellFormed := by
  obtain ⟨-, hsize, further, hfurther, h⟩ := dependencies_eq_ok h
  -- edges between ops
  have hops : ∀ e ∈ g.dataEdges g.nodeNumbers ++ g.constraintEdges g.nodeNumbers ++ further,
      e.before < d.size ∧ e.after < d.size := by
    intro e he
    have hlt : e.before < g.opIds.length ∧ e.after < g.opIds.length := by
      rcases List.mem_append.1 he with he | he
      · rcases List.mem_append.1 he with he | he
        · obtain ⟨op, reader, hop, hreader, -⟩ := mem_dataEdges.1 he
          exact ⟨(List.getElem?_eq_some_iff.1 hop).1, nodeNumbers_lt hreader⟩
        · obtain ⟨c, -, hb, ha⟩ := mem_constraintEdges.1 he
          exact ⟨nodeNumbers_lt hb, nodeNumbers_lt ha⟩
      · obtain ⟨-, u, v, us, -, -, hu, hv⟩ := (mem_extraEdges hfurther).1 e he
        exact ⟨nodeNumbers_lt hu, nodeNumbers_lt hv⟩
    omega
  split at h
  · obtain ⟨bins, -, hbins, hedges⟩ := h
    intro e he
    rcases (hedges e).1 he with he | he
    · exact hops e he
    · have hlt : ∀ {bin v : Nat}, bins[v]? = some bin → v < bins.length ∧
          bin ≤ bins.foldl max 0 := fun hv =>
        ⟨(List.getElem?_eq_some_iff.1 hv).1, le_foldl_max (List.mem_of_getElem? hv)⟩
      rcases mem_barrierEdges.1 he with ⟨bin, v, hv, hbin, rfl⟩ | ⟨bin, v, hv, hbin, rfl⟩ |
        ⟨k, hk, hlt, rfl⟩
      · have hb := hlt hv
        simp only
        omega
      · have hb := hlt hv
        simp only
        omega
      · simp only
        omega
  · intro e he
    exact hops e ((h.2 e).1 he)

/-- Looking up all places of a list gives the list, however far one looks. -/
theorem filterMap_range_getElem? {α : Type} (xs : List α) {n : Nat} (h : xs.length ≤ n) :
    (List.range n).filterMap (xs[·]?) = xs := by
  induction xs generalizing n with
  | nil => simp
  | cons x xs ih =>
    obtain ⟨m, rfl⟩ : ∃ m, n = m + 1 := Nat.exists_eq_succ_of_ne_zero (by
      rw [List.length_cons] at h
      omega)
    have hrest := ih (n := m) (by simpa using h)
    rw [List.range_succ_eq_map, List.filterMap_cons, List.filterMap_map]
    simpa [Function.comp_def] using hrest

/-- The ops of an order are all ops of the graph. -/
theorem perm_opsIn (h : g.dependencies extra options = .ok d) {nodes : List Nat}
    (hn : d.IsOrder nodes) : (d.opsIn nodes).Perm g.opIds := by
  obtain ⟨hop, hsize, -⟩ := dependencies_eq_ok h
  have hfun : d.op? = fun node => g.opIds[node]? := funext hop
  have hall : (List.range d.size).filterMap d.op? = g.opIds := by
    rw [hfun]
    exact filterMap_range_getElem? g.opIds hsize
  exact hall ▸ hn.perm.filterMap d.op?

/-- An edge between the nodes of two ops puts them in order. -/
theorem before_opsIn (h : g.dependencies extra options = .ok d) {nodes : List Nat} {u v : OpId}
    {ku kv : Nat} (hu : g.nodeNumbers[u]? = some ku) (hv : g.nodeNumbers[v]? = some kv)
    (hb : Before nodes ku kv) : Before (d.opsIn nodes) u v := by
  obtain ⟨hop, -⟩ := dependencies_eq_ok h
  refine hb.filterMap ?_ ?_
  · rw [hop]
    exact nodeNumbers_eq_some.1 hu
  · rw [hop]
    exact nodeNumbers_eq_some.1 hv

theorem exists_nodeNumber {op : OpId} (h : (g.op? op).isSome) :
    ∃ k, g.nodeNumbers[op]? = some k := by
  obtain ⟨k, hk⟩ := List.mem_iff_getElem?.1 (mem_opIds.2 h)
  exact ⟨k, nodeNumbers_eq_some.2 hk⟩

theorem mem_successors {u v : OpId} :
    v ∈ g.successors u ↔ v ∈ g.dataSuccessors u ∨ (⟨u, v⟩ : Edge) ∈ g.constraints.toList := by
  rw [successors, Std.ExtTreeSet.mem_ofList, List.contains_iff_mem, List.mem_append,
    Constraints.mem_after]

theorem mem_dataSuccessors {u v : OpId} : v ∈ g.dataSuccessors u ↔
    v ≠ u ∧ ∃ i t, g.outputAt u i = some t ∧ v ∈ g.readers t := by
  unfold dataSuccessors
  cases hu : g.op? u with
  | none => simp [outputAt, hu]
  | some o =>
    simp only [List.mem_flatMap, List.mem_filter, Prod.exists, Ports.mem_toList, outputAt, hu,
      Option.bind_some, decide_eq_true_eq]
    constructor
    · rintro ⟨i, t, hi, hr, hne⟩
      exact ⟨hne, i, t, hi, hr⟩
    · rintro ⟨hne, i, t, hi, hr⟩
      exact ⟨i, t, hi, hr, hne⟩

/-- An op precedes only ops that exist. -/
theorem WellWired.successor_exists (hg : g.WellWired) {u v : OpId} (h : v ∈ g.successors u) :
    (g.op? v).isSome := by
  rcases mem_successors.1 h with h | h
  · obtain ⟨-, i, t, -, hr⟩ := mem_dataSuccessors.1 h
    obtain ⟨x, hx⟩ := hg.reader_exists hr
    simp [hx]
  · exact (hg.constrained _ h).2

theorem WellWired.predecessor_exists (hg : g.WellWired) {u v : OpId} (h : v ∈ g.successors u) :
    (g.op? u).isSome := by
  rcases mem_successors.1 h with h | h
  · obtain ⟨-, i, t, hi, -⟩ := mem_dataSuccessors.1 h
    obtain ⟨x, hx, -⟩ := outputAt_eq_some.1 hi
    simp [hx]
  · exact (hg.constrained _ h).1

/-- The dependency graph has an edge wherever one op has to precede another. -/
theorem mem_edges_of_successor (h : g.dependencies extra options = .ok d) {u v : OpId}
    {ku kv : Nat} (hu : g.nodeNumbers[u]? = some ku) (hv : g.nodeNumbers[v]? = some kv)
    (hsucc : v ∈ g.successors u) : (⟨ku, kv⟩ : Edge) ∈ d.edges := by
  obtain ⟨-, -, further, -, h⟩ := dependencies_eq_ok h
  have hmem : (⟨ku, kv⟩ : Edge) ∈
      g.dataEdges g.nodeNumbers ++ g.constraintEdges g.nodeNumbers ++ further := by
    refine List.mem_append_left _ (List.mem_append.2 ?_)
    rcases mem_successors.1 hsucc with hs | hs
    · exact .inl (mem_dataEdges.2 ⟨u, v, nodeNumbers_eq_some.1 hu, hv, hs⟩)
    · exact .inr (mem_constraintEdges.2 ⟨_, hs, hu, hv⟩)
  split at h
  · obtain ⟨bins, -, -, hedges⟩ := h
    exact (hedges _).2 (.inl hmem)
  · exact (h.2 _).2 hmem

theorem binOf_eq_ok {op : OpId} {o : Op} {bin : Nat} (h : binOf op o = .ok bin) :
    o.settings.phase?.getD (-1) = (bin : Int) - 1 := by
  unfold binOf at h
  simp only at h
  split at h
  · cases h
  · cases h
    omega

/-- The node of an op is in the bin of its phase. -/
theorem bin_of_op {bins : List Nat}
    (h : List.Forall₂ (fun x bin => binOf x.1 x.2 = .ok bin) g.ops.toList bins) {op : OpId}
    {k : Nat} (hk : g.nodeNumbers[op]? = some k) :
    ∃ bin, bins[k]? = some bin ∧ g.phaseOf op = (bin : Int) - 1 := by
  have hid := nodeNumbers_eq_some.1 hk
  rw [opIds, ← Std.ExtTreeMap.map_fst_toList_eq_keys, List.getElem?_map,
    Option.map_eq_some_iff] at hid
  obtain ⟨⟨op', o⟩, hget, rfl⟩ := hid
  obtain ⟨bin, hbin, hok⟩ := forall₂_getElem? h hget
  have hop : g.op? op' = some o :=
    Std.ExtTreeMap.mem_toList_iff_getElem?_eq_some.1 (List.mem_of_getElem? hget)
  refine ⟨bin, hbin, ?_⟩
  rw [phaseOf, hop]
  exact binOf_eq_ok hok

/-- **Orders of the dependency graph are valid schedules.** -/
theorem isSchedule_opsIn (hg : g.WellWired) (h : g.dependencies extra options = .ok d)
    {nodes : List Nat} (hn : d.IsOrder nodes) : g.IsSchedule extra options (d.opsIn nodes) := by
  have hperm := perm_opsIn h hn
  have hnodup : (d.opsIn nodes).Nodup := hperm.nodup_iff.2 g.nodup_opIds
  refine ⟨hperm, ?_, ?_, ?_⟩
  · -- data and constraints
    intro u vs hmem v hv
    obtain ⟨op, hop, heq⟩ := List.mem_map.1 hmem
    obtain ⟨rfl, rfl⟩ := Prod.mk.inj heq
    have hsucc : v ∈ g.successors op := Std.ExtTreeSet.mem_toList.1 hv
    obtain ⟨ku, hu⟩ := exists_nodeNumber (mem_opIds.1 hop)
    obtain ⟨kv, hkv⟩ := exists_nodeNumber (hg.successor_exists hsucc)
    exact before_opsIn h hu hkv (hn.respects _ (mem_edges_of_successor h hu hkv hsucc))
  · -- the extra order of the query, in which an op ahead of itself says nothing
    intro v us hv u hu hne
    obtain ⟨-, -, further, hfurther, hspec⟩ := dependencies_eq_ok h
    obtain ⟨b, a, hb, ha, hedge⟩ := (mem_extraEdges hfurther).2 v us hv u hu
    have hba : b ≠ a := by
      rintro rfl
      have hsame := (nodeNumbers_eq_some.1 hb).symm.trans (nodeNumbers_eq_some.1 ha)
      exact hne (Option.some.inj hsame)
    have hmem : (⟨b, a⟩ : Edge) ∈ d.edges := by
      split at hspec
      · obtain ⟨bins, -, -, hedges⟩ := hspec
        exact (hedges _).2 (.inl (List.mem_append_right _ (hedge hba)))
      · exact (hspec.2 _).2 (List.mem_append_right _ (hedge hba))
    exact before_opsIn h hb ha (hn.respects _ hmem)
  · intro hphases
    obtain ⟨-, -, further, hfurther, hspec⟩ := dependencies_eq_ok h
    rw [if_pos hphases] at hspec
    obtain ⟨bins, hbins, -, hedges⟩ := hspec
    refine List.pairwise_iff_forall_sublist.2 fun {u v} huv => ?_
    obtain ⟨ku, hu⟩ := exists_nodeNumber (mem_opIds.1 (hperm.mem_iff.1 (Before.left_mem huv)))
    obtain ⟨kv, hv⟩ := exists_nodeNumber (mem_opIds.1 (hperm.mem_iff.1 (Before.right_mem huv)))
    obtain ⟨bu, hbu, hpu⟩ := bin_of_op hbins hu
    obtain ⟨bv, hbv, hpv⟩ := bin_of_op hbins hv
    by_contra hlt
    -- an earlier bin would have put `v` ahead of `u`
    have hback : Before nodes kv ku :=
      before_of_bin_lt hn.nodup (fun b hb => le_foldl_max hb)
        (fun e he => hn.respects e ((hedges e).2 (.inr he))) hbv hbu (by omega)
    exact Before.asymm huv hnodup (before_opsIn h hv hu hback)

end Graph

/-! ## Section 6: Scheduling and freezing a graph -/

namespace Planner

variable {p p' : Planner} {g : Graph} {extra : ExtraOrder}

/-- **Every answer of a planner is a valid schedule**, and its memory stays
    sound. -/
theorem Sound.scheduleGraph (hp : p.Sound) (hg : g.WellWired) {optimal : Bool} {chance : Chance}
    {answer : Except ScheduleError (List OpId)}
    (h : p.scheduleGraph g extra optimal chance = (answer, p')) :
    p'.Sound ∧ ∀ order, answer = .ok order → g.IsSchedule extra p.options order := by
  unfold Planner.scheduleGraph at h
  split at h
  · rename_i d hd
    obtain ⟨hsound, horder⟩ := hp.schedule (Graph.wellFormed_dependencies hd) h
    refine ⟨hsound, fun order hok => ?_⟩
    obtain ⟨nodes, hnodes, rfl⟩ := horder order hok
    exact Graph.isSchedule_opsIn hg hd hnodes
  · cases h
    exact ⟨hp, fun order hok => nomatch hok⟩

/-- Freezing only adds constraints. -/
theorem parts_freeze {g' : Graph} {chance : Chance}
    (h : p.freeze g extra chance = (.ok g', p')) :
    g'.ops = g.ops ∧ g'.tensors = g.tensors := by
  unfold Planner.freeze at h
  split at h
  · cases h
    exact ⟨rfl, rfl⟩
  · cases h

/-- **Freezing keeps the wiring**: the new constraints are on ops of the graph. -/
theorem Sound.freeze (hp : p.Sound) (hg : g.WellWired) {chance : Chance}
    {answer : Except ScheduleError Graph} (h : p.freeze g extra chance = (answer, p')) :
    p'.Sound ∧ ∀ g', answer = .ok g' → g'.WellWired := by
  unfold Planner.freeze at h
  split at h
  · rename_i order p₁ horder
    cases h
    obtain ⟨hsound, hschedule⟩ := hp.scheduleGraph hg horder
    refine ⟨hsound, fun g' hg' => ?_⟩
    cases hg'
    have hmem : ∀ o ∈ order, (g.op? o).isSome := fun o ho =>
      Graph.mem_opIds.1 ((hschedule order rfl).perm.mem_iff.1 ho)
    refine Edit.constrain_wellWired hg
      (Edit.constraints_foldl (P := fun o => (g.op? o).isSome) hg.constrained fun x hx => ?_)
    have hzip := List.of_mem_zip hx
    exact ⟨hmem _ hzip.1, hmem _ (List.mem_of_mem_tail hzip.2)⟩
  · cases h
    obtain ⟨hsound, -⟩ := hp.scheduleGraph hg ‹_›
    exact ⟨hsound, fun g' hg' => nomatch hg'⟩

end Planner

end Dataflow
