import Dataflow.Proofs.Activity
import Dataflow.Proofs.Schedulable

/-! # Schedules and cycles

    Whether a graph can be scheduled depends on one relation between its ops,
    `Graph.MustPrecede`: an op comes before the readers of its outputs, the
    constraints and the extra order of a query are kept, and lower phases come
    before higher ones.  A schedule is found exactly if this relation has no
    cycle, and a cycle is the only reason why none is found.

    Kahn's traversal works on the dependency graph, in which barriers stand
    for the comparison of phases.  The proof goes from one relation to the
    other: an edge into or out of a barrier raises the phase, so a cycle stays
    within one phase and has no barrier in it; and a comparison of phases is a
    path through barriers. -/

namespace Dataflow

open Relation

/-- A graph whose ops read only from ops with smaller numbers has no data
    cycles. -/
theorem Graph.acyclic_of_feeders {g : Graph}
    (h : ∀ x ∈ g.ops.toList, ∀ u ∈ g.feeders x.1, u < x.1) : Acyclic g.Feeds := by
  refine acyclic_of_lt fun u v huv => ?_
  have hfeeds := huv
  obtain ⟨index, t, hin, -⟩ := hfeeds
  obtain ⟨o, ho, -⟩ := inputAt_eq_some.1 hin
  exact h (v, o) (Std.ExtTreeMap.mem_toList_iff_getElem?_eq_some.2 ho) u (mem_feeders.2 huv)

/-! ## Section 1: Verdicts on a dependency graph -/

/-- An order that is respected rules out cycles. -/
theorem DependencyGraph.IsOrder.acyclic {d : DependencyGraph} {order : List Nat}
    (h : d.IsOrder order) : Acyclic d.Precedes := by
  intro x hx
  have hself : Before order x x := .of_transGen h.nodup (fun u v huv => h.respects _ huv) hx
  exact hself.asymm h.nodup hself

/-- As long as a node is ready, one is picked: a traversal never fails. -/
theorem Traversal.exists_run {σ : Type} (d : DependencyGraph) (dice : Dice σ) (tieBreak : TieBreak)
    (descendants? : Option (Array Nat)) (rounds : Nat) (t : Traversal σ) :
    ∃ t', Traversal.run d dice tieBreak descendants? rounds t = .ok t' := by
  induction rounds generalizing t with
  | zero => exact ⟨t, rfl⟩
  | succ rounds ih =>
    unfold Traversal.run
    cases hempty : t.ready.isEmpty with
    | true => exact ⟨t, rfl⟩
    | false =>
      obtain ⟨i, s, hpick, -⟩ := pick_eq_some (d := d) hempty dice tieBreak descendants?
      simp only [Bool.false_eq_true, if_false, hpick]
      exact ih _

namespace DependencyGraph

variable {d : DependencyGraph} {σ : Type} {dice : Dice σ} {s : σ} {tieBreak : TieBreak}

/-- A traversal that gets stuck reports a cycle. -/
theorem traverse_eq_error {descendants? : Option (Array Nat)} {e : ScheduleError}
    (h : d.traverse dice tieBreak descendants? s = .error e) : ∃ ops, e = .cycle ops := by
  obtain ⟨t, ht⟩ := Traversal.exists_run d dice tieBreak descendants? d.size (Traversal.start d s)
  unfold traverse at h
  rw [ht] at h
  change (if t.taken.length < d.size then _ else _) = _ at h
  split at h
  · cases h
    exact ⟨_, rfl⟩
  · cases h

/-- Without an order by readiness there is a cycle to report. -/
theorem listOrderWith_eq_error {useClosure : Bool} {e : ScheduleError}
    (h : d.listOrderWith dice s tieBreak useClosure = .error e) : ∃ ops, e = .cycle ops := by
  unfold listOrderWith at h
  split at h
  · rcases except_bind_eq_error.1 h with hfirst | ⟨order, -, hsecond⟩
    · exact traverse_eq_error hfirst
    · exact traverse_eq_error hsecond
  · exact traverse_eq_error h

/-- **Orders by readiness and cycles exclude each other**, and there always is
    one of them. -/
theorem listOrderWith_isOk_iff (hd : d.WellFormed) (dice : Dice σ) (s : σ) (tieBreak : TieBreak)
    (useClosure : Bool) :
    (d.listOrderWith dice s tieBreak useClosure).isOk = true ↔ Acyclic d.Precedes := by
  constructor
  · intro hok
    cases horder : d.listOrderWith dice s tieBreak useClosure with
    | ok order => exact (listOrderWith_isOrder hd horder).acyclic
    | error e =>
      rw [horder] at hok
      cases hok
  · intro hac
    obtain ⟨order, horder⟩ := listOrderWith_eq_ok dice s tieBreak hd hac useClosure
    rw [horder]
    rfl

/-- Annealing turns orders into orders, so it does not change the verdict. -/
theorem schedule_isOk_iff (hd : d.WellFormed) (options : ScheduleOptions) (optimal : Bool)
    (chance : Chance) :
    (d.schedule options optimal chance).isOk = true ↔ Acyclic d.Precedes := by
  rw [← listOrderWith_isOk_iff hd chance.dice chance.start options.tieBreak
    (optimal && d.size ≤ options.closureThreshold)]
  unfold schedule
  simp only
  cases d.listOrderWith chance.dice chance.start options.tieBreak
      (optimal && d.size ≤ options.closureThreshold) with
  | error e => exact Iff.rfl
  | ok order => cases optimal <;> exact Iff.rfl

theorem schedule_eq_error {options : ScheduleOptions} {optimal : Bool} {chance : Chance}
    {e : ScheduleError} (h : d.schedule options optimal chance = .error e) :
    ∃ ops, e = .cycle ops := by
  unfold schedule at h
  rcases except_bind_eq_error.1 h with hlist | ⟨order, -, hrest⟩
  · exact listOrderWith_eq_error hlist
  · cases optimal <;> cases hrest

end DependencyGraph

namespace Planner

variable {p : Planner} {d : DependencyGraph}

/-- Without a cycle there is an order, from memory or not. -/
theorem schedule_isOk (hd : d.WellFormed) (hac : Acyclic d.Precedes) (optimal : Bool)
    (chance : Chance) : (p.schedule d optimal chance).1.isOk = true := by
  unfold Planner.schedule
  cases p.remembered? d optimal with
  | some ops => rfl
  | none =>
    have hok := (DependencyGraph.schedule_isOk_iff hd p.options optimal chance).2 hac
    simp only
    cases hschedule : d.schedule p.options optimal chance with
    | ok order => rfl
    | error e =>
      rw [hschedule] at hok
      cases hok

/-- What keeps a planner from finding an order is a cycle. -/
theorem schedule_eq_error {optimal : Bool} {chance : Chance} {e : ScheduleError}
    (h : (p.schedule d optimal chance).1 = .error e) : ∃ ops, e = .cycle ops := by
  unfold Planner.schedule at h
  cases hremembered : p.remembered? d optimal with
  | some ops =>
    rw [hremembered] at h
    cases h
  | none =>
    rw [hremembered] at h
    simp only at h
    cases hschedule : d.schedule p.options optimal chance with
    | ok order =>
      rw [hschedule] at h
      cases h
    | error e' =>
      rw [hschedule] at h
      cases h
      exact DependencyGraph.schedule_eq_error hschedule

/-- **The verdict of a planner**, from memory or not: what it gives out is an
    order, so there is no cycle. -/
theorem Sound.schedule_isOk_iff (hp : p.Sound) (hd : d.WellFormed) (optimal : Bool)
    (chance : Chance) : (p.schedule d optimal chance).1.isOk = true ↔ Acyclic d.Precedes := by
  refine ⟨fun hok => ?_, fun hac => schedule_isOk hd hac optimal chance⟩
  cases hanswer : p.schedule d optimal chance with
  | mk answer p' =>
    cases answer with
    | ok ops =>
      obtain ⟨nodes, hnodes, -⟩ := (hp.schedule hd hanswer).2 ops rfl
      exact hnodes.acyclic
    | error e =>
      rw [hanswer] at hok
      cases hok

end Planner

/-! ## Section 2: What has to run before what -/

namespace Graph

variable {g : Graph} {d : DependencyGraph} {extra : ExtraOrder} {options : ScheduleOptions}

/-- Something asks for op number `u` to run before op number `v`. -/
inductive Asks (g : Graph) (extra : ExtraOrder) (u v : OpId) : Prop where
  /-- `v` reads what `u` produces. -/
  | data (hne : u ≠ v) (h : g.Feeds u v)
  | constraint (h : (⟨u, v⟩ : Edge) ∈ g.constraints.toList)
  /-- The query puts `u` ahead of `v`. -/
  | extra (hne : u ≠ v) {us : List OpId} (h : extra[v]? = some us) (hu : u ∈ us)

/-- Op number `u` has to run before op number `v`.  Phases count only if there
    is more than one. -/
inductive MustPrecede (g : Graph) (extra : ExtraOrder) (options : ScheduleOptions) (u v : OpId) :
    Prop where
  | asked (h : g.Asks extra u v)
  | phase (hphases : 1 < options.phases) (hu : (g.op? u).isSome) (hv : (g.op? v).isSome)
      (hlt : g.phaseOf u < g.phaseOf v)

/-- A query names ops of the graph only. -/
def Names (g : Graph) (extra : ExtraOrder) : Prop :=
  ∀ (v : OpId) (us : List OpId), extra[v]? = some us →
    (g.op? v).isSome ∧ ∀ u ∈ us, (g.op? u).isSome

theorem names_empty (g : Graph) : g.Names ∅ := by
  intro v us hus
  simp at hus

/-- If phases count, none of them is below -1, which stands for having none. -/
def ValidPhases (g : Graph) (options : ScheduleOptions) : Prop :=
  1 < options.phases → ∀ op, (g.op? op).isSome → -1 ≤ g.phaseOf op

theorem WellWired.mem_dataSuccessors_iff (hg : g.WellWired) {u v : OpId} :
    v ∈ g.dataSuccessors u ↔ u ≠ v ∧ g.Feeds u v := by
  rw [mem_dataSuccessors]
  constructor
  · intro ⟨hne, i, t, hi, hr⟩
    obtain ⟨j, hj⟩ := hg.reader_iff.1 hr
    exact ⟨hne.symm, j, t, hj, (hg.produces t u).2 ⟨i, hi⟩⟩
  · intro ⟨hne, j, t, hj, hp⟩
    obtain ⟨i, hi⟩ := (hg.produces t u).1 hp
    exact ⟨hne.symm, i, t, hi, hg.reader_iff.2 ⟨j, hj⟩⟩

/-- The ops that are asked to run one before the other are there. -/
theorem Asks.exist (hg : g.WellWired) (hextra : g.Names extra) {u v : OpId}
    (h : g.Asks extra u v) : (g.op? u).isSome ∧ (g.op? v).isSome := by
  cases h with
  | data _ h =>
    obtain ⟨i, t, hi, hp⟩ := h
    obtain ⟨x, hx⟩ := hg.producer_exists hp
    obtain ⟨y, hy, -⟩ := inputAt_eq_some.1 hi
    simp [hx, hy]
  | constraint h => exact hg.constrained _ h
  | extra _ h hu =>
    obtain ⟨hv, hus⟩ := hextra _ _ h
    exact ⟨hus _ hu, hv⟩

theorem MustPrecede.exist (hg : g.WellWired) (hextra : g.Names extra) {u v : OpId}
    (h : g.MustPrecede extra options u v) : (g.op? u).isSome ∧ (g.op? v).isSome := by
  cases h with
  | asked h => exact h.exist hg hextra
  | phase _ hu hv _ => exact ⟨hu, hv⟩

/-- The edges between ops in a dependency graph are those that something asks
    for. -/
theorem WellWired.mem_opEdges (hg : g.WellWired) {further : List Edge}
    (hfurther : extraEdges g.nodeNumbers extra = .ok further) {e : Edge} :
    e ∈ g.dataEdges g.nodeNumbers ++ g.constraintEdges g.nodeNumbers ++ further ↔
      ∃ u v, g.nodeNumbers[u]? = some e.before ∧ g.nodeNumbers[v]? = some e.after ∧
        g.Asks extra u v := by
  rw [List.mem_append, List.mem_append, mem_dataEdges, mem_constraintEdges]
  constructor
  · intro h
    rcases h with (⟨u, v, hu, hv, hmem⟩ | ⟨c, hc, hu, hv⟩) | he
    · obtain ⟨hne, hfeeds⟩ := hg.mem_dataSuccessors_iff.1 hmem
      exact ⟨u, v, nodeNumbers_eq_some.2 hu, hv, .data hne hfeeds⟩
    · exact ⟨c.before, c.after, hu, hv, .constraint hc⟩
    · obtain ⟨hne, u, v, us, hus, hmem, hu, hv⟩ := (mem_extraEdges hfurther).1 e he
      refine ⟨u, v, hu, hv, .extra (fun heq => hne ?_) hus hmem⟩
      rw [heq, hv] at hu
      exact (Option.some.inj hu).symm
  · intro ⟨u, v, hu, hv, h⟩
    cases h with
    | data hne hfeeds =>
      exact .inl (.inl ⟨u, v, nodeNumbers_eq_some.1 hu, hv,
        hg.mem_dataSuccessors_iff.2 ⟨hne, hfeeds⟩⟩)
    | constraint hc => exact .inl (.inr ⟨_, hc, hu, hv⟩)
    | extra hne hus hmem =>
      obtain ⟨b, a, hb, ha, hedge⟩ := (mem_extraEdges hfurther).2 v _ hus u hmem
      rw [hu] at hb
      rw [hv] at ha
      cases hb
      cases ha
      refine .inr (hedge fun heq => hne ?_)
      have hsame := nodeNumbers_eq_some.1 hu
      rw [heq, nodeNumbers_eq_some.1 hv] at hsame
      exact (Option.some.inj hsame).symm

/-! ## Section 3: Barriers stand for the comparison of phases -/

/-- Twice the bin of an op, and one more for the barrier that ends the bin. -/
def level (bins : List Nat) (node : Nat) : Nat :=
  match bins[node]? with
  | some bin => 2 * bin
  | none => 2 * (node - bins.length) + 1

theorem level_of_bin {bins : List Nat} {v bin : Nat} (h : bins[v]? = some bin) :
    level bins v = 2 * bin := by simp [level, h]

theorem level_barrier (bins : List Nat) (k : Nat) : level bins (bins.length + k) = 2 * k + 1 := by
  simp [level]

/-- Edges into and out of barriers lead upwards. -/
theorem level_lt_of_barrierEdge {bins : List Nat} {barriers : Nat} {e : Edge}
    (h : e ∈ barrierEdges bins barriers) : level bins e.before < level bins e.after := by
  rcases mem_barrierEdges.1 h with ⟨bin, v, hv, -, rfl⟩ | ⟨bin, v, hv, hpos, rfl⟩ | ⟨k, hk, -, rfl⟩
  · simp only
    rw [level_of_bin hv, level_barrier]
    omega
  · simp only
    rw [show bins.length + bin - 1 = bins.length + (bin - 1) by omega, level_barrier,
      level_of_bin hv]
    omega
  · simp only
    rw [show bins.length + k - 1 = bins.length + (k - 1) by omega, level_barrier, level_barrier]
    omega

/-- Every step between ops is a path between their nodes. -/
theorem MustPrecede.transGen (hg : g.WellWired)
    (hd : g.dependencies extra options = .ok d) {u v : OpId} {ku kv : Nat}
    (hu : g.nodeNumbers[u]? = some ku) (hv : g.nodeNumbers[v]? = some kv)
    (h : g.MustPrecede extra options u v) : TransGen d.Precedes ku kv := by
  obtain ⟨-, -, further, hfurther, hspec⟩ := dependencies_eq_ok hd
  cases h with
  | asked h =>
    have hmem := (hg.mem_opEdges hfurther (e := ⟨ku, kv⟩)).2 ⟨u, v, hu, hv, h⟩
    refine .single ?_
    split at hspec
    · obtain ⟨bins, -, -, hedges⟩ := hspec
      exact (hedges _).2 (.inl hmem)
    · exact (hspec.2 _).2 hmem
  | phase hphases _ _ hlt =>
    rw [if_pos hphases] at hspec
    obtain ⟨bins, hbins, -, hedges⟩ := hspec
    obtain ⟨bu, hbu, hpu⟩ := bin_of_op hbins hu
    obtain ⟨bv, hbv, hpv⟩ := bin_of_op hbins hv
    have hpath := transGen_barriers (fun b hb => le_foldl_max hb) hbu hbv (by omega)
    exact hpath.lift id fun _ _ he => (hedges _).2 (.inr he)

end Graph

/-- A step that raises a level or keeps it and maps into a relation without
    cycles closes no cycle. -/
theorem Acyclic.lex {α β : Type} {r : α → α → Prop} {s : β → β → Prop} (hs : Acyclic s)
    (level : α → Nat) (f : α → β)
    (h : ∀ u v, r u v → level u < level v ∨ level u = level v ∧ s (f u) (f v)) : Acyclic r := by
  have hpath : ∀ u v, TransGen r u v →
      level u < level v ∨ level u = level v ∧ TransGen s (f u) (f v) := by
    intro u v huv
    induction huv with
    | single hstep =>
      rcases h _ _ hstep with hlt | ⟨heq, hs⟩
      · exact .inl hlt
      · exact .inr ⟨heq, .single hs⟩
    | tail _ hstep ih =>
      rcases h _ _ hstep with hlt | ⟨heq, hs⟩
      · rcases ih with hlt' | ⟨heq', -⟩
        · exact .inl (Nat.lt_trans hlt' hlt)
        · exact .inl (heq' ▸ hlt)
      · rcases ih with hlt' | ⟨heq', hs'⟩
        · exact .inl (heq ▸ hlt')
        · exact .inr ⟨heq'.trans heq, hs'.tail hs⟩
  intro x hx
  rcases hpath x x hx with hlt | ⟨-, hcycle⟩
  · exact Nat.lt_irrefl _ hlt
  · exact hs (f x) hcycle

namespace Graph

variable {g : Graph} {d : DependencyGraph} {extra : ExtraOrder} {options : ScheduleOptions}

/-- **The two relations have cycles together.** -/
theorem WellWired.acyclic_iff (hg : g.WellWired) (hextra : g.Names extra)
    (hd : g.dependencies extra options = .ok d) :
    Acyclic d.Precedes ↔ Acyclic (g.MustPrecede extra options) := by
  constructor
  · intro hac x hx
    refine hac _ (hx.lift' (fun op => (g.nodeNumbers[op]?).getD 0) fun u v huv => ?_)
    obtain ⟨hu, hv⟩ := huv.exist hg hextra
    obtain ⟨ku, hku⟩ := exists_nodeNumber hu
    obtain ⟨kv, hkv⟩ := exists_nodeNumber hv
    show TransGen d.Precedes ((g.nodeNumbers[u]?).getD 0) ((g.nodeNumbers[v]?).getD 0)
    rw [hku, hkv]
    exact huv.transGen hg hd hku hkv
  · intro hac
    obtain ⟨-, -, further, hfurther, hspec⟩ := dependencies_eq_ok hd
    have hnode : ∀ {op : OpId} {k : Nat}, g.nodeNumbers[op]? = some k →
        (g.opIds[k]?).getD 0 = op := by
      intro op k hk
      simp [nodeNumbers_eq_some.1 hk]
    split at hspec
    · -- the bins of the nodes never go down: the ops would be in a cycle with their phases
      rename_i hphases
      obtain ⟨bins, hbins, -, hedges⟩ := hspec
      refine hac.lex (level bins) (fun k => (g.opIds[k]?).getD 0) fun k l hkl => ?_
      rcases (hedges _).1 hkl with hop | hbarrier
      · obtain ⟨u, v, hu, hv, hasks⟩ := (hg.mem_opEdges hfurther).1 hop
        obtain ⟨bu, hbu, hpu⟩ := bin_of_op hbins hu
        obtain ⟨bv, hbv, hpv⟩ := bin_of_op hbins hv
        have hback : ¬ g.phaseOf v < g.phaseOf u := by
          intro hlt
          obtain ⟨hu', hv'⟩ := hasks.exist hg hextra
          exact hac u (.tail (.single (.asked hasks)) (.phase hphases hv' hu' hlt))
        rw [level_of_bin hbu, level_of_bin hbv, hnode hu, hnode hv]
        by_cases hsame : bu = bv
        · exact .inr ⟨by rw [hsame], .asked hasks⟩
        · exact .inl (by omega)
      · exact .inl (level_lt_of_barrierEdge hbarrier)
    · refine hac.comap (fun k => (g.opIds[k]?).getD 0) fun k l hkl => ?_
      obtain ⟨u, v, hu, hv, hasks⟩ := (hg.mem_opEdges hfurther).1 ((hspec.2 _).1 hkl)
      rw [hnode hu, hnode hv]
      exact .asked hasks

/-! ## Section 4: Schedules -/

/-- Tensors that exist have their allocations. -/
theorem allocsOf_eq_ok (op : OpId) {ids : List TensorId} (h : ∀ t ∈ ids, (g.tensor? t).isSome)
    (allocs : List Nat) (table : AllocTable) : ∃ r, g.allocsOf op ids allocs table = .ok r := by
  induction ids generalizing allocs table with
  | nil => exact ⟨_, rfl⟩
  | cons id rest ih =>
    obtain ⟨x, hx⟩ := Option.isSome_iff_exists.1 (h id List.mem_cons_self)
    have hrest := ih fun t ht => h t (List.mem_cons_of_mem id ht)
    unfold allocsOf
    rw [hx]
    simp only
    split
    · exact hrest allocs table
    · exact hrest _ _

theorem WellWired.opNodes_eq_ok (hg : g.WellWired) (ops : List (OpId × Op))
    (h : ∀ x ∈ ops, g.op? x.1 = some x.2) (table : AllocTable) :
    ∃ r, g.opNodes ops table = .ok r := by
  induction ops generalizing table with
  | nil => exact ⟨_, rfl⟩
  | cons x rest ih =>
    obtain ⟨op, o⟩ := x
    have ho := h (op, o) List.mem_cons_self
    have htouched : ∀ t ∈ touched o, (g.tensor? t).isSome := by
      intro t ht
      obtain ⟨⟨i, t'⟩, hmem, rfl⟩ := List.mem_map.1 ht
      rcases List.mem_append.1 hmem with hin | hout
      · have hi := Ports.mem_toList.1 (List.mem_filter.1 hin).1
        obtain ⟨y, hy⟩ := hg.input_exists (inputAt_eq_some.2 ⟨o, ho, hi⟩)
        simp [hy]
      · obtain ⟨y, hy, -⟩ := hg.output_exists
          (outputAt_eq_some.2 ⟨o, ho, Ports.mem_toList.1 hout⟩)
        simp [hy]
    obtain ⟨⟨allocs, table₁⟩, hallocs⟩ := allocsOf_eq_ok op htouched [] table
    obtain ⟨⟨nodes, table₂⟩, hnodes⟩ := ih (fun y hy => h y (List.mem_cons_of_mem _ hy)) table₁
    refine ⟨_, except_bind_eq_ok.2 ⟨_, hallocs, except_bind_eq_ok.2 ⟨_, hnodes, rfl⟩⟩⟩

/-- A query that names ops of the graph has its edges. -/
theorem Names.extraEdges_eq_ok (h : g.Names extra) :
    ∃ further, extraEdges g.nodeNumbers extra = .ok further := by
  have hnode : ∀ {op : OpId}, (g.op? op).isSome → ∃ k, namedNode g.nodeNumbers op = .ok k := by
    intro op hop
    obtain ⟨k, hk⟩ := exists_nodeNumber hop
    exact ⟨k, namedNode_eq_ok.2 hk⟩
  unfold extraEdges
  have hlists : ∃ lists, (extra.toList.mapM fun x => do
      let a ← namedNode g.nodeNumbers x.1
      x.2.mapM fun before => do
        let b ← namedNode g.nodeNumbers before
        return (⟨b, a⟩ : Edge)) = Except.ok lists := by
    refine mapM_exists_ok _ _ fun x hx => ?_
    obtain ⟨hv, hus⟩ := h x.1 x.2 (Std.ExtTreeMap.mem_toList_iff_getElem?_eq_some.1 hx)
    obtain ⟨a, ha⟩ := hnode hv
    rw [ha]
    refine mapM_exists_ok _ _ fun u hu => ?_
    obtain ⟨b, hb⟩ := hnode (hus u hu)
    exact ⟨_, except_bind_eq_ok.2 ⟨b, hb, rfl⟩⟩
  obtain ⟨lists, hlists⟩ := hlists
  exact ⟨_, except_bind_eq_ok.2 ⟨lists, hlists, rfl⟩⟩

/-- A well wired graph has a dependency graph for every query that names its
    ops. -/
theorem WellWired.exists_dependencies (hg : g.WellWired) (hextra : g.Names extra)
    (hphases : g.ValidPhases options) : ∃ d, g.dependencies extra options = .ok d := by
  obtain ⟨⟨nodes, table⟩, hnodes⟩ := hg.opNodes_eq_ok g.ops.toList
    (fun x hx => Std.ExtTreeMap.mem_toList_iff_getElem?_eq_some.1 hx) {}
  obtain ⟨further, hfurther⟩ := hextra.extraEdges_eq_ok
  unfold dependencies
  dsimp only [bind, Except.bind]
  rw [hnodes]
  dsimp only
  rw [hfurther]
  dsimp only
  split
  · rename_i hmany
    obtain ⟨bins, hbins⟩ := mapM_exists_ok (fun x => binOf x.1 x.2) g.ops.toList fun x hx => by
      have hop : g.op? x.1 = some x.2 := Std.ExtTreeMap.mem_toList_iff_getElem?_eq_some.1 hx
      have hphase := hphases hmany x.1 (by simp [hop])
      rw [phaseOf, hop, Option.bind_some] at hphase
      exact ⟨_, if_neg (by omega)⟩
    rw [hbins]
    exact ⟨_, rfl⟩
  · exact ⟨_, rfl⟩

theorem WellWired.isSchedulable_iff (hg : g.WellWired) (hextra : g.Names extra)
    (hphases : g.ValidPhases options) :
    g.isSchedulable extra options = true ↔ Acyclic (g.MustPrecede extra options) := by
  obtain ⟨d, hd⟩ := hg.exists_dependencies hextra hphases
  unfold isSchedulable
  rw [hd, ← hg.acyclic_iff hextra hd]
  exact DependencyGraph.listOrderWith_isOk_iff (wellFormed_dependencies hd) _ _ _ _

theorem IsSchedule.nodup {order : List OpId} (h : g.IsSchedule extra options order) :
    order.Nodup :=
  h.perm.nodup_iff.2 (nodup_opIds g)

/-- A schedule runs one op before the other wherever this is asked for. -/
theorem IsSchedule.before_of_asks {order : List OpId} (h : g.IsSchedule extra options order)
    (hg : g.WellWired) {u v : OpId} (huv : g.Asks extra u v) : Before order u v := by
  have horders : ∀ {u v}, g.Orders u v → Before order u v := by
    intro u v hsucc
    rw [← hg.runsBefore_eq] at hsucc
    obtain ⟨later, hmem, hv⟩ := hsucc
    exact h.edges u later hmem v hv
  cases huv with
  | data hne hfeeds =>
    exact horders (mem_successors.2 (.inl (hg.mem_dataSuccessors_iff.2 ⟨hne, hfeeds⟩)))
  | constraint hc => exact horders (mem_successors.2 (.inr hc))
  | extra hne hus hmem => exact h.extra v _ hus u hmem hne

/-- A schedule runs one op before the other wherever it must. -/
theorem IsSchedule.before {order : List OpId} (h : g.IsSchedule extra options order)
    (hg : g.WellWired) {u v : OpId} (huv : g.MustPrecede extra options u v) :
    Before order u v := by
  cases huv with
  | asked huv => exact h.before_of_asks hg huv
  | phase hphases hu hv hlt =>
    have hmem : ∀ {op}, (g.op? op).isSome → op ∈ order := fun hop =>
      h.perm.mem_iff.2 (mem_opIds.2 hop)
    have hne : u ≠ v := fun heq => by simp [heq] at hlt
    rcases Before.total (hmem hu) (hmem hv) hne with hforward | hback
    · exact hforward
    · have hle := List.pairwise_iff_forall_sublist.1 (h.phases hphases) hback
      omega

end Graph

namespace Planner

variable {p : Planner} {g : Graph} {extra : ExtraOrder}

/-- **A planner schedules a graph exactly if no cycle stands against it.** -/
theorem Sound.scheduleGraph_isOk_iff (hp : p.Sound) (hg : g.WellWired) (hextra : g.Names extra)
    (hphases : g.ValidPhases p.options) (optimal : Bool) (chance : Chance) :
    (p.scheduleGraph g extra optimal chance).1.isOk = true ↔
      Acyclic (g.MustPrecede extra p.options) := by
  obtain ⟨d, hd⟩ := hg.exists_dependencies hextra hphases
  unfold Planner.scheduleGraph
  rw [hd, ← hg.acyclic_iff hextra hd]
  exact hp.schedule_isOk_iff (Graph.wellFormed_dependencies hd) optimal chance

/-- **A graph that has an order is scheduled.** -/
theorem scheduleGraph_of_isOrder {d : DependencyGraph} {order : List Nat}
    (hd : g.dependencies extra p.options = .ok d) (horder : d.IsOrder order) (optimal : Bool)
    (chance : Chance) : ∃ ops, (p.scheduleGraph g extra optimal chance).1 = .ok ops := by
  have hok := schedule_isOk (p := p) (Graph.wellFormed_dependencies hd) horder.acyclic optimal
    chance
  unfold Planner.scheduleGraph
  rw [hd]
  exact except_isOk_iff.1 hok

theorem scheduleGraph_eq_error (hg : g.WellWired) (hextra : g.Names extra)
    (hphases : g.ValidPhases p.options) {optimal : Bool} {chance : Chance} {e : ScheduleError}
    (h : (p.scheduleGraph g extra optimal chance).1 = .error e) : ∃ ops, e = .cycle ops := by
  obtain ⟨d, hd⟩ := hg.exists_dependencies hextra hphases
  unfold Planner.scheduleGraph at h
  rw [hd] at h
  exact schedule_eq_error h

/-- **A graph whose order has no cycle is scheduled**, if phases do not matter. -/
theorem scheduleGraph_eq_ok (hg : g.WellWired) (hac : Acyclic g.Orders)
    (hphases : p.options.phases ≤ 1) (optimal : Bool) (chance : Chance) :
    ∃ order, (p.scheduleGraph g ∅ optimal chance).1 = .ok order := by
  have hextra := g.names_empty
  have hmany : ¬ 1 < p.options.phases := by omega
  obtain ⟨d, hd⟩ := hg.exists_dependencies hextra fun hlt => absurd hlt hmany
  have hall : Acyclic (g.MustPrecede ∅ p.options) := by
    refine hac.comap id fun u v huv => ?_
    rw [Graph.Orders, Graph.mem_successors, hg.mem_dataSuccessors_iff]
    cases huv with
    | asked h =>
      cases h with
      | data hne hfeeds => exact .inl ⟨hne, hfeeds⟩
      | constraint hc => exact .inr hc
      | extra _ hus => simp at hus
    | phase hlt => exact absurd hlt hmany
  have hok := schedule_isOk (p := p) (Graph.wellFormed_dependencies hd)
    ((hg.acyclic_iff hextra hd).2 hall) optimal chance
  unfold Planner.scheduleGraph
  rw [hd]
  exact except_isOk_iff.1 hok

end Planner

end Dataflow
