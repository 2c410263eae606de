import Dataflow.Proofs.Reachability

/-! # Answers from memory

    A planner that answers from memory should answer as one that has none.
    Let chance be a matter of the options alone.  Then what is remembered is
    the order that would be made again for the dependency graph it was made
    for (`Planner.Faithful`), and it is given out for dependency graphs that
    compare equal.

    Dependency graphs that compare equal are the same up to the sign of
    priorities that are zero, and the order by readiness does depend on that
    sign.  So memory goes unnoticed as long as no op changes from the one zero
    to the other (`Chronicle.SteadyZeros`), and such a change can be noticed.
    What a failed query leaves behind and what the counters say does not depend
    on this. -/

namespace Dataflow

/-! ## Section 1: Dependency graphs that compare equal -/

namespace Graph

variable {g : Graph} {d : DependencyGraph} {extra : ExtraOrder} {options : ScheduleOptions}

theorem opNodes_priorities {ops : List (OpId × Op)} {table table' : AllocTable}
    {nodes : List Node} (h : g.opNodes ops table = .ok (nodes, table')) {n : Node}
    (hn : n ∈ nodes) : ∃ x ∈ ops, n.op? = some x.1 ∧ n.priority = x.2.settings.priority := by
  induction ops generalizing table nodes with
  | nil =>
    cases h
    cases hn
  | cons head rest ih =>
    obtain ⟨⟨allocs, table₁⟩, -, h⟩ := except_bind_eq_ok.1 h
    obtain ⟨⟨later, table₂⟩, hrest, h⟩ := except_bind_eq_ok.1 h
    cases h
    rcases List.mem_cons.1 hn with rfl | hn
    · exact ⟨head, List.mem_cons_self, rfl, rfl⟩
    · obtain ⟨x, hx, hop⟩ := ih hrest hn
      exact ⟨x, List.mem_cons_of_mem _ hx, hop⟩

/-- A node has the priority of its op.  Barriers have priority zero. -/
theorem dependencies_priorities (h : g.dependencies extra options = .ok d) {n : Node}
    (hn : n ∈ d.nodes) :
    (∃ x ∈ g.ops.toList, n.op? = some x.1 ∧ n.priority = x.2.settings.priority) ∨
      n.op? = none ∧ n.priority = .zero := by
  unfold dependencies at h
  obtain ⟨⟨nodes, table⟩, hnodes, h⟩ := except_bind_eq_ok.1 h
  obtain ⟨further, -, h⟩ := except_bind_eq_ok.1 h
  split at h
  · obtain ⟨bins, -, h⟩ := except_bind_eq_ok.1 h
    cases h
    rcases List.mem_append.1 (List.mem_toArray.1 hn) with hn | hn
    · obtain ⟨⟨m, bin⟩, hm, rfl⟩ := List.mem_map.1 hn
      obtain ⟨x, hx, hop, hpriority⟩ := opNodes_priorities hnodes (List.of_mem_zip hm).1
      exact .inl ⟨x, hx, hop, hpriority⟩
    · obtain ⟨k, -, rfl⟩ := List.mem_map.1 hn
      exact .inr ⟨rfl, rfl⟩
  · cases h
    exact .inl (opNodes_priorities hnodes (List.mem_toArray.1 hn))

/-- No op has the one zero as its priority in the one graph and the other zero
    in the other. -/
def SameZeros (g g' : Graph) : Prop :=
  ∀ x ∈ g.ops.toList, ∀ y ∈ g'.ops.toList, x.1 = y.1 →
    ¬ Binary64.OppositeZeros x.2.settings.priority y.2.settings.priority

instance (g g' : Graph) : Decidable (SameZeros g g') :=
  inferInstanceAs (Decidable (∀ x ∈ g.ops.toList, ∀ y ∈ g'.ops.toList, x.1 = y.1 →
    ¬ Binary64.OppositeZeros x.2.settings.priority y.2.settings.priority))

end Graph

namespace DependencyGraph

theorem node_eq_of_beq {a b : Node} (h : (a == b) = true)
    (hzeros : ¬ Binary64.OppositeZeros a.priority b.priority) : a = b := by
  obtain ⟨hop, hallocs, hpriority, hbin⟩ := node_of_beq h
  rcases Binary64.eq_or_oppositeZeros_of_beq hpriority with hpriority | hopposite
  · cases a
    cases b
    cases hop
    cases hallocs
    cases hpriority
    cases hbin
    rfl
  · exact absurd hopposite hzeros

/-- Dependency graphs that compare equal are the same if their nodes do not
    differ in the sign of a zero. -/
theorem eq_of_beq_of_zeros {d d' : DependencyGraph} (h : (d == d') = true)
    (hzeros : ∀ a ∈ d.nodes, ∀ b ∈ d'.nodes, a.op? = b.op? →
      ¬ Binary64.OppositeZeros a.priority b.priority) : d = d' := by
  have hand : (d.nodes == d'.nodes && (d.allocSizes == d'.allocSizes && d.edges == d'.edges))
      = true := h
  simp only [Bool.and_eq_true, beq_iff_eq] at hand
  obtain ⟨hnodes, hsizes, hedges⟩ := hand
  obtain ⟨hsize, hsame⟩ := Array.isEqv_iff_rel.1 hnodes
  have hall : d.nodes = d'.nodes := by
    refine Array.ext hsize fun i hi hi' => node_eq_of_beq (hsame i hi) ?_
    exact hzeros _ (Array.getElem_mem hi) _ (Array.getElem_mem hi') (node_of_beq (hsame i hi)).1
  cases d
  cases d'
  cases hall
  cases hsizes
  cases hedges
  rfl

end DependencyGraph

/-- **Dependency graphs of two graphs** that compare equal are the same, unless
    an op changed from the one zero to the other. -/
theorem Graph.SameZeros.dependencies_eq {g g' : Graph} (hzeros : g.SameZeros g')
    {extra extra' : ExtraOrder} {options options' : ScheduleOptions} {d d' : DependencyGraph}
    (hd : g.dependencies extra options = .ok d) (hd' : g'.dependencies extra' options' = .ok d')
    (h : (d == d') = true) : d = d' := by
  refine DependencyGraph.eq_of_beq_of_zeros h fun a ha b hb hop => ?_
  rcases Graph.dependencies_priorities hd ha with ⟨x, hx, hxop, hxp⟩ | ⟨hanone, hap⟩
  · rcases Graph.dependencies_priorities hd' hb with ⟨y, hy, hyop, hyp⟩ | ⟨hbnone, -⟩
    · -- nodes that compare equal stand for the same op
      have hxy : x.1 = y.1 := Option.some.inj (hxop.symm.trans (hop.trans hyop))
      rw [hxp, hyp]
      exact hzeros x hx y hy hxy
    · rw [hxop, hbnone] at hop
      cases hop
  · rcases Graph.dependencies_priorities hd' hb with ⟨y, -, hyop, -⟩ | ⟨-, hbp⟩
    · rw [hanone, hyop] at hop
      cases hop
    · -- barriers have the same zero
      rw [hap, hbp]
      decide

/-! ## Section 2: What a query can do -/

namespace Planner

variable {p : Planner} {g : Graph} {extra : ExtraOrder} {optimal : Bool}

/-- What a query can answer, and what it makes of the planner. -/
inductive Outcome (p : Planner) (g : Graph) (extra : ExtraOrder) (optimal : Bool)
    (chance : Chance) : Except ScheduleError (List OpId) × Planner → Prop where
  /-- There is no dependency graph. -/
  | unbuilt (e : ScheduleError) (h : g.dependencies extra p.options = .error e) :
    Outcome p g extra optimal chance (.error e, p)
  /-- The answer comes from memory. -/
  | recalled (d : DependencyGraph) (r : Remembered) (h : g.dependencies extra p.options = .ok d)
    (hlast : p.last? = some r) (hsame : (r.graph == d) = true)
    (hgood : (r.optimal || !optimal) = true) :
    Outcome p g extra optimal chance (.ok r.order, { p with hits := p.hits + 1 })
  /-- A new order is made and remembered. -/
  | planned (d : DependencyGraph) (order : List OpId) (h : g.dependencies extra p.options = .ok d)
    (hplan : d.schedule p.options optimal chance = .ok order) :
    Outcome p g extra optimal chance
      (.ok order, { p with misses := p.misses + 1, last? := some ⟨d, order, optimal⟩ })
  /-- There is no order. -/
  | failed (d : DependencyGraph) (e : ScheduleError) (h : g.dependencies extra p.options = .ok d)
    (hplan : d.schedule p.options optimal chance = .error e) :
    Outcome p g extra optimal chance (.error e, { p with misses := p.misses + 1 })

theorem outcome_scheduleGraph (p : Planner) (g : Graph) (extra : ExtraOrder) (optimal : Bool)
    (chance : Chance) :
    Outcome p g extra optimal chance (p.scheduleGraph g extra optimal chance) := by
  unfold scheduleGraph
  split
  · rename_i d hd
    unfold schedule
    split
    · rename_i order hremembered
      unfold remembered? at hremembered
      split at hremembered
      · rename_i r hlast
        split at hremembered
        · rename_i hsame
          cases hremembered
          obtain ⟨hbeq, hgood⟩ := Bool.and_eq_true_iff.1 hsame
          exact .recalled d r hd hlast hbeq hgood
        · cases hremembered
      · cases hremembered
    · simp only
      split
      · rename_i order hplan
        exact .planned d order hd hplan
      · rename_i e hplan
        exact .failed d e hd hplan
  · rename_i e he
    exact .unbuilt e he

/-- A query that fails leaves the memory as it was. -/
theorem Outcome.last?_of_error {chance : Chance} {x : Except ScheduleError (List OpId) × Planner}
    (h : Outcome p g extra optimal chance x) {e : ScheduleError} (he : x.1 = .error e) :
    x.2.last? = p.last? := by
  cases h with
  | unbuilt e' _ => rfl
  | recalled d r _ _ _ _ => cases he
  | planned d order _ _ => cases he
  | failed d e' _ _ => rfl

theorem planner_freeze (p : Planner) (g : Graph) (extra : ExtraOrder) (chance : Chance) :
    (p.freeze g extra chance).2 = (p.scheduleGraph g extra true chance).2 := by
  unfold freeze
  split
  · rename_i hschedule
    rw [hschedule]
  · rename_i hschedule
    rw [hschedule]

/-- A planner that remembers an order for a graph of `past` as it would be made
    again, and that has answered `queries` queries. -/
structure Faithful (chance : ScheduleOptions → Chance) (past : List Graph) (queries : Nat)
    (p : Planner) : Prop where
  again : ∀ r, p.last? = some r →
    r.graph.schedule p.options r.optimal (chance p.options) = .ok r.order
  origin : ∀ r, p.last? = some r → ∃ g ∈ past, ∃ extra options,
    g.dependencies extra options = .ok r.graph
  counted : p.hits + p.misses = queries

namespace Faithful

variable {chance : ScheduleOptions → Chance} {past : List Graph} {queries : Nat}

theorem later (hp : Faithful chance past queries p) (g : Graph) :
    Faithful chance (g :: past) queries p where
  again := hp.again
  origin r hr := by
    obtain ⟨g', hmem, hd⟩ := hp.origin r hr
    exact ⟨g', List.mem_cons_of_mem _ hmem, hd⟩
  counted := hp.counted

theorem setOptions (hp : Faithful chance past queries p) (options : ScheduleOptions) :
    Faithful chance past queries (p.setOptions options) := by
  unfold Planner.setOptions
  split
  · -- the memory is gone, the counters are not
    exact ⟨nofun, nofun, hp.counted⟩
  · exact hp

/-- **A query keeps a planner faithful.**  It is counted if there is a
    dependency graph. -/
theorem outcome (hp : Faithful chance past queries p)
    {x : Except ScheduleError (List OpId) × Planner}
    (h : Outcome p g extra optimal (chance p.options) x) :
    Faithful chance (g :: past)
      (queries + if (g.dependencies extra p.options).isOk then 1 else 0) x.2 := by
  have hlater := hp.later g
  have hcounted := hp.counted
  have hbuilt : ∀ {d}, g.dependencies extra p.options = .ok d →
      (if (g.dependencies extra p.options).isOk then 1 else 0) = 1 := by
    intro d hd
    rw [hd]
    rfl
  cases h with
  | unbuilt e hd =>
    rw [hd]
    exact hlater
  | recalled d r hd hlast hsame hgood =>
    refine ⟨hlater.again, hlater.origin, ?_⟩
    rw [hbuilt hd]
    show p.hits + 1 + p.misses = queries + 1
    omega
  | planned d order hd hplan =>
    -- the only outcome that changes the memory
    refine ⟨fun r hr => ?_, fun r hr => ?_, ?_⟩
    · cases hr
      exact hplan
    · cases hr
      exact ⟨g, List.mem_cons_self, extra, p.options, hd⟩
    · rw [hbuilt hd]
      show p.hits + (p.misses + 1) = queries + 1
      omega
  | failed d e hd hplan =>
    refine ⟨hlater.again, hlater.origin, ?_⟩
    rw [hbuilt hd]
    show p.hits + (p.misses + 1) = queries + 1
    omega

/-- **A faithful planner answers as one without memory**, if no op changed
    from the one zero to the other since the past.  An annealed order may
    answer a query for any order. -/
theorem answer_eq (hp : Faithful chance past queries p)
    (hzeros : ∀ g' ∈ past, g'.SameZeros g) {x : Except ScheduleError (List OpId) × Planner}
    (h : Outcome p g extra optimal (chance p.options) x) :
    ∃ annealed, (annealed = optimal ∨ annealed = true) ∧
      x.1 = (g.dependencies extra p.options >>= fun d =>
        d.schedule p.options annealed (chance p.options)) := by
  cases h with
  | unbuilt e hd =>
    rw [hd]
    exact ⟨optimal, .inl rfl, rfl⟩
  | recalled d r hd hlast hsame hgood =>
    rw [hd]
    -- the memory is of an earlier graph, perhaps under another query
    obtain ⟨g', hmem, extra', options', hd'⟩ := hp.origin r hlast
    have hgraph : r.graph = d := (hzeros g' hmem).dependencies_eq hd' hd hsame
    refine ⟨r.optimal, ?_, ?_⟩
    · -- a query for a good order is answered by a good one
      revert hgood
      cases r.optimal <;> cases optimal <;> simp
    · exact hgraph ▸ (hp.again r hlast).symm
  | planned d order hd hplan =>
    rw [hd]
    exact ⟨optimal, .inl rfl, hplan.symm⟩
  | failed d e hd hplan =>
    rw [hd]
    exact ⟨optimal, .inl rfl, hplan.symm⟩

end Faithful

end Planner

/-! ## Section 3: Chronicles -/

namespace Call

/-- The call under a certain chance. -/
def withChance (chance : Chance) : Call → Call
  | schedule extra optimal _ => schedule extra optimal chance
  | freeze extra _ => freeze extra chance
  | c => c

/-- Whether a call asks for an order, and there is a dependency graph to put in
    order. -/
def asks (w : Workspace) : Call → Bool
  | schedule extra _ _ => (w.graph.dependencies extra w.planner.options).isOk
  | freeze extra _ => (w.graph.dependencies extra w.planner.options).isOk
  | _ => false

/-- What a call can do to the planner: nothing, a change of the options, or one
    query. -/
theorem planner_run (w : Workspace) (chance : Chance) (c : Call) :
    ((c.withChance chance).run w).planner = w.planner ∧ c.asks w = false ∨
    (∃ options, ((c.withChance chance).run w).planner = w.planner.setOptions options ∧
      c.asks w = false) ∨
    ∃ extra optimal, ((c.withChance chance).run w).planner
        = (w.planner.scheduleGraph w.graph extra optimal chance).2 ∧
      c.asks w = (w.graph.dependencies extra w.planner.options).isOk := by
  cases c with
  | setOptions options => exact .inr (.inl ⟨options, rfl, rfl⟩)
  | schedule extra optimal _ => exact .inr (.inr ⟨extra, optimal, rfl, rfl⟩)
  | freeze extra _ =>
    -- pinning an order asks for a good one first
    refine .inr (.inr ⟨extra, true, ?_, rfl⟩)
    rw [← Planner.planner_freeze]
    unfold withChance Call.run
    simp only
    split
    · rename_i hfreeze
      rw [hfreeze]
    · rename_i hfreeze
      rw [hfreeze]
  | _ => exact .inl ⟨rfl, rfl⟩

end Call

namespace Workspace

/-- Ask for an order of all ops, with chance as the options decide it. -/
def ask (chance : ScheduleOptions → Chance) (w : Workspace) (extra : ExtraOrder)
    (optimal : Bool) : Except ScheduleError (List OpId) × Planner :=
  w.planner.scheduleGraph w.graph extra optimal (chance w.planner.options)

/-- An order of all ops that is made without regard to memory. -/
def plan (chance : ScheduleOptions → Chance) (w : Workspace) (extra : ExtraOrder)
    (optimal : Bool) : Except ScheduleError (List OpId) := do
  let d ← w.graph.dependencies extra w.planner.options
  d.schedule w.planner.options optimal (chance w.planner.options)

end Workspace

/-- A workspace with its past. -/
structure Chronicle where
  /-- The graphs that the workspace went through, the latest one first. -/
  past : List Graph := []
  now : Workspace
  /-- Number of queries that had a dependency graph. -/
  queries : Nat := 0

namespace Chronicle

variable {chance : ScheduleOptions → Chance} {h : Chronicle}

/-- One more call. -/
def step (chance : ScheduleOptions → Chance) (h : Chronicle) (c : Call) : Chronicle where
  past := h.now.graph :: h.past
  now := (c.withChance (chance h.now.planner.options)).run h.now
  queries := h.queries + if c.asks h.now then 1 else 0

/-- All calls, on an empty graph. -/
def after (chance : ScheduleOptions → Chance) (scope : String) (calls : List Call) : Chronicle :=
  calls.foldl (step chance) { now := { graph := { scope := scope } } }

/-- No op has the one zero as its priority and had the other zero before. -/
def SteadyZeros (h : Chronicle) : Prop := ∀ g ∈ h.past, g.SameZeros h.now.graph

instance (h : Chronicle) : Decidable h.SteadyZeros :=
  inferInstanceAs (Decidable (∀ g ∈ h.past, g.SameZeros h.now.graph))

/-- The planner is faithful to the past. -/
def Faithful (chance : ScheduleOptions → Chance) (h : Chronicle) : Prop :=
  h.now.planner.Faithful chance h.past h.queries

/-- **One call** keeps the planner faithful. -/
theorem Faithful.step (hf : h.Faithful chance) (c : Call) :
    (h.step chance c).Faithful chance := by
  unfold Chronicle.Faithful Chronicle.step
  rcases Call.planner_run h.now (chance h.now.planner.options) c with
    ⟨hplanner, hasks⟩ | ⟨options, hplanner, hasks⟩ | ⟨extra, optimal, hplanner, hasks⟩
  · rw [hplanner, hasks]
    exact hf.later h.now.graph
  · rw [hplanner, hasks]
    exact (hf.setOptions options).later h.now.graph
  · rw [hplanner, hasks]
    exact hf.outcome (Planner.outcome_scheduleGraph _ _ _ _ _)

/-- **Whole histories** keep the planner faithful. -/
theorem faithful_after (chance : ScheduleOptions → Chance) (scope : String) (calls : List Call) :
    (after chance scope calls).Faithful chance := by
  have hrun : ∀ (calls : List Call) (h : Chronicle), h.Faithful chance →
      (calls.foldl (step chance) h).Faithful chance := by
    intro calls
    induction calls with
    | nil => exact fun h hf => hf
    | cons c rest ih => exact fun h hf => ih _ (hf.step c)
  exact hrun calls _ ⟨nofun, nofun, rfl⟩

/-! ## Section 4: Memory goes unnoticed -/

/-- **Memory goes unnoticed.**  Let chance depend on the options alone, and let
    any calls have been made.  If no op changed from the one zero to the other,
    a query for a good order is answered by the order that would be made
    without memory, and a query for any order by that one or by the one that
    is not annealed.  In any case a query that fails leaves the memory as it
    was, and the two counters add up to the queries that had a dependency
    graph. -/
theorem memory_unnoticed (chance : ScheduleOptions → Chance) (scope : String)
    (calls : List Call) :
    let h := after chance scope calls
    (h.SteadyZeros → ∀ extra,
      (h.now.ask chance extra true).1 = h.now.plan chance extra true ∧
      ((h.now.ask chance extra false).1 = h.now.plan chance extra true ∨
        (h.now.ask chance extra false).1 = h.now.plan chance extra false)) ∧
    (∀ extra optimal e, (h.now.ask chance extra optimal).1 = .error e →
      (h.now.ask chance extra optimal).2.last? = h.now.planner.last?) ∧
    h.now.planner.hits + h.now.planner.misses = h.queries := by
  intro h
  have hf : h.Faithful chance := faithful_after chance scope calls
  have houtcome : ∀ extra optimal, Planner.Outcome h.now.planner h.now.graph extra optimal
      (chance h.now.planner.options) (h.now.ask chance extra optimal) :=
    fun extra optimal => Planner.outcome_scheduleGraph _ _ _ _ _
  refine ⟨fun hzeros extra => ⟨?_, ?_⟩, fun extra optimal e he => ?_, hf.counted⟩
  · obtain ⟨annealed, rfl | rfl, hanswer⟩ := hf.answer_eq hzeros (houtcome extra true)
    · exact hanswer
    · exact hanswer
  · obtain ⟨annealed, rfl | rfl, hanswer⟩ := hf.answer_eq hzeros (houtcome extra false)
    · exact .inr hanswer
    · exact .inl hanswer
  · exact (houtcome extra optimal).last?_of_error he

/-- An op goes first until its priority drops.  Two other ops keep zeros of
    different signs.  The second query is answered from memory, and the third
    one names an op that is not there. -/
def droppingPriority : List Call := [
  .setOptions { swapLimit := 0 },
  .createOp Builtin.relu.operator {},
  .createOp Builtin.relu.operator { priority := .ofFloat 1.5 },
  .createOp Builtin.relu.operator { priority := .negZero },
  .addConstraint 0 2,
  .schedule ∅ true (.ofOptions {}),
  .schedule ∅ false (.ofOptions {}),
  .schedule (.ofList [(7, [0])]) false (.ofOptions {}),
  .configure 1 fun s => { s with priority := .ofFloat (-1) },
  .schedule ∅ false (.ofOptions {})]

theorem droppingPriority_unnoticed :
    let h := after Chance.ofOptions "" droppingPriority
    h.SteadyZeros ∧
    (h.now.ask Chance.ofOptions ∅ true).1 = h.now.plan Chance.ofOptions ∅ true ∧
    (h.now.plan Chance.ofOptions ∅ true).toOption = some [0, 2, 1] ∧
    h.now.planner.hits + h.now.planner.misses = h.queries ∧
    h.now.planner.hits = 1 ∧ h.queries = 3 := by
  have hzeros : (after Chance.ofOptions "" droppingPriority).SteadyZeros := by decide +kernel
  obtain ⟨hsame, -, hcounted⟩ := memory_unnoticed Chance.ofOptions "" droppingPriority
  exact ⟨hzeros, (hsame hzeros ∅).1, by decide +kernel, hcounted, by decide +kernel,
    by decide +kernel⟩

/-- An op changes from minus zero to zero between two queries. -/
def zeroSign : List Call := [
  .setOptions { swapLimit := 0 },
  .createOp Builtin.relu.operator { priority := .negZero },
  .createOp Builtin.relu.operator {},
  .schedule ∅ true (.ofOptions {}),
  .configure 0 fun s => { s with priority := .zero }]

/-- The sign of zero decides which op goes first, and memory does not see it:
    the order from before the change is given out after it. -/
theorem zeroSign_noticed :
    let h := after Chance.ofOptions "" zeroSign
    (h.now.ask Chance.ofOptions ∅ true).1.toOption = some [1, 0] ∧
    (h.now.ask Chance.ofOptions ∅ false).1.toOption = some [1, 0] ∧
    (h.now.plan Chance.ofOptions ∅ true).toOption = some [0, 1] ∧
    (h.now.plan Chance.ofOptions ∅ false).toOption = some [0, 1] := by
  decide +kernel

end Chronicle

end Dataflow
