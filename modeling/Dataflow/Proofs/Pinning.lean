import Mathlib.Data.List.Chain
import Dataflow.Proofs.Frames

/-! # Pinned schedules

    To freeze a schedule, every op is constrained to run after the one before
    it.  These constraints leave one order only: two orders of the same ops
    that go along the same chain are equal.

    Constraints between two ops last as long as the ops do, and the number of
    an op is never given to another one.  So whatever calls come later, as long
    as the ops are the same, the chain is still there, and every answer of the
    planner is the pinned order.

    The chain does not stand against anything that has been asked for, because
    the pinned order itself is a schedule.  So the query that led to it can be
    answered again. -/

namespace Dataflow

open Dataflow.Graph

variable {g g' : Graph} {order : List OpId}

/-! ## Section 1: Chains -/

/-- The steps of an order are its neighbours. -/
theorem mem_zip_tail {u v : OpId} :
    (u, v) ∈ order.zip order.tail ↔ ∃ i, order[i]? = some u ∧ order[i + 1]? = some v := by
  rw [List.mem_iff_getElem?]
  simp only [List.getElem?_zip_eq_some, List.getElem?_tail]

/-- A step of an order leads forward. -/
theorem before_of_step {u v : OpId} (h : (u, v) ∈ order.zip order.tail) : Before order u v := by
  obtain ⟨i, hu, hv⟩ := mem_zip_tail.1 h
  exact .of_lt hu hv (Nat.lt_succ_self i)

/-- **One order only** goes along a chain of all ops. -/
theorem eq_of_steps {order' : List OpId} (hperm : order'.Perm order) (hnodup : order'.Nodup)
    (hsteps : ∀ x ∈ order.zip order.tail, Before order' x.1 x.2) : order' = order := by
  have hchain : order.IsChain (Before order') := by
    refine List.isChain_iff_getElem.2 fun i hi => ?_
    exact hsteps (order[i], order[i + 1]) (mem_zip_tail.2 ⟨i, by simp, by simp⟩)
  have htrans : Trans (Before order') (Before order') (Before order') :=
    ⟨fun h h' => h.trans hnodup h'⟩
  -- both orders are sorted by what stands ahead in the first one
  have hsorted : order'.Pairwise (Before order') := List.pairwise_iff_forall_sublist.2 id
  refine List.Perm.eq_of_pairwise (fun a b _ _ hab hba => ?_) hsorted hchain.pairwise hperm
  exact absurd hba (hab.asymm hnodup)

/-! ## Section 2: Constraints that last -/

namespace Graph

/-- The pairs are constrained, as long as their ops are there, and their
    numbers are not given out again. -/
structure Pinned (pairs : List (OpId × OpId)) (g : Graph) : Prop where
  constrained : ∀ x ∈ pairs, (g.op? x.1).isSome → (g.op? x.2).isSome →
    (⟨x.1, x.2⟩ : Edge) ∈ g.constraints.toList
  spent : ∀ x ∈ pairs, x.1 < g.nextOp ∧ x.2 < g.nextOp

variable {pairs : List (OpId × OpId)}

theorem Pinned.withOp (h : Pinned pairs g) (operator : Operator) (settings : OpSettings) :
    Pinned pairs (g.withOp operator settings) where
  constrained x hx h₁ h₂ := by
    -- the new op has a number that none of the pairs has
    obtain ⟨hlt₁, hlt₂⟩ := h.spent x hx
    rw [op?_withOp, if_neg (Nat.ne_of_lt hlt₁)] at h₁
    rw [op?_withOp, if_neg (Nat.ne_of_lt hlt₂)] at h₂
    exact h.constrained x hx h₁ h₂
  spent x hx := ⟨Nat.lt_succ_of_lt (h.spent x hx).1, Nat.lt_succ_of_lt (h.spent x hx).2⟩

theorem Pinned.withoutOp (h : Pinned pairs g) (op : OpId) : Pinned pairs (g.withoutOp op) where
  constrained x hx h₁ h₂ := by
    rw [op?_withoutOp] at h₁ h₂
    split at h₁
    · cases h₁
    split at h₂
    · cases h₂
    rename_i hne₁ hne₂
    exact Constraints.mem_toList_erase.2 ⟨h.constrained x hx h₁ h₂, hne₁, hne₂⟩
  spent := h.spent

theorem frameOnly_pinned (pairs : List (OpId × OpId)) : FrameOnly (Pinned pairs) := by
  intro g g' hframe h
  refine ⟨fun x hx h₁ h₂ => ?_, fun x hx => ?_⟩
  · rw [hframe.op] at h₁ h₂
    rw [hframe.constraints]
    exact h.constrained x hx h₁ h₂
  · rw [hframe.nextOp]
    exact h.spent x hx

theorem keptByFrame_pinned (pairs : List (OpId × OpId)) : KeptByFrame (Pinned pairs) where
  frame := frameOnly_pinned pairs
  order hmore h := ⟨fun x hx h₁ h₂ => hmore _ (h.constrained x hx h₁ h₂), h.spent⟩
  withOp operator settings h := h.withOp operator settings
  withoutOp op h := h.withoutOp op
  without _ h := ⟨h.constrained, h.spent⟩
  addInput := (frameOnly_pinned pairs).addInput fun _ h => ⟨h.constrained, h.spent⟩
  markInput := keeps_markInput fun _ h => ⟨h.constrained, h.spent⟩
  markOutput := keeps_markOutput fun _ h => ⟨h.constrained, h.spent⟩
  removeOutput := keeps_removeOutput fun _ h => ⟨h.constrained, h.spent⟩

theorem keptByCalls_pinned (pairs : List (OpId × OpId)) : KeptByCalls (Pinned pairs) where
  toKeptByOtherCalls := (keptByFrame_pinned pairs).keptByOtherCalls
  replaceTensor := (frameOnly_pinned pairs).replaceTensor fun _ h => ⟨h.constrained, h.spent⟩

end Graph

/-! ## Section 3: What freezing adds -/

theorem Constraints.insert_of_mem {c : Constraints} {before after : OpId}
    (h : (⟨before, after⟩ : Edge) ∈ c.toList) : c.insert before after = c := by
  refine ext_toList fun e => ?_
  rw [mem_toList_insert]
  refine ⟨?_, .inr⟩
  rintro (⟨-, rfl⟩ | he)
  · exact h
  · exact he

theorem Constraints.foldl_insert_of_mem {pairs : List (OpId × OpId)} {c : Constraints}
    (h : ∀ x ∈ pairs, (⟨x.1, x.2⟩ : Edge) ∈ c.toList) :
    pairs.foldl (fun c x => c.insert x.1 x.2) c = c := by
  induction pairs with
  | nil => rfl
  | cons x rest ih =>
    rw [List.foldl_cons, insert_of_mem (h x List.mem_cons_self)]
    exact ih fun y hy => h y (List.mem_cons_of_mem x hy)

namespace Graph

/-- `g'` is `g` with a constraint for each step of the order. -/
structure Chained (order : List OpId) (g g' : Graph) : Prop where
  rest : g' = { g with constraints := g'.constraints }
  constraints : ∀ e : Edge, e ∈ g'.constraints.toList ↔
    e ∈ g.constraints.toList ∨ (e.before, e.after) ∈ order.zip order.tail

variable {extra : ExtraOrder} {options : ScheduleOptions} {d : DependencyGraph}

/-- **A chain along a schedule makes no cycle**, since all that was asked for
    leads forward in the schedule. -/
theorem Chained.acyclic (h : Chained order g g') (hg : g.WellWired)
    (horder : g.IsSchedule extra options order) : Acyclic (g'.MustPrecede extra options) := by
  have hforward : ∀ u v, g'.MustPrecede extra options u v → Before order u v := by
    intro u v huv
    rw [h.rest] at huv
    cases huv with
    | phase hphases hu hv hlt => exact horder.before hg (.phase hphases hu hv hlt)
    | asked huv =>
      cases huv with
      | data hne hfeeds => exact horder.before_of_asks hg (.data hne hfeeds)
      | extra hne hus hmem => exact horder.before_of_asks hg (.extra hne hus hmem)
      | constraint hc =>
        rcases (h.constraints _).1 hc with hold | hstep
        · exact horder.before_of_asks hg (.constraint hold)
        · exact before_of_step hstep
  intro x hx
  have hself := Before.of_transGen horder.nodup hforward hx
  exact hself.asymm horder.nodup hself

/-- The steps of a schedule stay constrained after it is frozen. -/
theorem Chained.pinned (h : Chained order g g') (hg : g.WellWired)
    (horder : g.IsSchedule extra options order) : Pinned (order.zip order.tail) g' where
  constrained x hx _ _ := (h.constraints _).2 (.inr hx)
  spent x hx := by
    have hstep := before_of_step hx
    have hlt : ∀ op ∈ order, op < g'.nextOp := by
      intro op hop
      rw [h.rest]
      exact hg.fresh op (mem_opIds.1 (horder.perm.subset hop))
    exact ⟨hlt _ hstep.left_mem, hlt _ hstep.right_mem⟩

/-- **The chain leaves one schedule only**, for all queries and options. -/
theorem Pinned.schedule_eq {order' : List OpId} (h : Pinned (order.zip order.tail) g)
    (hg : g.WellWired) (hperm : order.Perm g.opIds) (horder : g.IsSchedule extra options order') :
    order' = order := by
  have hexist : ∀ op ∈ order, (g.op? op).isSome := fun op hop => mem_opIds.1 (hperm.subset hop)
  refine eq_of_steps (horder.perm.trans hperm.symm) horder.nodup fun x hx => ?_
  have hstep := before_of_step hx
  exact horder.before_of_asks hg
    (.constraint (h.constrained x hx (hexist _ hstep.left_mem) (hexist _ hstep.right_mem)))

/-- A query that has a dependency graph names ops of the graph only. -/
theorem names_of_dependencies (h : g.dependencies extra options = .ok d) : g.Names extra := by
  obtain ⟨-, -, further, hfurther, -⟩ := dependencies_eq_ok h
  obtain ⟨lists, hlists, -⟩ := except_bind_eq_ok.1 hfurther
  have hexist : ∀ {op k}, namedNode g.nodeNumbers op = .ok k → (g.op? op).isSome := by
    intro op k hk
    exact mem_opIds.1 (List.mem_of_getElem? (nodeNumbers_eq_some.1 (namedNode_eq_ok.1 hk)))
  intro v us hus
  obtain ⟨edges, -, hrow⟩ := forall₂_mem_left (mapM_eq_ok hlists)
    (Std.ExtTreeMap.mem_toList_iff_getElem?_eq_some.2 hus)
  obtain ⟨a, ha, hrow⟩ := except_bind_eq_ok.1 hrow
  refine ⟨hexist ha, fun u hu => ?_⟩
  obtain ⟨edge, -, hedge⟩ := forall₂_mem_left (mapM_eq_ok hrow) hu
  obtain ⟨b, hb, -⟩ := except_bind_eq_ok.1 hedge
  exact hexist hb

/-- A graph that has a dependency graph has valid phases, if they count. -/
theorem validPhases_of_dependencies (h : g.dependencies extra options = .ok d) :
    g.ValidPhases options := by
  intro hphases op hop
  obtain ⟨-, -, further, -, hspec⟩ := dependencies_eq_ok h
  rw [if_pos hphases] at hspec
  obtain ⟨bins, hbins, -⟩ := hspec
  obtain ⟨k, hk⟩ := exists_nodeNumber hop
  obtain ⟨bin, -, hphase⟩ := bin_of_op hbins hk
  omega

end Graph

namespace Planner

variable {p p' : Planner} {extra : ExtraOrder} {chance : Chance}

/-- **Freezing** chains the schedule that the same query gives. -/
theorem Sound.freeze_chained (hp : p.Sound) (hg : g.WellWired)
    (h : p.freeze g extra chance = (.ok g', p')) :
    ∃ order, p.scheduleGraph g extra true chance = (.ok order, p') ∧
      g.IsSchedule extra p.options order ∧ Chained order g g' := by
  obtain ⟨order, hrun, rfl⟩ := freeze_eq_ok h
  have horder := (hp.scheduleGraph hg hrun).2 order rfl
  refine ⟨order, hrun, horder, rfl, fun e => ?_⟩
  rw [Constraints.mem_foldl_insert]
  refine or_congr_right ⟨And.left, fun hstep => ⟨hstep, fun heq => ?_⟩⟩
  have hself := before_of_step hstep
  rw [heq] at hself
  exact hself.asymm horder.nodup hself

/-- A query leaves the options alone. -/
theorem options_scheduleGraph (p : Planner) (g : Graph) (extra : ExtraOrder) (optimal : Bool)
    (chance : Chance) : (p.scheduleGraph g extra optimal chance).2.options = p.options := by
  unfold Planner.scheduleGraph Planner.schedule
  split
  · split
    · rfl
    · dsimp only
      split <;> rfl
  · rfl

/-- Where a schedule is given out, there is a dependency graph. -/
theorem dependencies_of_scheduleGraph {optimal : Bool} {order : List OpId}
    (h : (p.scheduleGraph g extra optimal chance).1 = .ok order) :
    ∃ d, g.dependencies extra p.options = .ok d := by
  unfold Planner.scheduleGraph at h
  split at h
  · rename_i d hd
    exact ⟨d, hd⟩
  · cases h

end Planner

/-! ## Section 4: Later answers -/

namespace Graph

/-- What the planner can still answer about a graph whose schedule is pinned:
    every order is the pinned one, and freezing adds nothing. -/
structure PinnedTo (order : List OpId) (g : Graph) (p : Planner) : Prop where
  schedule : ∀ extra optimal chance order',
    (p.scheduleGraph g extra optimal chance).1 = .ok order' → order' = order
  freeze : ∀ extra chance g' p', p.freeze g extra chance = (.ok g', p') → g' = g

theorem Pinned.pinnedTo (h : Pinned (order.zip order.tail) g) (hg : g.WellWired)
    (hperm : order.Perm g.opIds) {p : Planner} (hp : p.Sound) : g.PinnedTo order p where
  schedule extra optimal chance order' hok :=
    h.schedule_eq hg hperm ((hp.scheduleGraph hg rfl).2 order' hok)
  freeze extra chance g' p' hrun := by
    obtain ⟨order', hschedule, rfl⟩ := Planner.freeze_eq_ok hrun
    obtain rfl := h.schedule_eq hg hperm ((hp.scheduleGraph hg hschedule).2 order' rfl)
    -- each step is among the constraints already
    rw [Constraints.foldl_insert_of_mem fun x hx => ?_]
    have hstep := before_of_step hx
    exact h.constrained x hx (mem_opIds.1 (hperm.subset hstep.left_mem))
      (mem_opIds.1 (hperm.subset hstep.right_mem))

end Graph

namespace Workspace

theorem run_freeze_of_ok {w : Workspace} {extra : ExtraOrder} {chance : Chance} {p : Planner}
    (h : w.planner.freeze w.graph extra chance = (.ok g, p)) :
    (Call.freeze extra chance).run w = { graph := g, planner := p } := by
  simp only [Call.run, h]

/-- **Freezing pins the schedule for good.**  Whatever calls were made before, a
    freeze that is refused changes nothing in the graph.  One that succeeds
    chains the schedule of its query.  Whatever calls are made after it, as
    long as the ops are the same, every order that is given out is that one,
    for all queries and options, and freezing again adds nothing.  The query
    itself is answered again as long as graph and options are the same. -/
theorem pinned_by_freeze {w : Workspace} (h : w.Reachable) (extra : ExtraOrder)
    (chance : Chance) :
    (∀ e p, w.planner.freeze w.graph extra chance = (.error e, p) →
      ((Call.freeze extra chance).run w).graph = w.graph) ∧
    ∀ g p, w.planner.freeze w.graph extra chance = (.ok g, p) →
      ∃ order, (w.planner.scheduleGraph w.graph extra true chance).1 = .ok order ∧
        Graph.Chained order w.graph g ∧ p.options = w.planner.options ∧
        ∀ (calls : List Call) (later : Workspace),
          later = calls.foldl (fun w c => c.run w) ((Call.freeze extra chance).run w) →
          later.graph.opIds = w.graph.opIds →
          later.graph.PinnedTo order later.planner ∧
          (later.graph = g → later.planner.options = w.planner.options → ∀ optimal chance',
            (later.planner.scheduleGraph later.graph extra optimal chance').1 = .ok order) := by
  have hg := h.sound.wellWired
  refine ⟨fun e p hrun => by simp only [Call.run, hrun], fun g p hrun => ?_⟩
  obtain ⟨order, hschedule, horder, hchained⟩ := h.sound.planner.freeze_chained hg hrun
  have hok : (w.planner.scheduleGraph w.graph extra true chance).1 = .ok order := by
    rw [hschedule]
  have hkept := w.planner.options_scheduleGraph w.graph extra true chance
  rw [hschedule] at hkept
  refine ⟨order, hok, hchained, hkept, fun calls later hlater hops => ?_⟩
  have hfrozen : ((Call.freeze extra chance).run w).Reachable := h.call _
  have hreachable : later.Reachable := hlater ▸ hfrozen.run calls
  have hpinned : later.graph.Pinned (order.zip order.tail) := by
    rw [hlater]
    refine hfrozen.run_keeps (keptByCalls_pinned _) ?_ calls
    rw [run_freeze_of_ok hrun]
    exact hchained.pinned hg horder
  have hto := hpinned.pinnedTo hreachable.sound.wellWired (hops ▸ horder.perm)
    hreachable.sound.planner
  refine ⟨hto, fun hsame hoptions optimal chance' => ?_⟩
  -- the query names ops of the graph and has valid phases, as before
  obtain ⟨d, hd⟩ := Planner.dependencies_of_scheduleGraph hok
  have hnames : later.graph.Names extra := by
    have hbefore := names_of_dependencies hd
    rw [hsame, hchained.rest]
    exact hbefore
  have hphases : later.graph.ValidPhases later.planner.options := by
    have hbefore := validPhases_of_dependencies hd
    rw [hsame, hchained.rest, hoptions]
    exact hbefore
  have hanswered := hreachable.sound.planner.scheduleGraph_isOk_iff hreachable.sound.wellWired
    hnames hphases optimal chance'
  obtain ⟨order', hok'⟩ := except_isOk_iff.1 (hanswered.2 (by
    rw [hsame, hoptions]
    exact hchained.acyclic hg horder))
  rw [hok', hto.schedule extra optimal chance' order' hok']

/-- Two ops that read the same stream and may run in any order. -/
def sideBySide : Workspace :=
  let calls : List Call := [
    .addInput "x" ⟨.f32, [2]⟩,
    .createOp Builtin.relu.operator {},
    .connectInput 0 0 "x",
    .createOutput 0 0 "y",
    .createOp Builtin.identity.operator {},
    .connectInput 1 0 "x",
    .createOutput 1 0 "z",
    .setOptions { swapLimit := 0 }]
  calls.foldl (fun w c => c.run w) {}

/-- The two ops with their order frozen. -/
def frozenPair : Workspace := (Call.freeze ∅ (.ofOptions sideBySide.planner.options)).run sideBySide

/-- The first op now reads from the second one, and the options are others. -/
def turnedPair : Workspace :=
  let calls : List Call := [.connectInput 0 0 "z", .setOptions { tieBreak := .random, seed := 7 }]
  calls.foldl (fun w c => c.run w) frozenPair

/-- The query that was frozen is answered again.  Once the first op reads from
    the second one, no order but the frozen one is given out, which by then is
    no schedule any more. -/
theorem frozenPair_pinned :
    (∀ optimal chance, (frozenPair.planner.scheduleGraph frozenPair.graph ∅ optimal chance).1
      = .ok [0, 1]) ∧
    frozenPair.graph.PinnedTo [0, 1] frozenPair.planner ∧
    turnedPair.graph.PinnedTo [0, 1] turnedPair.planner ∧
    ∀ extra optimal chance order,
      (turnedPair.planner.scheduleGraph turnedPair.graph extra optimal chance).1 ≠ .ok order := by
  have hreachable : sideBySide.Reachable := Reachable.run (.start "") _
  have hturned : turnedPair.Reachable := (hreachable.call _).run _
  have hfreezes : (sideBySide.planner.freeze sideBySide.graph ∅
      (.ofOptions sideBySide.planner.options)).1.isOk = true := by decide +kernel
  generalize hrun : sideBySide.planner.freeze sideBySide.graph ∅
    (.ofOptions sideBySide.planner.options) = result at hfreezes
  obtain ⟨answer, p⟩ := result
  obtain ⟨g, rfl⟩ := except_isOk_iff.1 hfreezes
  have horder : (sideBySide.planner.scheduleGraph sideBySide.graph ∅ true).1 = .ok [0, 1] :=
    toOption_eq_some.1 (by decide +kernel)
  obtain ⟨order, hok, -, hoptions, hlater⟩ := (pinned_by_freeze hreachable ∅ _).2 g _ hrun
  cases hok.symm.trans horder
  obtain ⟨hfrozen, hagain⟩ := hlater [] frozenPair rfl (by decide +kernel)
  obtain ⟨hturnedTo, -⟩ := hlater [.connectInput 0 0 "z",
    .setOptions { tieBreak := .random, seed := 7 }] turnedPair rfl (by decide +kernel)
  have hrunFrozen : frozenPair = { graph := g, planner := _ } := run_freeze_of_ok hrun
  refine ⟨hagain (by rw [hrunFrozen]) (by rw [hrunFrozen]; exact hoptions), hfrozen, hturnedTo,
    fun extra optimal chance order' hok' => ?_⟩
  -- the first op would have to run after the second one
  have hfeeds : turnedPair.graph.Feeds 1 0 := Graph.mem_feeders.1 (by decide +kernel)
  have hschedule := (hturned.sound.planner.scheduleGraph hturned.sound.wellWired rfl).2 order' hok'
  have hback := hschedule.before_of_asks hturned.sound.wellWired (.data (by decide) hfeeds)
  rw [hturnedTo.schedule extra optimal chance order' hok'] at hback
  exact hback.asymm (by decide) (.refl [0, 1])

end Workspace

end Dataflow
