import Dataflow.Compile
import Dataflow.Proofs.Cycles
import Dataflow.Proofs.DeadCode

/-! # Compilation is sound

    The graph of a model is layered, and every pass of a compilation up to the
    ordering of writers keeps it layered.  So the checks in between always
    pass, scheduling fails on account of phases only, and a compilation that
    succeeds yields a valid schedule of a graph with all declared outputs and
    all gradients. -/

namespace Dataflow

open Dataflow.Graph

variable {g g' : Graph}

/-! ## Section 1: Passes -/

/-- **Differentiation of the loss**, if there is one, keeps the layers and the
    outputs, and the gradients come from ops. -/
theorem Graph.Layered.differentiateLoss {options : SessionOptions}
    {gradients? : Option GradientReport} (h : g.Layered)
    (hrun : g.differentiateLoss options = .ok (gradients?, g')) :
    g'.Layered ∧ g'.outputs = g.outputs ∧
      ∀ report, gradients? = some report →
        ∀ d ∈ report.gradients.values, (g'.producer? d).isSome := by
  unfold Graph.differentiateLoss at hrun
  split at hrun
  · cases hrun
    exact ⟨h, rfl, fun report hr => by cases hr⟩
  · simp only at hrun
    split at hrun
    · rename_i report g₁ hdiff
      cases hrun
      obtain ⟨hg', houtputs, hgradients⟩ := h.differentiate hdiff
      refine ⟨hg', houtputs, fun report' hr => ?_⟩
      cases hr
      exact hgradients
    · cases hrun

/-- **Pruning**, if enabled, keeps the layers, the outputs and the gradients. -/
theorem Graph.Layered.pruneFor {options : SessionOptions} {gradients? : Option GradientReport}
    {pruned? : Option PruneReport} (h : g.Layered)
    (hrun : g.pruneFor options gradients? = .ok (pruned?, g')) :
    g'.Layered ∧ (∀ t ∈ g.outputs, t ∈ g'.outputs) ∧
      ∀ report, gradients? = some report → ∀ d ∈ report.gradients.values,
        (g.producer? d).isSome → (g'.producer? d).isSome := by
  unfold Graph.pruneFor at hrun
  split at hrun
  · simp only at hrun
    split at hrun
    · rename_i report g₁ hprune
      cases hrun
      obtain ⟨hg', houtputs, htargets⟩ := h.prune hprune
      refine ⟨hg', houtputs, fun report' hr d hd => htargets d ?_⟩
      subst hr
      exact List.mem_append_right _ hd
    · cases hrun
  · cases hrun
    exact ⟨h, fun t ht => ht, fun _ _ _ _ hd => hd⟩

/-- The options of a planner that has just been set up. -/
theorem phases_setOptions (options : ScheduleOptions) :
    (Planner.setOptions {} options).options.phases = options.phases := by
  unfold Planner.setOptions
  split
  · rfl
  · rename_i hne
    -- options that compare equal agree on the number of phases
    have heq : ((({} : Planner).options == options) = true) := by simpa [bne] using hne
    have hand : (({} : Planner).options.timeLimit == options.timeLimit &&
        (({} : Planner).options.swapLimit == options.swapLimit &&
        (({} : Planner).options.tieBreak == options.tieBreak &&
        (({} : Planner).options.closureThreshold == options.closureThreshold &&
        (({} : Planner).options.seed == options.seed &&
          ({} : Planner).options.phases == options.phases))))) = true := heq
    simp only [Bool.and_eq_true, beq_iff_eq] at hand
    exact hand.2.2.2.2.2

/-! ## Section 2: The whole compilation -/

/-- What a compilation that has come to the scheduler has made of a model. -/
structure Model.Compiled (m : Model) (gradients? : Option GradientReport) (g : Graph) : Prop where
  wellWired : g.WellWired
  produced : g.Produced
  /-- No op reads what it produces. -/
  apart : ∀ t o r, g.producer? t = some o → r ∈ g.readers t → r ≠ o
  acyclic : Acyclic g.Orders
  outputs : ∀ t ∈ m.outputs, (g.tensor? t).isSome
  gradients : ∀ report, gradients? = some report →
    ∀ d ∈ report.gradients.values, (g.producer? d).isSome

/-- Without phases, such a graph is scheduled. -/
theorem Model.Compiled.schedule_eq_ok {m : Model} {gradients? : Option GradientReport}
    (h : m.Compiled gradients? g) {options : SessionOptions} (hphases : options.phases ≤ 1)
    (chance : Chance) :
    ∃ order, ((Planner.setOptions {} options.effective).scheduleGraph g ∅ true chance).1
      = .ok order := by
  refine Planner.scheduleGraph_eq_ok h.wellWired h.acyclic ?_ true _
  rw [phases_setOptions]
  exact hphases

/-- The passes take the graph of a model to one that can be scheduled. -/
theorem Model.compiled_of_passes {m : Model} {catalogue : Catalogue} {options : SessionOptions}
    {gradients? : Option GradientReport} {pruned? : Option PruneReport} {g₁ g₂ : Graph}
    (hbuild : m.build catalogue = .ok g)
    (hdiff : g.differentiateLoss options = .ok (gradients?, g₁))
    (hprune : g₁.pruneFor options gradients? = .ok (pruned?, g₂)) :
    m.Compiled gradients? g₂.orderWriters.2 := by
  obtain ⟨h₀, houtputs⟩ := Model.build_layered hbuild
  obtain ⟨h₁, houtputs₁, hgradients₁⟩ := h₀.differentiateLoss hdiff
  obtain ⟨h₂, houtputs₂, hgradients₂⟩ := h₁.pruneFor hprune
  have hw : g₂.orderWriters.2.WellWired := Edit.orderWriters_wellWired g₂ h₂.wellWired
  obtain ⟨⟨constraints, hsame⟩, hac⟩ := acyclic_orderWriters h₂.wellWired h₂.acyclic
  rw [hsame] at hw hac ⊢
  refine ⟨hw, h₂.produced, fun t o r ho hr => ?_, hac, fun t ht => ?_, fun report hr d hd => ?_⟩
  · obtain ⟨i, hi⟩ := h₂.wellWired.reader_iff.1 hr
    exact Nat.ne_of_gt (h₂.forward r i t o hi ho)
  · have hmem : t ∈ g₂.outputs := houtputs₂ t (houtputs₁ ▸ houtputs t ht)
    exact h₂.wellWired.declared t (List.mem_append_right _ hmem)
  · exact hgradients₂ report hr d hd (hgradients₁ report hr d hd)

/-- A loss that cannot be differentiated is the fault of the gradient. -/
theorem Graph.differentiateLoss_eq_error {options : SessionOptions} {e : CompileError}
    (h : g.differentiateLoss options = .error e) : ∃ e', e = .gradient e' := by
  unfold Graph.differentiateLoss at h
  split at h
  · cases h
  · simp only at h
    split at h
    · cases h
    · cases h
      exact ⟨_, rfl⟩

theorem Graph.pruneFor_eq_error {options : SessionOptions} {gradients? : Option GradientReport}
    {e : CompileError} (h : g.pruneFor options gradients? = .error e) : ∃ e', e = .pruning e' := by
  unfold Graph.pruneFor at h
  split at h
  · simp only at h
    split at h
    · cases h
    · cases h
      exact ⟨_, rfl⟩
  · cases h

/-- **A compilation that fails** does so in one of the first passes, or in the
    scheduler, which is then given a sound graph. -/
theorem Model.compile_eq_error {m : Model} {catalogue : Catalogue} {options : SessionOptions}
    {chance : Chance} {e : CompileError} (h : m.compile catalogue options chance = .error e) :
    ((∃ e', e = .model e') ∨ (∃ e', e = .gradient e') ∨ ∃ e', e = .pruning e') ∨
    ∃ gradients? g e', m.Compiled gradients? g ∧ e = .schedule e' ∧
      ((Planner.setOptions {} options.effective).scheduleGraph g ∅ true chance).1
        = .error e' := by
  rcases except_bind_eq_error.1 h with hmodel | ⟨g, hbuild, h⟩
  · obtain ⟨e', -, rfl⟩ := mapError_eq_error.1 hmodel
    exact .inl (.inl ⟨e', rfl⟩)
  replace hbuild := mapError_eq_ok.1 hbuild
  have h₀ := (Model.build_layered hbuild).1
  rcases except_bind_eq_error.1 h with hcheck | ⟨_, -, h⟩
  · rw [h₀.wellWired.check_ok h₀.produced] at hcheck
    cases hcheck
  rcases except_bind_eq_error.1 h with hdiff | ⟨⟨gradients?, g₁⟩, hdiff, h⟩
  · exact .inl (.inr (.inl (Graph.differentiateLoss_eq_error hdiff)))
  rcases except_bind_eq_error.1 h with hprune | ⟨⟨pruned?, g₂⟩, hprune, h⟩
  · exact .inl (.inr (.inr (Graph.pruneFor_eq_error hprune)))
  have hcompiled := Model.compiled_of_passes hbuild hdiff hprune
  rcases except_bind_eq_error.1 h with hcheck | ⟨_, -, h⟩
  · rw [hcompiled.wellWired.check_ok hcompiled.produced] at hcheck
    cases hcheck
  rcases except_bind_eq_error.1 h with hschedule | ⟨schedule, -, h⟩
  · obtain ⟨e', he', rfl⟩ := mapError_eq_error.1 hschedule
    exact .inr ⟨gradients?, _, e', hcompiled, rfl, he'⟩
  · cases h

/-- **A compilation that succeeds** has scheduled a sound graph. -/
theorem Model.compile_eq_ok {m : Model} {catalogue : Catalogue} {options : SessionOptions}
    {chance : Chance} {p : Products} (h : m.compile catalogue options chance = .ok p) :
    m.Compiled p.gradients? p.graph ∧
      ((Planner.setOptions {} options.effective).scheduleGraph p.graph ∅ true chance).1
        = .ok p.schedule := by
  obtain ⟨g, hbuild, h⟩ := except_bind_eq_ok.1 h
  obtain ⟨_, -, h⟩ := except_bind_eq_ok.1 h
  obtain ⟨⟨gradients?, g₁⟩, hdiff, h⟩ := except_bind_eq_ok.1 h
  obtain ⟨⟨pruned?, g₂⟩, hprune, h⟩ := except_bind_eq_ok.1 h
  obtain ⟨_, -, h⟩ := except_bind_eq_ok.1 h
  obtain ⟨schedule, hschedule, h⟩ := except_bind_eq_ok.1 h
  cases h
  exact ⟨Model.compiled_of_passes (mapError_eq_ok.1 hbuild) hdiff hprune,
    mapError_eq_ok.1 hschedule⟩

/-- **Apart from the first passes, only the scheduler can fail.** -/
theorem Model.compile_of_schedule {m : Model} {catalogue : Catalogue} {options : SessionOptions}
    {chance : Chance} {gradients? : Option GradientReport} {pruned? : Option PruneReport}
    {g₁ g₂ : Graph} {schedule : List OpId} (hbuild : m.build catalogue = .ok g)
    (hdiff : g.differentiateLoss options = .ok (gradients?, g₁))
    (hprune : g₁.pruneFor options gradients? = .ok (pruned?, g₂))
    (hschedule : ((Planner.setOptions {} options.effective).scheduleGraph g₂.orderWriters.2 ∅ true
      chance).1 = .ok schedule) :
    m.compile catalogue options chance = .ok {
      graph := g₂.orderWriters.2
      schedule
      gradients?
      pruned?
      options := options.effective } := by
  have h₀ := (Model.build_layered hbuild).1
  have hcompiled := Model.compiled_of_passes hbuild hdiff hprune
  refine except_bind_eq_ok.2 ⟨g, mapError_eq_ok.2 hbuild, except_bind_eq_ok.2 ⟨(), ?_, ?_⟩⟩
  · exact mapError_eq_ok.2 (h₀.wellWired.check_ok h₀.produced)
  refine except_bind_eq_ok.2 ⟨_, hdiff, except_bind_eq_ok.2 ⟨_, hprune, ?_⟩⟩
  refine except_bind_eq_ok.2 ⟨(), ?_, except_bind_eq_ok.2 ⟨schedule, ?_, rfl⟩⟩
  · exact mapError_eq_ok.2 (hcompiled.wellWired.check_ok hcompiled.produced)
  · exact mapError_eq_ok.2 hschedule

/-- **A model whose graph has an order compiles**, whatever chance decides. -/
theorem Model.compile_of_isOrder {m : Model} {catalogue : Catalogue} {options : SessionOptions}
    {gradients? : Option GradientReport} {pruned? : Option PruneReport} {g₁ g₂ : Graph}
    {d : DependencyGraph} {order : List Nat} (hbuild : m.build catalogue = .ok g)
    (hdiff : g.differentiateLoss options = .ok (gradients?, g₁))
    (hprune : g₁.pruneFor options gradients? = .ok (pruned?, g₂))
    (hd : g₂.orderWriters.2.dependencies ∅ options.effective = .ok d) (horder : d.IsOrder order)
    (chance : Chance) : ∃ p, m.compile catalogue options chance = .ok p ∧
      p.graph.dependencies ∅ p.options = .ok d := by
  -- the planner may spell its options differently, but it has the same phases
  have hplanned : g₂.orderWriters.2.dependencies ∅
      (Planner.setOptions {} options.effective).options = .ok d := by
    rw [← hd]
    exact dependencies_congr (phases_setOptions options.effective)
  obtain ⟨schedule, hschedule⟩ := Planner.scheduleGraph_of_isOrder hplanned horder true chance
  exact ⟨_, Model.compile_of_schedule hbuild hdiff hprune hschedule, hd⟩

/-- **Without phases, only the first passes can fail.** -/
theorem Model.compile_of_passes {m : Model} {catalogue : Catalogue} {options : SessionOptions}
    {gradients? : Option GradientReport} {pruned? : Option PruneReport} {g₁ g₂ : Graph}
    (hphases : options.phases ≤ 1) (chance : Chance) (hbuild : m.build catalogue = .ok g)
    (hdiff : g.differentiateLoss options = .ok (gradients?, g₁))
    (hprune : g₁.pruneFor options gradients? = .ok (pruned?, g₂)) :
    ∃ p, m.compile catalogue options chance = .ok p ∧ p.gradients? = gradients? := by
  have hcompiled := Model.compiled_of_passes hbuild hdiff hprune
  obtain ⟨schedule, hschedule⟩ := hcompiled.schedule_eq_ok hphases chance
  exact ⟨_, Model.compile_of_schedule hbuild hdiff hprune hschedule, rfl⟩

/-- **Soundness of compilation.**  Whatever chance decides, no compilation ends in
    a failed check, and none ends in the scheduler unless there is more than one phase.  When one
    succeeds, its schedule is an order of all ops in which producers precede
    readers and constraints are respected, all outputs of the model are in the
    graph, and all gradients are produced by scheduled ops. -/
theorem Model.compile_sound (m : Model) (catalogue : Catalogue) (options : SessionOptions)
    (chance : Chance) :
    (∀ e, m.compile catalogue options chance ≠ .error (.consistency e)) ∧
    (options.phases ≤ 1 → ∀ e, m.compile catalogue options chance ≠ .error (.schedule e)) ∧
    ∀ p, m.compile catalogue options chance = .ok p →
      p.schedule.Perm p.graph.opIds ∧
      (∀ t o r, p.graph.producer? t = some o → r ∈ p.graph.readers t → Before p.schedule o r) ∧
      (∀ c ∈ p.graph.constraints.toList, Before p.schedule c.before c.after) ∧
      (∀ t ∈ m.outputs, (p.graph.tensor? t).isSome) ∧
      ∀ report, p.gradients? = some report → ∀ d ∈ report.gradients.values,
        (p.graph.tensor? d).isSome ∧ ∃ o ∈ p.schedule, p.graph.producer? d = some o := by
  refine ⟨fun e herr => ?_, fun hphases e herr => ?_, fun p hp => ?_⟩
  · rcases Model.compile_eq_error herr with hfirst | ⟨gradients?, g, e', -, heq, -⟩
    · rcases hfirst with ⟨_, heq⟩ | ⟨_, heq⟩ | ⟨_, heq⟩ <;> cases heq
    · cases heq
  · rcases Model.compile_eq_error herr with hfirst | ⟨gradients?, g, e', hcompiled, -, hfail⟩
    · rcases hfirst with ⟨_, heq⟩ | ⟨_, heq⟩ | ⟨_, heq⟩ <;> cases heq
    · obtain ⟨order, hok⟩ := hcompiled.schedule_eq_ok hphases chance
      rw [hok] at hfail
      cases hfail
  · obtain ⟨hcompiled, hschedule⟩ := Model.compile_eq_ok hp
    have hplanner := (Planner.sound_empty {}).setOptions options.effective
    have hvalid := (hplanner.scheduleGraph hcompiled.wellWired rfl).2 p.schedule hschedule
    have horders : ∀ u v, p.graph.Orders u v → Before p.schedule u v := by
      intro u v huv
      have hu := hcompiled.wellWired.predecessor_exists huv
      exact hvalid.edges u _ (List.mem_map_of_mem (mem_opIds.2 hu)) v
        (Std.ExtTreeSet.mem_toList.2 huv)
    refine ⟨hvalid.perm, fun t o r ho hr => ?_, fun c hc => ?_, hcompiled.outputs,
      fun report hreport d hd => ?_⟩
    · obtain ⟨i, hi⟩ := (hcompiled.wellWired.produces t o).1 ho
      refine horders o r (mem_successors.2 (.inl (mem_dataSuccessors.2 ⟨?_, i, t, hi, hr⟩)))
      exact hcompiled.apart t o r ho hr
    · exact horders _ _ (mem_successors.2 (.inr hc))
    · obtain ⟨o, ho⟩ := Option.isSome_iff_exists.1 (hcompiled.gradients report hreport d hd)
      obtain ⟨x, hx⟩ := hcompiled.wellWired.producer_exists ho
      refine ⟨tensor_of_producer ho, o, hvalid.perm.mem_iff.2 (mem_opIds.2 ?_), ho⟩
      simp [hx]

/-- A model with one trained tensor: the loss is the sum of a product. -/
def weightedSum : Model where
  inputs := [⟨"x", .f32, [2]⟩]
  initials := [{ id := "w", kind := .var, element := .f32, shape := [2] }]
  nodes := [
    { opType := "Mul", inputs := ["x", "w"], outputs := ["y"] },
    { opType := "ReduceSum", inputs := ["y"], outputs := ["loss"] }]
  outputs := ["loss"]

theorem weightedSum_compiles : ∃ p,
    weightedSum.compile .builtin { loss? := some "loss" } = .ok p ∧
    p.schedule.Perm p.graph.opIds ∧ (p.graph.tensor? "loss").isSome ∧
    ∃ o ∈ p.schedule, p.graph.producer? "d__w" = some o := by
  let options : SessionOptions := { loss? := some "loss" }
  have hpasses : ((weightedSum.build .builtin).toOption.bind fun g =>
      (g.differentiateLoss options).toOption.bind fun x =>
        (x.2.pruneFor options x.1).toOption.map fun _ =>
          x.1.map fun report => report.gradients.values) = some (some ["d__w"]) := by
    decide +kernel
  cases hbuild : weightedSum.build .builtin with
  | error e =>
    rw [hbuild] at hpasses
    cases hpasses
  | ok g =>
    rw [hbuild] at hpasses
    cases hdiff : g.differentiateLoss options with
    | error e => simp [hdiff, Except.toOption] at hpasses
    | ok x =>
      obtain ⟨gradients?, g₁⟩ := x
      cases hprune : g₁.pruneFor options gradients? with
      | error e => simp [hdiff, hprune, Except.toOption] at hpasses
      | ok y =>
        obtain ⟨pruned?, g₂⟩ := y
        simp [hdiff, hprune, Except.toOption] at hpasses
        obtain ⟨report, rfl, hvalues⟩ := hpasses
        obtain ⟨p, hp, hreport⟩ := Model.compile_of_passes (Nat.le_refl 1)
          (.ofOptions (Planner.setOptions {} options.effective).options) hbuild hdiff hprune
        obtain ⟨hperm, -, -, houtputs, hgradients⟩ :=
          (Model.compile_sound weightedSum .builtin options _).2.2 p hp
        refine ⟨p, hp, hperm, houtputs "loss" List.mem_cons_self, ?_⟩
        exact (hgradients report hreport "d__w" (by simp [hvalues])).2

end Dataflow
