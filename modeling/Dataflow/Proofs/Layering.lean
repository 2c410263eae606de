import Dataflow.Model.Build
import Dataflow.Proofs.Consistency
import Dataflow.Proofs.GradientGrowth
import Dataflow.Proofs.Passes

/-! # Layers

    A graph that is built op by op is layered: an op reads what earlier ops
    have produced, so data only flows from lower numbers to higher ones.  The
    graph of a model is layered, and differentiation keeps it so.

    Pruning keeps it so as well, since it removes an op together with the
    tensors that nothing else needs.  This is the subject of
    `Dataflow.Proofs.DeadCode`. -/

namespace Dataflow

/-- A tensor that does not come from an op. -/
structure Tensor.IsGiven (x : Tensor) : Prop where
  kind : x.kind ≠ .computed
  type : x.type?.isSome
  producer : x.producer? = none
  readers : ∀ o, x.readers.count o = 0

namespace Graph

variable {g g' : Graph}

/-! ## Section 1: The invariant -/

/-- Data flows from lower numbers to higher ones, every computed tensor is
    produced, and nothing else orders the ops. -/
structure Layered (g : Graph) : Prop where
  wellWired : g.WellWired
  produced : g.Produced
  forward : ∀ o i t p, g.inputAt o i = some t → g.producer? t = some p → p < o
  unconstrained : g.constraints.toList = []

/-- A graph with the same wires and no new computed tensors. -/
theorem Layered.transfer (h : g.Layered) (hw : g'.WellWired)
    (hin : ∀ o i, g'.inputAt o i = g.inputAt o i) (hprod : ∀ t, g'.producer? t = g.producer? t)
    (hkind : ∀ t, g'.kind? t = some .computed → g.kind? t = some .computed)
    (hcon : g'.constraints = g.constraints) : g'.Layered where
  wellWired := hw
  produced t ht := by
    rw [hprod]
    exact h.produced t (hkind t ht)
  forward o i t p hi hp := by
    rw [hin] at hi
    rw [hprod] at hp
    exact h.forward o i t p hi hp
  unconstrained := hcon ▸ h.unconstrained

/-- A new tensor that is not computed. -/
theorem Layered.insertTensor (h : g.Layered) {id : TensorId} {x : Tensor}
    (hid : g.tensor? id = none) (hx : x.IsGiven) : (g.insertTensor id x).Layered := by
  refine h.transfer (Edit.insertTensor_wellWired h.wellWired hid hx.producer hx.readers)
    (fun _ _ => rfl) ?_ ?_ rfl
  · intro t
    unfold producer?
    rw [tensor?_insertTensor]
    split
    · rename_i ht
      rw [ht, hid]
      exact hx.producer
    · rfl
  · intro t ht
    unfold kind? at ht
    rw [tensor?_insertTensor] at ht
    split at ht
    · exact absurd (Option.some.inj ht) hx.kind
    · exact ht

/-- Declarations do not touch the layers. -/
theorem Layered.declare (h : g.Layered) {inputs outputs : List TensorId}
    (hw : Graph.WellWired { g with inputs := inputs, outputs := outputs }) :
    Graph.Layered { g with inputs := inputs, outputs := outputs } :=
  h.transfer hw (fun _ _ => rfl) (fun _ => rfl) (fun _ ht => ht) rfl

/-- **One more op on top**: it reads what is there already. -/
theorem Layered.grown {o : Op} (h : g.Layered) (hw : g'.WellWired) (hg : Grown g o g') :
    g'.Layered where
  wellWired := hw
  produced t ht := by
    rcases hg.old_or_new (tensor_of_kind ht) with hold | ⟨i, hi⟩
    · rw [hg.producer?_old hold]
      rw [hg.kind?_old hold] at ht
      exact h.produced t ht
    · rw [hg.producer?_new hi]
      rfl
  forward p i t q hi hq := by
    rw [hg.inputAt] at hi
    split at hi
    · -- the producer of an input of the new op was there before
      rename_i hp
      rw [hg.producer?_old (hg.inputs_old i t hi)] at hq
      obtain ⟨x, hx⟩ := h.wellWired.producer_exists hq
      rw [hp]
      exact h.wellWired.fresh q (by simp [hx])
    · obtain ⟨x, hx⟩ := h.wellWired.input_exists hi
      rw [hg.producer?_old (by simp [hx])] at hq
      exact h.forward p i t q hi hq
  unconstrained := hg.constraints ▸ h.unconstrained

end Graph

/-! ## Section 2: The graph of a model -/

namespace Model

open Dataflow.Graph

variable {g g' : Graph}

theorem apply_eq_ok {α : Type} {e : Edit α} {a : α} :
    apply e g = .ok (a, g') ↔ e g = .ok a g' := by
  unfold apply
  cases e g <;> simp

/-- How the graph of a model comes about, step by step. -/
inductive Builds (catalogue : Catalogue) : Graph → Prop where
  | empty (scope : String) : Builds catalogue { scope := scope }
  | tensor {g : Graph} {id : TensorId} {x : Tensor} (h : Builds catalogue g)
      (hid : g.tensor? id = none) (hname : Naming.isReserved id = false) (hx : x.IsGiven) :
      Builds catalogue (g.insertTensor id x)
  | declare {g : Graph} {inputs outputs : List TensorId} (h : Builds catalogue g)
      (hw : Graph.WellWired { g with inputs := inputs, outputs := outputs }) :
      Builds catalogue { g with inputs := inputs, outputs := outputs }
  /-- The op of a node is wired, and then settled. -/
  | node {g s g' : Graph} {d : NodeDescription} {o : Op} (h : Builds catalogue g)
      (hoperator : catalogue.create d.opType d.attributes d.inputs.length = .ok o.operator)
      (hnames : ∀ i t, o.outputs.get? i = some t → Naming.isReserved t = false)
      (horigin : o.origin? = none) (hgrowing : Growing g o s) (hs : g.WellWired → s.WellWired)
      (hsettle : s.settle g.nextOp = .ok g') : Builds catalogue g'

variable {catalogue : Catalogue}

/-- **Whatever is built is layered.** -/
theorem Builds.layered (h : Builds catalogue g) : g.Layered := by
  induction h with
  | empty scope =>
    refine ⟨wellWired_empty scope, fun t ht => ?_, fun o i t p hi => ?_, rfl⟩
    · simp [kind?, tensor?] at ht
    · simp [inputAt, op?] at hi
  | tensor _ hid _ hx ih => exact ih.insertTensor hid hx
  | declare _ hw ih => exact ih.declare hw
  | node _ _ _ _ hgrowing hs hsettle ih =>
    have hw := (Edit.settle_wellWired _).ok (a := ()) (hs ih.wellWired)
      (Edit.settle_eq_ok.2 hsettle)
    exact ih.grown hw (hgrowing.settle hsettle)

theorem addInput_builds {d : InputDescription} (h : Builds catalogue g)
    (hrun : addInput g d = .ok g') : Builds catalogue g' := by
  obtain ⟨⟨u, g₁⟩, hok, hrun⟩ := except_bind_eq_ok.1 hrun
  cases hrun
  have hadd := apply_eq_ok.1 hok
  have hw := (Edit.addInput_wellWired _ _).ok h.layered.wellWired hadd
  obtain ⟨_, g₂, hstream, hchange⟩ := bind_eq_ok.1 hadd
  obtain ⟨rfl, hid, hname⟩ := Edit.addStream_eq_ok hstream
  have hg' := Edit.change_eq_ok.1 hchange
  subst hg'
  exact (h.tensor hid hname ⟨by simp, rfl, rfl, Readers.count_empty⟩).declare hw

theorem addInitial_builds {d : InitialDescription} (h : Builds catalogue g)
    (hrun : addInitial g d = .ok g') : Builds catalogue g' := by
  -- a variable and a constant differ in their kind only
  have hadd : ∀ {kind type data u}, kind ≠ .computed → (do
      Edit.requireNewName d.id
      Edit.addInitialised d.id kind type data) g = .ok u g' → Builds catalogue g' := by
    intro kind type data u hkind hadd
    obtain ⟨_, g₁, hnew, hadd⟩ := bind_eq_ok.1 hadd
    obtain ⟨rfl, hid, hname⟩ := Edit.requireNewName_eq_ok hnew
    obtain ⟨rfl, -⟩ := Edit.addInitialised_eq_ok hadd
    exact h.tensor hid hname ⟨hkind, rfl, rfl, Readers.count_empty⟩
  obtain ⟨data, -, hrun⟩ := except_bind_eq_ok.1 hrun
  simp only at hrun
  cases hkind : d.kind with
  | var =>
    rw [hkind] at hrun
    obtain ⟨⟨u, g₁⟩, hok, hrun⟩ := except_bind_eq_ok.1 hrun
    cases hrun
    exact hadd (by decide) (apply_eq_ok.1 hok)
  | const =>
    rw [hkind] at hrun
    obtain ⟨⟨u, g₁⟩, hok, hrun⟩ := except_bind_eq_ok.1 hrun
    cases hrun
    exact hadd (by decide) (apply_eq_ok.1 hok)

theorem addNode_builds {d : NodeDescription} {index : Nat} (h : Builds catalogue g)
    (hrun : addNode catalogue g d index = .ok g') : Builds catalogue g' := by
  obtain ⟨operator, hoperator, hrun⟩ := except_bind_eq_ok.1 hrun
  simp only at hrun
  split at hrun
  · obtain ⟨_, hthrow, -⟩ := except_bind_eq_ok.1 hrun
    cases hthrow
  · split at hrun
    · obtain ⟨_, hthrow, -⟩ := except_bind_eq_ok.1 hrun
      cases hthrow
    · rename_i hnames
      obtain ⟨⟨op, g₁⟩, hok, hrun⟩ := except_bind_eq_ok.1 hrun
      cases hrun
      have hnodup : ((d.outputs.zipIdx.map fun x => (x.2, x.1)).map Prod.fst).Nodup := by
        rw [List.map_map]
        show (d.outputs.zipIdx.map Prod.snd).Nodup
        rw [List.zipIdx_map_snd]
        exact List.nodup_range'
      obtain ⟨s, -, hgrowing, hs, hsettle⟩ := growOp_eq_ok hnodup (apply_eq_ok.1 hok)
      refine h.node (d := d) (mapError_eq_ok.1 hoperator) (fun i t hi => ?_) rfl hgrowing hs hsettle
      -- the outputs of the op are those of the description
      obtain ⟨x, hx, heq⟩ := List.mem_map.1 ((Ports.get?_insertAll_empty hnodup).1 hi)
      cases heq
      have hmem : x.1 ∈ d.outputs := List.mem_of_getElem? (List.mem_zipIdx_iff_getElem?.1 hx)
      have hnone := Option.eq_none_iff_forall_ne_some.2 hnames
      simpa using List.find?_eq_none.1 hnone x.1 hmem

/-- A declared output is there and stays. -/
theorem addOutput_eq_ok {id : TensorId} (hrun : addOutput g id = .ok g') :
    ∃ outputs, g' = { g with outputs := outputs } ∧ id ∈ outputs ∧
      ∀ t ∈ g.outputs, t ∈ outputs := by
  obtain ⟨⟨u, g₁⟩, hok, hrun⟩ := except_bind_eq_ok.1 hrun
  cases hrun
  obtain ⟨x, hx, hchange⟩ := Edit.ask_bind_eq_ok.1 (apply_eq_ok.1 hok)
  have hg' := Edit.change_eq_ok.1 hchange
  subst hg'
  split
  · rename_i hmem
    exact ⟨g.outputs, rfl, List.contains_iff_mem.1 hmem, fun t ht => ht⟩
  · exact ⟨g.outputs ++ [id], rfl, by simp, fun t ht => List.mem_append_left _ ht⟩

theorem addOutput_builds {id : TensorId} (h : Builds catalogue g) (hrun : addOutput g id = .ok g') :
    Builds catalogue g' := by
  obtain ⟨outputs, rfl, -⟩ := addOutput_eq_ok hrun
  obtain ⟨⟨u, g₁⟩, hok, hrun⟩ := except_bind_eq_ok.1 hrun
  cases hrun
  exact h.declare ((Edit.markOutput_wellWired id).ok h.layered.wellWired (apply_eq_ok.1 hok))

/-- **The graph of a model** is built step by step, and the outputs of the model
    are among its outputs. -/
theorem build_eq_ok {m : Model} (h : m.build catalogue = .ok g) :
    Builds catalogue g ∧ ∀ t ∈ m.outputs, t ∈ g.outputs := by
  obtain ⟨g₁, hinputs, h⟩ := except_bind_eq_ok.1 h
  obtain ⟨g₂, hinitials, h⟩ := except_bind_eq_ok.1 h
  obtain ⟨g₃, hnodes, houtputs⟩ := except_bind_eq_ok.1 h
  have h₁ : Builds catalogue g₁ :=
    foldlM_ok hinputs (.empty m.scope) fun _ _ _ _ ht hx => addInput_builds ht hx
  have h₂ : Builds catalogue g₂ :=
    foldlM_ok hinitials h₁ fun _ _ _ _ ht hx => addInitial_builds ht hx
  have h₃ : Builds catalogue g₃ := foldlM_ok hnodes h₂ fun _ _ _ _ ht hx => addNode_builds ht hx
  refine ⟨foldlM_ok houtputs h₃ fun _ _ _ _ ht hx => addOutput_builds ht hx, ?_⟩
  refine foldlM_brings (Q := fun t g => t ∈ g.outputs) houtputs ?_ ?_
  · intro id t t' hid
    obtain ⟨outputs, rfl, hmem, -⟩ := addOutput_eq_ok hid
    exact hmem
  · intro id id' t t' hmem hid
    obtain ⟨outputs, rfl, -, hkeep⟩ := addOutput_eq_ok hid
    exact hkeep id' hmem

/-- The graph of a model is layered, and the outputs of the model are among its
    outputs. -/
theorem build_layered {m : Model} (h : m.build catalogue = .ok g) :
    g.Layered ∧ ∀ t ∈ m.outputs, t ∈ g.outputs :=
  (build_eq_ok h).imp_left Builds.layered

end Model

/-! ## Section 3: Differentiation -/

/-- The graph is layered, its outputs are `outputs`, and every gradient that
    has been noted comes from an op. -/
structure Backward.Layered (outputs : List TensorId) (b : Backward) : Prop where
  graph : b.graph.Layered
  outputs : b.graph.outputs = outputs
  gradients : ∀ (t d : TensorId), b.gradients[t]? = some d → (b.graph.producer? d).isSome

namespace Growth

open Dataflow.Graph

variable {outputs : List TensorId} {b b' : Backward}

/-- One more op. -/
theorem layered_grown {o : Op} {g : Graph} (h : b.Layered outputs) (hw : g.WellWired)
    (hg : Grown b.graph o g) (hgraph : b'.graph = g) (hgrad : b'.gradients = b.gradients) :
    b'.Layered outputs := by
  subst hgraph
  refine ⟨h.graph.grown hw hg, hg.outputs.trans h.outputs, fun t d hd => ?_⟩
  rw [hgrad] at hd
  obtain ⟨o, ho⟩ := Option.isSome_iff_exists.1 (h.gradients t d hd)
  rw [hg.producer?_old (tensor_of_producer ho), ho]
  rfl

theorem growGradOp_layered {options : GradientOptions} {forward : OpId} {label : String}
    {spec : GradSpec Operator} {phase? : Option Int} {u : Unit} (h : b.Layered outputs)
    (hrun : growGradOp options forward label spec phase? b = .ok u b') : b'.Layered outputs := by
  have hw := (keptByEdits_wellWired.growGradOp options forward label spec phase?).ok
    h.graph.wellWired hrun
  obtain ⟨o, inputs, targets, g, l, -, -, -, hg, -, rfl⟩ := growGradOp_eq_ok hrun
  exact layered_grown h hw hg rfl rfl

theorem growGradOps_layered {options : GradientOptions} {forward : OpId} {u : Unit}
    (h : b.Layered outputs) (hrun : growGradOps options forward b = .ok u b') :
    b'.Layered outputs := by
  obtain ⟨o, specs, b₁, o', l, -, -, -, -, hspecs, -, -, rfl⟩ := growGradOps_eq_ok hrun
  have h₁ : b₁.Layered outputs := forM_ok hspecs h fun _ _ _ _ _ ht hx => growGradOp_layered ht hx
  exact ⟨h₁.graph, h₁.outputs, h₁.gradients⟩

theorem tellProducer_layered {towardLoss : List OpId} {tensor : TensorId} {u : Unit}
    (h : b.Layered outputs) (hrun : tellProducer towardLoss tensor b = .ok u b') :
    b'.Layered outputs := by
  rcases tellProducer_eq_ok h.graph.wellWired hrun with ⟨rfl, -⟩ | ⟨op, o, index, l, -, -, rfl⟩
  · exact h
  · exact ⟨h.graph, h.outputs, h.gradients⟩

theorem growGradient_layered {options : GradientOptions} {towardLoss : List OpId}
    {tensor : TensorId} {partials : List TensorId} {u : Unit} (h : b.Layered outputs)
    (hrun : growGradient options towardLoss tensor partials b = .ok u b') :
    b'.Layered outputs := by
  obtain ⟨t, -, hcases⟩ := growGradient_eq_ok hrun
  rcases hcases with ⟨-, hgive⟩ | ⟨-, -, rfl⟩ | ⟨-, -, total, b₁, hsum, hrest⟩
  · rcases giveUpProducer_eq_ok h.graph.wellWired hgive with
      ⟨rfl, -⟩ | ⟨op, o, index, given, l, ps, -, -, -, rfl⟩
    · exact h
    · exact ⟨h.graph, h.outputs, h.gradients⟩
  · exact h
  · have hw := (keptByEdits_wellWired.growSum tensor partials).ok h.graph.wellWired hsum
    obtain ⟨rfl, phase?, g, -, hg, rfl⟩ := growSum_eq_ok hsum
    have h₁ : Backward.Layered outputs { b with
        graph := g
        grown := b.grown ++ [b.graph.nextOp]
        gradOf := b.gradOf.insert tensor (Naming.grad tensor) } :=
      layered_grown h hw hg rfl rfl
    split at hrest
    · -- the gradient that is noted is the output of the sum
      subst hrest
      refine ⟨h₁.graph, h₁.outputs, fun t d hd => ?_⟩
      simp only [Std.ExtTreeMap.getElem?_insert] at hd
      split at hd
      · cases hd
        have hout : (sumOp tensor partials phase?).outputs.get? 0 = some (Naming.grad tensor) := by
          simp [sumOp, Ports.get?_insert]
        show (g.producer? (Naming.grad tensor)).isSome
        rw [hg.producer?_new hout]
        rfl
      · exact h₁.gradients t d hd
    · exact tellProducer_layered h₁ hrest

theorem propagate_layered {options : GradientOptions} {towardLoss : List OpId} {rounds : Nat}
    {u : Unit} (h : b.Layered outputs)
    (hrun : propagate options towardLoss rounds b = .ok u b') : b'.Layered outputs := by
  induction rounds generalizing b with
  | zero =>
    obtain ⟨-, rfl⟩ := pure_eq_ok.1 hrun
    exact h
  | succ rounds ih =>
    have h₁ : b.cleared.Layered outputs := ⟨h.graph, h.outputs, h.gradients⟩
    rcases propagate_succ_eq_ok hrun with ⟨-, -, rfl⟩ | ⟨-, b₂, b₃, hops, htensors, hrest⟩
    · exact h₁
    · have h₂ : b₂.Layered outputs :=
        forM_ok hops h₁ fun _ _ _ _ _ ht hx => growGradOps_layered ht hx
      have h₃ : b₃.Layered outputs :=
        forM_ok htensors h₂ fun _ _ _ _ _ ht hx => growGradient_layered ht hx
      exact ih h₃ hrest

theorem seed_layered {loss : TensorId} {type : TensorType} {towardLoss : List OpId} {u : Unit}
    (h : b.Layered outputs) (hnone : b.gradients = ∅)
    (hrun : seed loss type towardLoss b = .ok u b') : b'.Layered outputs := by
  obtain ⟨g, hg, htell⟩ := seed_eq_ok hrun
  obtain ⟨hadded, hid⟩ := Edit.addInitialised_eq_ok hg
  have hlayered : g.Layered := by
    rw [hadded]
    exact h.graph.insertTensor hid ⟨by simp, rfl, rfl, Readers.count_empty⟩
  have houtputs : g.outputs = b.graph.outputs := by
    rw [hadded]
    rfl
  refine tellProducer_layered ⟨hlayered, houtputs.trans h.outputs, fun t d hd => ?_⟩ htell
  simp [hnone] at hd

end Growth

/-- **Differentiation keeps the layers** and the outputs, and the gradients it
    reports come from ops. -/
theorem Graph.Layered.differentiate {g g' : Graph} {options : GradientOptions}
    {report : GradientReport} (h : g.Layered)
    (hrun : Graph.differentiate options g = .ok report g') :
    g'.Layered ∧ g'.outputs = g.outputs ∧
      ∀ d ∈ report.gradients.values, (g'.producer? d).isSome := by
  obtain ⟨type, producer, ops, b₁, b, -, -, hseed, hpropagate, rfl, rfl⟩ :=
    Graph.differentiate_eq_ok hrun
  have h₀ : (Backward.start g options.loss ops).Layered g.outputs :=
    ⟨h, rfl, fun t d hd => by simp [Backward.start] at hd⟩
  have hb := Growth.propagate_layered (Growth.seed_layered h₀ rfl hseed) hpropagate
  refine ⟨hb.graph, hb.outputs, fun d hd => ?_⟩
  obtain ⟨t, ht⟩ := mem_values.1 hd
  exact hb.gradients t d ht

end Dataflow
