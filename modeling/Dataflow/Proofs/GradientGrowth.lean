import Dataflow.Gradient.Backward
import Dataflow.Proofs.Growing

/-! # What one step of differentiation grows

    Each step of differentiation is read off as a whole: which op it has added
    to the graph, which entries it has made in the ledgers, and that it has
    left everything else alone. -/

namespace Dataflow

section Tables

variable {α β : Type} {cmp : α → α → Ordering} {m : Std.ExtTreeMap α β cmp}

theorem values_eq_map [Std.TransCmp cmp] : m.values = m.toList.map Prod.snd := by
  rcases m with ⟨⟨q⟩⟩
  induction q using Quotient.ind with
  | _ t =>
    show t.inner.values = (Std.DTreeMap.Internal.Impl.Const.toList t.inner).map Prod.snd
    rw [Std.DTreeMap.Internal.Impl.values_eq_map_snd,
      Std.DTreeMap.Internal.Impl.Const.toList_eq_toListModel_map, List.map_map]
    rfl

/-- The values of a table are those that are found under some key. -/
theorem mem_values [Std.TransCmp cmp] [Std.LawfulEqCmp cmp] {v : β} :
    v ∈ m.values ↔ ∃ k : α, m[k]? = some v := by
  rw [values_eq_map, List.mem_map]
  constructor
  · rintro ⟨⟨k, v⟩, hmem, rfl⟩
    exact ⟨k, Std.ExtTreeMap.mem_toList_iff_getElem?_eq_some.1 hmem⟩
  · rintro ⟨k, hk⟩
    exact ⟨(k, v), Std.ExtTreeMap.mem_toList_iff_getElem?_eq_some.2 hk, rfl⟩

end Tables

namespace Growth

open Dataflow.Graph

variable {α β : Type} {b b' : Backward}

/-! ## Section 1: Building blocks -/

theorem edit_eq_ok {e : Edit α} {a : α} :
    edit e b = .ok a b' ↔ ∃ g, e b.graph = .ok a g ∧ b' = { b with graph := g } := by
  unfold edit
  cases e b.graph <;> simp [eq_comm]

theorem ask_eq_ok {question : Graph → Except GraphError α} {a : α} :
    ask question b = .ok a b' ↔ question b.graph = .ok a ∧ b = b' := by
  unfold ask
  rw [edit_eq_ok]
  constructor
  · rintro ⟨g, h, rfl⟩
    obtain ⟨ha, rfl⟩ := Edit.ask_eq_ok.1 h
    exact ⟨ha, rfl⟩
  · rintro ⟨ha, rfl⟩
    exact ⟨b.graph, Edit.ask_eq_ok.2 ⟨ha, rfl⟩, rfl⟩

/-- A question and what is made of the answer. -/
theorem ask_bind_eq_ok {question : Graph → Except GraphError α} {f : α → Growth β} {c : β} :
    (ask question >>= f) b = .ok c b' ↔ ∃ a, question b.graph = .ok a ∧ f a b = .ok c b' := by
  rw [bind_eq_ok]
  constructor
  · rintro ⟨a, b₁, hask, h⟩
    obtain ⟨ha, rfl⟩ := ask_eq_ok.1 hask
    exact ⟨a, ha, h⟩
  · rintro ⟨a, ha, h⟩
    exact ⟨a, b, ask_eq_ok.2 ⟨ha, rfl⟩, h⟩

theorem require_bind_eq_ok {test : Except GradientError α} {f : α → Growth β} {c : β} :
    (require test >>= f) b = .ok c b' ↔ ∃ a, test = .ok a ∧ f a b = .ok c b' := by
  rw [bind_eq_ok]
  unfold require
  cases test with
  | error e => simp
  | ok a => simp

theorem get_bind_eq_ok {f : Backward → Growth β} {c : β} :
    ((do let s ← get; f s) : Growth β) b = .ok c b' ↔ f b b = .ok c b' := Iff.rfl

theorem updatePartials_eq_ok {u : PartialGradients.Update α} {a : α} :
    updatePartials u b = .ok a b' ↔
      ∃ l, u b.partials = .ok a l ∧ b' = { b with partials := l } := by
  unfold updatePartials
  cases u b.partials <;> simp [eq_comm]

theorem updateOutputs_eq_ok {u : OutputGradients.Update α} {a : α} :
    updateOutputs u b = .ok a b' ↔ ∃ l, u b.outputs = .ok a l ∧ b' = { b with outputs := l } := by
  unfold updateOutputs
  cases u b.outputs <;> simp [eq_comm]

/-- A loop of edits is an edit. -/
theorem forM_edit_eq_ok {f : α → Edit Unit} {xs : List α} {u : Unit} :
    xs.forM (fun x => edit (f x)) b = .ok u b' ↔
      ∃ g, xs.forM f b.graph = .ok u g ∧ b' = { b with graph := g } := by
  induction xs generalizing b with
  | nil => simp [List.forM, eq_comm]
  | cons x rest ih =>
    rw [forM_cons_eq_ok]
    constructor
    · rintro ⟨_, b₁, hx, hrest⟩
      obtain ⟨g₁, hg₁, rfl⟩ := edit_eq_ok.1 hx
      obtain ⟨g₂, hg₂, rfl⟩ := ih.1 hrest
      exact ⟨g₂, forM_cons_eq_ok.2 ⟨_, g₁, hg₁, hg₂⟩, rfl⟩
    · rintro ⟨g₂, hall, rfl⟩
      obtain ⟨_, g₁, hg₁, hg₂⟩ := forM_cons_eq_ok.1 hall
      exact ⟨_, { b with graph := g₁ }, edit_eq_ok.2 ⟨g₁, hg₁, rfl⟩, ih.2 ⟨g₂, hg₂, rfl⟩⟩

/-- A loop of entries is an update of the ledger. -/
theorem forM_updatePartials_eq_ok {f : α → PartialGradients.Update Unit} {xs : List α} {u : Unit} :
    xs.forM (fun x => updatePartials (f x)) b = .ok u b' ↔
      ∃ l, xs.forM f b.partials = .ok u l ∧ b' = { b with partials := l } := by
  induction xs generalizing b with
  | nil => simp [List.forM, eq_comm]
  | cons x rest ih =>
    rw [forM_cons_eq_ok]
    constructor
    · rintro ⟨_, b₁, hx, hrest⟩
      obtain ⟨l₁, hl₁, rfl⟩ := updatePartials_eq_ok.1 hx
      obtain ⟨l₂, hl₂, rfl⟩ := ih.1 hrest
      exact ⟨l₂, forM_cons_eq_ok.2 ⟨_, l₁, hl₁, hl₂⟩, rfl⟩
    · rintro ⟨l₂, hall, rfl⟩
      obtain ⟨_, l₁, hl₁, hl₂⟩ := forM_cons_eq_ok.1 hall
      exact ⟨_, { b with partials := l₁ }, updatePartials_eq_ok.2 ⟨l₁, hl₁, rfl⟩,
        ih.2 ⟨l₂, hl₂, rfl⟩⟩

/-! ## Section 2: Gradient ops -/

/-- The outputs of a gradient op of `forward`: each target by the name of the
    edge along which it is delivered. -/
def edgeOutputs (forward : OpId) (targets : List (Nat × Nat × TensorId)) : List (Nat × TensorId) :=
  targets.map fun (output, input, tensor) => (output, Naming.edgeGrad tensor forward input)

/-- The gradient op that `spec` describes for op number `forward`. -/
def gradOp (options : GradientOptions) (forward : OpId) (phase? : Option Int)
    (spec : GradSpec Operator) (inputs : List (Nat × TensorId))
    (targets : List (Nat × Nat × TensorId)) : Op where
  operator := spec.operator
  settings := { phase? := backwardPhase options.phases phase? }
  inputs := (∅ : Ports).insertAll inputs
  outputs := (∅ : Ports).insertAll (edgeOutputs forward targets)
  origin? := some ⟨forward, spec.wires, spec.targets⟩
  isSettled := true

/-- Each target keeps the output and the input that the description gives. -/
theorem targetTensors_eq_ok {label : String} {o : Op} {spec : GradSpec Operator}
    {targets : List (Nat × Nat × TensorId)} (h : targetTensors label o spec = .ok targets) :
    List.Forall₂ (fun x y => y.1 = x.1 ∧ y.2.1 = x.2 ∧ o.inputs.get? x.2 = some y.2.2)
      spec.targets.toList targets := by
  refine (mapM_eq_ok h).imp fun x y hxy => ?_
  obtain ⟨output, input⟩ := x
  simp only at hxy
  split at hxy
  · rename_i tensor htensor
    cases hxy
    exact ⟨rfl, rfl, htensor⟩
  · cases hxy

theorem map_targetTensors {label : String} {o : Op} {spec : GradSpec Operator}
    {targets : List (Nat × Nat × TensorId)} (h : targetTensors label o spec = .ok targets) :
    targets.map (fun x => (x.1, x.2.1)) = spec.targets.toList := by
  have hall := targetTensors_eq_ok h
  clear h
  generalize spec.targets.toList = pairs at hall ⊢
  induction hall with
  | nil => rfl
  | cons hxy _ ih => rw [List.map_cons, ih, hxy.1, hxy.2.1]

/-- The outputs of a gradient op are at different indices. -/
theorem nodup_edgeOutputs {label : String} {o : Op} {spec : GradSpec Operator}
    {targets : List (Nat × Nat × TensorId)} (h : targetTensors label o spec = .ok targets)
    (forward : OpId) : ((edgeOutputs forward targets).map Prod.fst).Nodup := by
  have hfst : (edgeOutputs forward targets).map Prod.fst = spec.targets.toList.map Prod.fst := by
    rw [← map_targetTensors h, edgeOutputs, List.map_map, List.map_map]
    rfl
  rw [hfst, Std.ExtTreeMap.map_fst_toList_eq_keys]
  exact Std.ExtTreeMap.nodup_keys

theorem inspect_eq_ok {label : String} {op : OpId} {output : Nat} {tensor grad : TensorId}
    (h : inspect label op output tensor b = .ok grad b') :
    b' = b ∧ ∃ o, b.graph.op? op = some o ∧ o.outputs.get? output = some grad := by
  obtain ⟨expected, -, h⟩ := ask_bind_eq_ok.1 h
  obtain ⟨o, ho, h⟩ := ask_bind_eq_ok.1 h
  cases hout : o.outputs.get? output with
  | none =>
    simp only [hout] at h
    cases h
  | some grad =>
    simp only [hout] at h
    obtain ⟨found, -, h⟩ := ask_bind_eq_ok.1 h
    split at h
    · obtain ⟨_, _, h, -⟩ := bind_eq_ok.1 h
      cases h
    · obtain ⟨rfl, rfl⟩ := pure_eq_ok.1 h
      exact ⟨rfl, o, requireOp_eq_ok.1 ho, hout⟩

/-- A delivery enters the output of the gradient op in the ledger. -/
theorem deliver_eq_ok {label : String} {op : OpId} {output : Nat} {tensor : TensorId} {u : Unit}
    (h : deliver label op output tensor b = .ok u b') :
    ∃ o grad l, b.graph.op? op = some o ∧ o.outputs.get? output = some grad ∧
      PartialGradients.insert tensor grad b.partials = .ok () l ∧
      b' = { b with partials := l } := by
  obtain ⟨grad, b₁, hinspect, h⟩ := bind_eq_ok.1 h
  obtain ⟨hb₁, o, ho, hout⟩ := inspect_eq_ok hinspect
  obtain ⟨l, hl, hb'⟩ := updatePartials_eq_ok.1 h
  subst hb₁
  exact ⟨o, grad, l, ho, hout, hl, hb'⟩

/-- The entries that the targets of a gradient op make. -/
def deliveries (forward : OpId) (targets : List (Nat × Nat × TensorId)) :
    PartialGradients.Update Unit :=
  targets.forM fun (_, input, tensor) =>
    PartialGradients.insert tensor (Naming.edgeGrad tensor forward input)

theorem forM_deliver_eq_ok {label : String} {forward op : OpId} {o : Op}
    {targets : List (Nat × Nat × TensorId)} {u : Unit} (ho : b.graph.op? op = some o)
    (hout : ∀ x ∈ targets, o.outputs.get? x.1 = some (Naming.edgeGrad x.2.2 forward x.2.1))
    (h : (targets.forM fun (output, _, tensor) => deliver label op output tensor) b = .ok u b') :
    ∃ l, deliveries forward targets b.partials = .ok u l ∧ b' = { b with partials := l } := by
  induction targets generalizing b with
  | nil =>
    obtain ⟨-, rfl⟩ := pure_eq_ok.1 h
    exact ⟨b.partials, rfl, rfl⟩
  | cons x rest ih =>
    obtain ⟨_, b₁, hx, hrest⟩ := forM_cons_eq_ok.1 h
    obtain ⟨o', grad, l, ho', hgrad, hl, rfl⟩ := deliver_eq_ok hx
    have heq : o' = o := Option.some.inj (ho'.symm.trans ho)
    subst heq
    have hname : grad = Naming.edgeGrad x.2.2 forward x.2.1 :=
      Option.some.inj (hgrad.symm.trans (hout x List.mem_cons_self))
    subst hname
    obtain ⟨l₂, hl₂, rfl⟩ := ih (b := { b with partials := l }) ho
      (fun y hy => hout y (List.mem_cons_of_mem x hy)) hrest
    exact ⟨l₂, forM_cons_eq_ok.2 ⟨_, l, hl, hl₂⟩, rfl⟩

/-- **Wiring a gradient op**: the graph has one more op, as the description
    says, which is yet to be settled. -/
theorem wireGradOp_eq_ok {options : GradientOptions} {forward : OpId} {label : String}
    {spec : GradSpec Operator} {phase? : Option Int} {op : OpId}
    {targets : List (Nat × Nat × TensorId)}
    (h : wireGradOp options forward label spec phase? b = .ok (op, targets) b') :
    ∃ o inputs g, b.graph.op? forward = some o ∧
      wiring label o spec b.gradOf = .ok inputs ∧ targetTensors label o spec = .ok targets ∧
      Growing b.graph
        { gradOp options forward phase? spec inputs targets with isSettled := false } g ∧
      op = b.graph.nextOp ∧ b' = { b with graph := g } := by
  obtain ⟨o, ho, h⟩ := ask_bind_eq_ok.1 h
  replace h := get_bind_eq_ok.1 h
  obtain ⟨inputs, hinputs, h⟩ := require_bind_eq_ok.1 h
  obtain ⟨targets', htargets, h⟩ := require_bind_eq_ok.1 h
  obtain ⟨n, b₁, hcreate, h⟩ := bind_eq_ok.1 h
  obtain ⟨g₁, hcreated, rfl⟩ := edit_eq_ok.1 hcreate
  rw [Edit.createOp_run] at hcreated
  cases hcreated
  obtain ⟨_, b₂, hin, h⟩ := bind_eq_ok.1 h
  obtain ⟨g₂, hwired, rfl⟩ := forM_edit_eq_ok.1 hin
  obtain ⟨_, b₃, hout, h⟩ := bind_eq_ok.1 h
  obtain ⟨g₃, hmade, rfl⟩ := forM_edit_eq_ok.1 hout
  obtain ⟨_, b₄, hnote, h⟩ := bind_eq_ok.1 h
  obtain ⟨g₄, hnoted, rfl⟩ := edit_eq_ok.1 hnote
  have hg₄ := Edit.change_eq_ok.1 hnoted
  subst hg₄
  obtain ⟨hresult, rfl⟩ := pure_eq_ok.1 h
  cases hresult
  have houts : Edit.createOutputs b.graph.nextOp (edgeOutputs forward targets) g₂ = .ok () g₃ := by
    unfold Edit.createOutputs edgeOutputs
    rw [List.forM_eq_forM, List.forM_map]
    exact hmade
  -- the stages of growth: a bare op, its inputs, its outputs, its origin
  have hinputs' := (growing_withOp b.graph spec.operator _).connectInputs (by simp) hwired
  have houtputs := hinputs'.createOutputs (nodup_edgeOutputs htargets forward) (by simp) houts
  have horigin := houtputs.note (some ⟨forward, spec.wires, spec.targets⟩)
  exact ⟨o, inputs, _, requireOp_eq_ok.1 ho, hinputs, htargets, horigin, rfl, rfl⟩

/-- Settling a new op gives its outputs their types, and it is noted. -/
theorem settleNew_eq_ok {g : Graph} {o : Op} {u : Unit} (hgrowing : Growing g o b.graph)
    (h : settleNew g.nextOp b = .ok u b') :
    ∃ g', Grown g { o with isSettled := true } g' ∧
      b' = { b with graph := g', grown := b.grown ++ [g.nextOp] } := by
  obtain ⟨_, b₁, hsettle, h⟩ := bind_eq_ok.1 h
  obtain ⟨g', hsettled, rfl⟩ := edit_eq_ok.1 hsettle
  have hb' := modify_eq_ok.1 h
  exact ⟨g', hgrowing.settle (Edit.settle_eq_ok.1 hsettled), hb'⟩

/-- The outputs of a gradient op are named after the edges. -/
theorem get?_gradOp {options : GradientOptions} {forward : OpId} {phase? : Option Int}
    {label : String} {o : Op} {spec : GradSpec Operator} {inputs : List (Nat × TensorId)}
    {targets : List (Nat × Nat × TensorId)} (htargets : targetTensors label o spec = .ok targets) :
    ∀ x ∈ targets, (gradOp options forward phase? spec inputs targets).outputs.get? x.1
      = some (Naming.edgeGrad x.2.2 forward x.2.1) := fun _ hx =>
  (Ports.get?_insertAll_empty (nodup_edgeOutputs htargets forward)).2 (List.mem_map_of_mem hx)

/-- **One gradient op**: the graph has one more op, as the description says,
    and its outputs are entered as partial gradients. -/
theorem growGradOp_eq_ok {options : GradientOptions} {forward : OpId} {label : String}
    {spec : GradSpec Operator} {phase? : Option Int} {u : Unit}
    (h : growGradOp options forward label spec phase? b = .ok u b') :
    ∃ o inputs targets g l, b.graph.op? forward = some o ∧
      wiring label o spec b.gradOf = .ok inputs ∧ targetTensors label o spec = .ok targets ∧
      Grown b.graph (gradOp options forward phase? spec inputs targets) g ∧
      deliveries forward targets b.partials = .ok () l ∧
      b' = { b with graph := g, partials := l, grown := b.grown ++ [b.graph.nextOp] } := by
  obtain ⟨⟨op, targets⟩, b₁, hwire, h⟩ := bind_eq_ok.1 h
  obtain ⟨o, inputs, g₁, ho, hinputs, htargets, hgrowing, rfl, rfl⟩ := wireGradOp_eq_ok hwire
  obtain ⟨_, b₂, hsettle, h⟩ := bind_eq_ok.1 h
  obtain ⟨g, hgrown, rfl⟩ := settleNew_eq_ok (b := { b with graph := g₁ }) hgrowing hsettle
  obtain ⟨l, hl, rfl⟩ := forM_deliver_eq_ok hgrown.op_new (get?_gradOp htargets) h
  exact ⟨o, inputs, targets, g, l, ho, hinputs, htargets, hgrown, hl, rfl⟩

theorem describe_eq_ok {forward : OpId} {o : Op} {specs : List (GradSpec Operator)}
    (h : describe forward b = .ok (o, specs) b') :
    b' = b ∧ b.graph.op? forward = some o ∧ o.isGradient = false ∧
      o.operator.gradSpecs (b.graph.view forward o) = .ok specs ∧
      checkSpecs (o.label forward) o specs [] = .ok () := by
  obtain ⟨o', ho, h⟩ := ask_bind_eq_ok.1 h
  simp only at h
  split at h
  · obtain ⟨_, _, h, -⟩ := bind_eq_ok.1 h
    cases h
  · rename_i hgradient
    obtain ⟨specs', hspecs, h⟩ := ask_bind_eq_ok.1 h
    obtain ⟨_, hcheck, h⟩ := require_bind_eq_ok.1 h
    obtain ⟨hresult, rfl⟩ := pure_eq_ok.1 h
    cases hresult
    exact ⟨rfl, requireOp_eq_ok.1 ho, by simpa using hgradient, hspecs, hcheck⟩

/-- **All gradient ops of an op**: one after the other, and then the edges of
    the inputs that none of them covers are given up. -/
theorem growGradOps_eq_ok {options : GradientOptions} {forward : OpId} {u : Unit}
    (h : growGradOps options forward b = .ok u b') :
    ∃ o specs b₁ o' l, b.graph.op? forward = some o ∧ o.isGradient = false ∧
      o.operator.gradSpecs (b.graph.view forward o) = .ok specs ∧
      checkSpecs (o.label forward) o specs [] = .ok () ∧
      (specs.forM fun spec =>
        growGradOp options forward (o.label forward) spec o.settings.phase?) b = .ok () b₁ ∧
      b₁.graph.op? forward = some o' ∧
      (uncovered o' specs).forM (fun x => PartialGradients.waive x.2) b₁.partials = .ok () l ∧
      b' = { b₁ with partials := l } := by
  obtain ⟨⟨o, specs⟩, b₀, hdescribe, hrest⟩ := bind_eq_ok.1 h
  obtain ⟨rfl, ho, hgradient, hspecs, hcheck⟩ := describe_eq_ok hdescribe
  obtain ⟨_, b₁, hgrow, hrest⟩ := bind_eq_ok.1 hrest
  obtain ⟨o', ho', hrest⟩ := ask_bind_eq_ok.1 hrest
  obtain ⟨l, hl, hb'⟩ := forM_updatePartials_eq_ok.1 hrest
  exact ⟨o, specs, b₁, o', l, ho, hgradient, hspecs, hcheck, hgrow, requireOp_eq_ok.1 ho', hl, hb'⟩

/-! ## Section 3: Sums -/

theorem mem_byName {ids : List TensorId} {id : TensorId} : id ∈ byName ids ↔ id ∈ ids := by
  simp [byName]

/-- The slots of a sum are numbered from zero. -/
theorem slots_zipIdx (ids : List TensorId) :
    (ids.zipIdx.map Prod.swap).map Prod.fst = List.range ids.length := by
  have hswap : Prod.fst ∘ Prod.swap = (Prod.snd : TensorId × Nat → Nat) := rfl
  rw [List.map_map, hswap, List.zipIdx_map_snd, List.range_eq_range']

/-- The op that sums the partial gradients of a tensor, sorted by name. -/
def sumOp (tensor : TensorId) (partials : List TensorId) (phase? : Option Int) : Op where
  operator := Builtin.sum.operator
  settings := { name := s!"GradSum:{tensor}", phase? }
  inputs := (∅ : Ports).insertAll
    ((Growth.byName partials).zipIdx.map Prod.swap)
  outputs := (∅ : Ports).insertAll [(0, Naming.grad tensor)]
  isSettled := true

/-- **Wiring a sum**: the graph has one more op, in the latest phase of a
    partial gradient, which is yet to be settled. -/
theorem wireSum_eq_ok {tensor : TensorId} {partials : List TensorId} {op : OpId}
    (h : wireSum tensor partials b = .ok op b') :
    ∃ phase? g, phase? = ((byName partials).filterMap (phaseOf? b.graph)).max? ∧
      Growing b.graph { sumOp tensor partials phase? with isSettled := false } g ∧
      op = b.graph.nextOp ∧ b' = { b with graph := g } := by
  obtain ⟨phase?, hphase, h⟩ := ask_bind_eq_ok.1 h
  obtain ⟨n, b₁, hcreate, h⟩ := bind_eq_ok.1 h
  obtain ⟨g₁, hcreated, rfl⟩ := edit_eq_ok.1 hcreate
  rw [Edit.createOp_run] at hcreated
  cases hcreated
  obtain ⟨_, b₂, hin, h⟩ := bind_eq_ok.1 h
  obtain ⟨g₂, hwired, rfl⟩ := forM_edit_eq_ok.1 hin
  obtain ⟨_, b₃, hout, h⟩ := bind_eq_ok.1 h
  obtain ⟨g₃, hmade, rfl⟩ := edit_eq_ok.1 hout
  obtain ⟨rfl, rfl⟩ := pure_eq_ok.1 h
  have hins : Edit.connectInputs b.graph.nextOp
      ((Growth.byName partials).zipIdx.map Prod.swap)
      (b.graph.withOp Builtin.sum.operator { name := s!"GradSum:{tensor}", phase? })
        = .ok () g₂ := by
    unfold Edit.connectInputs
    rw [List.forM_eq_forM, List.forM_map]
    exact hwired
  have houts : Edit.createOutputs b.graph.nextOp [(0, Naming.grad tensor)] g₂ = .ok () g₃ :=
    forM_cons_eq_ok.2 ⟨_, g₃, hmade, rfl⟩
  have hinputs := (growing_withOp b.graph Builtin.sum.operator _).connectInputs (by simp) hins
  have houtputs := hinputs.createOutputs (by simp) (by simp) houts
  exact ⟨phase?, g₃, (Except.ok.inj hphase).symm, houtputs, rfl, rfl⟩

/-- **One sum**: the graph has one more op, in the latest phase of a partial
    gradient, and its output is noted as the complete gradient of the tensor. -/
theorem growSum_eq_ok {tensor total : TensorId} {partials : List TensorId}
    (h : growSum tensor partials b = .ok total b') :
    total = Naming.grad tensor ∧ ∃ phase? g,
      phase? = ((byName partials).filterMap (phaseOf? b.graph)).max? ∧
      Grown b.graph (sumOp tensor partials phase?) g ∧
      b' = { b with
        graph := g
        grown := b.grown ++ [b.graph.nextOp]
        gradOf := b.gradOf.insert tensor total } := by
  obtain ⟨op, b₁, hwire, h⟩ := bind_eq_ok.1 h
  obtain ⟨phase?, g₁, hphase, hgrowing, rfl, rfl⟩ := wireSum_eq_ok hwire
  obtain ⟨_, b₂, hsettle, h⟩ := bind_eq_ok.1 h
  obtain ⟨g, hgrown, rfl⟩ := settleNew_eq_ok (b := { b with graph := g₁ }) hgrowing hsettle
  obtain ⟨_, b₃, hnote, h⟩ := bind_eq_ok.1 h
  have hb₃ := modify_eq_ok.1 hnote
  subst hb₃
  obtain ⟨rfl, rfl⟩ := pure_eq_ok.1 h
  exact ⟨rfl, phase?, g, hphase, hgrown, rfl⟩

/-- A tensor with a producer is at one output of it. -/
theorem indices_output {g : Graph} (hg : g.WellWired) {op : OpId} {o : Op} {tensor : TensorId}
    (ho : g.op? op = some o) (hp : g.producer? tensor = some op) :
    ∃ index, o.outputs.get? index = some tensor ∧ o.outputs.indices tensor = [index] := by
  obtain ⟨index, hindex⟩ := (hg.produces tensor op).1 hp
  have hout : o.outputs.get? index = some tensor := by rwa [← outputAt_eq ho]
  refine ⟨index, hout, List.perm_singleton.1 ?_⟩
  refine (List.perm_ext_iff_of_nodup (Ports.nodup_indices _ _) (List.nodup_singleton _)).2
    fun j => ?_
  rw [Ports.mem_indices, List.mem_singleton]
  constructor
  · intro hj
    rw [← outputAt_eq ho] at hj
    exact hg.output_unique op j index tensor hj hindex
  · rintro rfl
    exact hout

/-- Op number `op`, which is `o` and one of `towardLoss`, has `tensor` at
    output `index`. -/
structure IsSourceOf (g : Graph) (towardLoss : List OpId) (tensor : TensorId) (op : OpId) (o : Op)
    (index : Nat) : Prop where
  mem : op ∈ towardLoss
  op : g.op? op = some o
  output : o.outputs.get? index = some tensor

/-- **Telling a producer**: if the tensor comes from an op with a path to the
    loss, the output is entered in the ledger of that op. -/
theorem tellProducer_eq_ok {towardLoss : List OpId} {tensor : TensorId} {u : Unit}
    (hb : b.graph.WellWired) (h : tellProducer towardLoss tensor b = .ok u b') :
    (b' = b ∧ ∀ op ∈ towardLoss, b.graph.producer? tensor ≠ some op) ∨
    ∃ op o index l, IsSourceOf b.graph towardLoss tensor op o index ∧
      OutputGradients.insert op o index b.outputs = .ok () l ∧ b' = { b with outputs := l } := by
  obtain ⟨t, ht, h⟩ := ask_bind_eq_ok.1 h
  have hproducer : b.graph.producer? tensor = t.producer? := by
    simp [producer?, requireTensor_eq_ok.1 ht]
  rw [hproducer]
  cases hp : t.producer? with
  | none =>
    simp only [hp] at h
    obtain ⟨-, rfl⟩ := pure_eq_ok.1 h
    exact .inl ⟨rfl, fun _ _ hop => by cases hop⟩
  | some op =>
    simp only [hp] at h
    split at h
    · rename_i hmem
      obtain ⟨o, ho, h⟩ := ask_bind_eq_ok.1 h
      replace ho := requireOp_eq_ok.1 ho
      obtain ⟨index, hindex, hindices⟩ := indices_output hb ho (hproducer.trans hp)
      rw [hindices] at h
      obtain ⟨_, b₁, hinsert, h⟩ := forM_cons_eq_ok.1 h
      obtain ⟨-, rfl⟩ := pure_eq_ok.1 h
      obtain ⟨l, hl, rfl⟩ := updateOutputs_eq_ok.1 hinsert
      exact .inr ⟨op, o, index, l, ⟨List.contains_iff_mem.1 hmem, ho, hindex⟩, hl, rfl⟩
    · rename_i hmem
      obtain ⟨-, rfl⟩ := pure_eq_ok.1 h
      refine .inl ⟨rfl, ?_⟩
      rintro op' hop' heq
      cases heq
      exact hmem (List.contains_iff_mem.2 hop')

/-- **Striking off**: if the tensor comes from an op with a path to the loss,
    the ledger of that op hears of it. -/
theorem strike_eq_ok {towardLoss : List OpId} {tensor : TensorId} {result : Option (OpId × Op)}
    (hb : b.graph.WellWired) (h : strike towardLoss tensor b = .ok result b') :
    (result = none ∧ b' = b ∧ ∀ op ∈ towardLoss, b.graph.producer? tensor ≠ some op) ∨
    ∃ op o index given l, IsSourceOf b.graph towardLoss tensor op o index ∧
      b.outputs.waive op o index = (given, l) ∧
      result = (if given then some (op, o) else none) ∧ b' = { b with outputs := l } := by
  obtain ⟨t, ht, h⟩ := ask_bind_eq_ok.1 h
  have hproducer : b.graph.producer? tensor = t.producer? := by
    simp [producer?, requireTensor_eq_ok.1 ht]
  rw [hproducer]
  cases hp : t.producer? with
  | none =>
    simp only [hp] at h
    obtain ⟨rfl, rfl⟩ := pure_eq_ok.1 h
    exact .inl ⟨rfl, rfl, fun _ _ hop => by cases hop⟩
  | some op =>
    simp only [hp] at h
    split at h
    · rename_i hmem
      obtain ⟨o, ho, h⟩ := ask_bind_eq_ok.1 h
      replace ho := requireOp_eq_ok.1 ho
      -- the tensor is at one output of its producer, so one output is struck off
      obtain ⟨index, hindex, hindices⟩ := indices_output hb ho (hproducer.trans hp)
      rw [hindices] at h
      obtain ⟨waived, b₁, hwaive, h⟩ := bind_eq_ok.1 h
      rw [List.mapM_cons, List.mapM_nil] at hwaive
      obtain ⟨given, b₂, hgiven, hwaive⟩ := bind_eq_ok.1 hwaive
      obtain ⟨l, hl, rfl⟩ := updateOutputs_eq_ok.1 hgiven
      cases hwaive
      rcases hstruck : b.outputs.waive op o index with ⟨struck, l'⟩
      rw [hstruck] at hl
      cases hl
      have hany : [struck].any id = struck := by simp
      rw [hany] at h
      obtain ⟨rfl, rfl⟩ := pure_eq_ok.1 h
      exact .inr ⟨op, o, index, struck, l', ⟨List.contains_iff_mem.1 hmem, ho, hindex⟩, hstruck,
        rfl, rfl⟩
    · rename_i hmem
      obtain ⟨rfl, rfl⟩ := pure_eq_ok.1 h
      refine .inl ⟨rfl, rfl, ?_⟩
      intro op' hop' heq
      cases heq
      exact hmem (List.contains_iff_mem.2 hop')

/-- **Giving up a producer**: the output is struck off.  If it was the last
    one, all edges into the op are given up. -/
theorem giveUpProducer_eq_ok {towardLoss : List OpId} {tensor : TensorId} {u : Unit}
    (hb : b.graph.WellWired) (h : giveUpProducer towardLoss tensor b = .ok u b') :
    (b' = b ∧ ∀ op ∈ towardLoss, b.graph.producer? tensor ≠ some op) ∨
    ∃ op o index given l ps, IsSourceOf b.graph towardLoss tensor op o index ∧
      b.outputs.waive op o index = (given, l) ∧
      (if given then o.inputs.toList.forM (fun x => PartialGradients.waive x.2) b.partials
        else .ok () b.partials) = .ok () ps ∧
      b' = { b with outputs := l, partials := ps } := by
  obtain ⟨result, b₁, hstrike, h⟩ := bind_eq_ok.1 h
  rcases strike_eq_ok hb hstrike with ⟨rfl, hb₁, hnone⟩ |
    ⟨op, o, index, given, l, hsource, hwaive, rfl, hb₁⟩
  · obtain ⟨-, hb'⟩ := pure_eq_ok.1 h
    exact .inl ⟨hb'.symm.trans hb₁, hnone⟩
  · refine .inr ⟨op, o, index, given, l, b'.partials, hsource, hwaive, ?_⟩
    subst hb₁
    cases given with
    | true =>
      obtain ⟨ps, hps, rfl⟩ := forM_updatePartials_eq_ok.1 h
      exact ⟨hps, rfl⟩
    | false =>
      obtain ⟨-, rfl⟩ := pure_eq_ok.1 h
      exact ⟨rfl, rfl⟩

/-- **What becomes of a tensor** whose partial gradients have all arrived:
    without any its producer is given up, an unwanted one is left alone, and
    the others are summed. -/
theorem growGradient_eq_ok {options : GradientOptions} {towardLoss : List OpId}
    {tensor : TensorId} {partials : List TensorId} {u : Unit}
    (h : growGradient options towardLoss tensor partials b = .ok u b') :
    ∃ t, b.graph.tensor? tensor = some t ∧
      ((partials = [] ∧ giveUpProducer towardLoss tensor b = .ok u b') ∨
       (partials ≠ [] ∧ isWanted options t.kind tensor = false ∧ b' = b) ∨
       (partials ≠ [] ∧ isWanted options t.kind tensor = true ∧
        ∃ total b₁, growSum tensor partials b = .ok total b₁ ∧
          if t.kind = .var ∨ t.kind = .stream then
            b' = { b₁ with gradients := b₁.gradients.insert tensor total }
          else tellProducer towardLoss tensor b₁ = .ok u b')) := by
  obtain ⟨t, ht, h⟩ := ask_bind_eq_ok.1 h
  refine ⟨t, requireTensor_eq_ok.1 ht, ?_⟩
  split at h
  · rename_i hempty
    exact .inl ⟨List.isEmpty_iff.1 hempty, h⟩
  · rename_i hempty
    have hne : partials ≠ [] := fun hnil => hempty (List.isEmpty_iff.2 hnil)
    split at h
    · rename_i hwanted
      obtain ⟨total, b₁, hsum, h⟩ := bind_eq_ok.1 h
      refine .inr (.inr ⟨hne, hwanted, total, b₁, hsum, ?_⟩)
      cases hkind : t.kind with
      | var =>
        simp only [hkind] at h
        rw [if_pos (.inl rfl)]
        exact modify_eq_ok.1 h
      | stream =>
        simp only [hkind] at h
        rw [if_pos (.inr rfl)]
        exact modify_eq_ok.1 h
      | const =>
        simp only [hkind] at h
        rw [if_neg (by decide)]
        exact h
      | computed =>
        simp only [hkind] at h
        rw [if_neg (by decide)]
        exact h
    · rename_i hwanted
      obtain ⟨-, rfl⟩ := pure_eq_ok.1 h
      exact .inr (.inl ⟨hne, by simpa using hwanted, rfl⟩)

/-! ## Section 4: The whole backward graph -/

theorem Round.isIdle_iff {r : Round} : r.isIdle = true ↔ r.ops = [] ∧ r.arrivals = [] := by
  rw [isIdle, Bool.and_eq_true, List.isEmpty_iff, List.isEmpty_iff]

/-- **One round**: either nothing was complete, or what was has its turns and the
    next round follows. -/
theorem propagate_succ_eq_ok {options : GradientOptions} {towardLoss : List OpId} {rounds : Nat}
    {u : Unit} (h : propagate options towardLoss (rounds + 1) b = .ok u b') :
    (b.round.ops = [] ∧ b.round.arrivals = [] ∧ b' = b.cleared) ∨
    (¬ (b.round.ops = [] ∧ b.round.arrivals = []) ∧
      ∃ b₂ b₃, b.round.ops.forM (growGradOps options) b.cleared = .ok () b₂ ∧
        b.round.arrivals.forM (fun x => growGradient options towardLoss x.1 x.2) b₂
          = .ok () b₃ ∧
        propagate options towardLoss rounds b₃ = .ok u b') := by
  obtain ⟨r, b₁, htake, hrest⟩ := bind_eq_ok.1 h
  cases htake
  split at hrest
  · rename_i hidle
    obtain ⟨hops, harrivals⟩ := Round.isIdle_iff.1 hidle
    obtain ⟨-, rfl⟩ := pure_eq_ok.1 hrest
    exact .inl ⟨hops, harrivals, rfl⟩
  · rename_i hbusy
    obtain ⟨_, b₃, hturns, hlast⟩ := bind_eq_ok.1 hrest
    obtain ⟨_, b₂, hops, htensors⟩ := bind_eq_ok.1 hturns
    exact .inr ⟨fun hidle => hbusy (Round.isIdle_iff.2 hidle), b₂, b₃, hops, htensors, hlast⟩

/-- **The seed**: the gradient of the loss by itself is there, and the producer
    of the loss is told. -/
theorem seed_eq_ok {loss : TensorId} {type : TensorType} {towardLoss : List OpId} {u : Unit}
    (h : seed loss type towardLoss b = .ok u b') :
    ∃ g, Edit.addInitialised (Naming.grad loss) .const type (Payload.one type.element) b.graph
        = .ok () g ∧
      tellProducer towardLoss loss
        { b with graph := g, gradOf := b.gradOf.insert loss (Naming.grad loss) } = .ok u b' := by
  obtain ⟨_, b₁, hadd, hrest⟩ := bind_eq_ok.1 h
  obtain ⟨g, hg, rfl⟩ := edit_eq_ok.1 hadd
  obtain ⟨_, b₂, hnote, htell⟩ := bind_eq_ok.1 hrest
  have hb₂ := modify_eq_ok.1 hnote
  subst hb₂
  exact ⟨g, hg, htell⟩

end Growth

/-- A loss that can be differentiated has one element and a producer, and there
    are no gradients in the graph yet. -/
theorem Graph.lossProducer_accepts {g : Graph} {loss : TensorId} {type : TensorType} {op : OpId}
    (h : g.lossProducer loss = .ok (type, op)) :
    g.producer? loss = some op ∧ g.type? loss = some type ∧ type.count = 1 ∧
      ∀ t, (g.tensor? t).isSome → Naming.isReserved t = false := by
  unfold Graph.lossProducer at h
  cases hfind : g.tensorIds.find? Naming.isReserved with
  | some id =>
    simp only [hfind] at h
    cases h
  | none =>
    simp only [hfind] at h
    cases hx : g.tensor? loss with
    | none =>
      simp only [hx] at h
      cases h
    | some x =>
      simp only [hx] at h
      split at h
      · cases h
      · rename_i htype
        split at h
        · cases h
        · rename_i hcount
          split at h
          · cases h
          · rename_i hproducer
            cases h
            refine ⟨by simp [producer?, hx, hproducer], by simp [type?, hx, htype],
              not_not.1 hcount, fun t ht => ?_⟩
            simpa using List.find?_eq_none.1 hfind t (mem_tensorIds.2 ht)

theorem Graph.lossProducer_eq_ok {g : Graph} {loss : TensorId} {type : TensorType} {op : OpId}
    (h : g.lossProducer loss = .ok (type, op)) :
    g.producer? loss = some op ∧ ∀ t, (g.tensor? t).isSome → Naming.isReserved t = false := by
  obtain ⟨hproducer, -, -, hnames⟩ := lossProducer_accepts h
  exact ⟨hproducer, hnames⟩

/-- **Differentiation**: the seed, and then as many rounds as there are ops and
    tensors upstream, and one more. -/
theorem Graph.differentiate_eq_ok {g g' : Graph} {options : GradientOptions}
    {report : GradientReport} (h : Graph.differentiate options g = .ok report g') :
    ∃ type producer ops b₁ b, g.lossProducer options.loss = .ok (type, producer) ∧
      ops = g.opsToward producer ∧
      Growth.seed options.loss type ops (Backward.start g options.loss ops) = .ok () b₁ ∧
      Growth.propagate options ops
        (ops.length + (Backward.start g options.loss ops).partials.expected.size + 1) b₁
          = .ok () b ∧
      report = b.report options ∧ g' = b.graph := by
  unfold Graph.differentiate at h
  split at h
  · cases h
  · rename_i type producer hloss
    simp only at h
    split at h
    · rename_i b hgrow
      cases h
      obtain ⟨_, b₁, hseed, hpropagate⟩ := bind_eq_ok.1 hgrow
      exact ⟨type, producer, _, b₁, b, hloss, rfl, hseed, hpropagate, rfl, rfl⟩
    · cases h

end Dataflow
