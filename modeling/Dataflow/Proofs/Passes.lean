import Dataflow.Gradient.Backward
import Dataflow.Proofs.Rewiring
import Dataflow.Pruning

/-! # Passes keep what single edits keep

    Pruning, the removal of isolated tensors and differentiation change a graph
    by edits only, apart from a note on gradient ops.  So a property that every
    single edit keeps is kept by them as well, also when they fail and leave
    half of their work behind.  That the wiring is in order is such a property. -/

namespace Dataflow

open Dataflow.Graph

/-! ## Section 1: Removal -/

/-- Every edit of a single op or a single tensor keeps the property, and so
    does a note on an op. -/
structure KeptByEdits (P : Graph → Prop) : Prop where
  addInitialised : ∀ id kind type data, Keeps P (Edit.addInitialised id kind type data)
  removeTensor : ∀ id, Keeps P (Edit.removeTensor id)
  createOp : ∀ operator settings, Keeps P (Edit.createOp operator settings)
  connectInput : ∀ op index tensor, Keeps P (Edit.connectInput op index tensor)
  createOutput : ∀ op index tensor, Keeps P (Edit.createOutput op index tensor)
  disconnectInput : ∀ op index, Keeps P (Edit.disconnectInput op index)
  disconnectOutput : ∀ op index, Keeps P (Edit.disconnectOutput op index)
  settle : ∀ op, Keeps P (Edit.settle op)
  eraseOp : ∀ op, Keeps P (Edit.eraseOp op)
  note : ∀ g op origin?, P g → P (g.modifyOp op fun o => { o with origin? })

/-- Every edit keeps the wiring in order. -/
theorem keptByEdits_wellWired : KeptByEdits WellWired where
  addInitialised := Edit.addInitialised_wellWired
  removeTensor := Edit.removeTensor_wellWired
  createOp := Edit.createOp_wellWired
  connectInput := Edit.connectInput_wellWired
  createOutput := Edit.createOutput_wellWired
  disconnectInput := Edit.disconnectInput_wellWired
  disconnectOutput := Edit.disconnectOutput_wellWired
  settle := Edit.settle_wellWired
  eraseOp := Edit.eraseOp_wellWired
  note _ op _ hg := hg.modifyOp op (fun _ => rfl) (fun _ => rfl)

namespace KeptByEdits

variable {α : Type} {P : Graph → Prop}

theorem disconnectAll (hP : KeptByEdits P) (op : OpId) : Keeps P (Edit.disconnectAll op) := by
  refine Keeps.bind (Edit.keeps_ask _) fun o => Keeps.bind ?_ fun _ => ?_
  · exact Keeps.forM (fun _ => Keeps.bind (hP.disconnectInput op _) fun _ => Keeps.pure _) _
  · exact Keeps.forM (fun _ => Keeps.bind (hP.disconnectOutput op _) fun _ => Keeps.pure _) _

theorem eraseOps (hP : KeptByEdits P) (ops : List OpId) : Keeps P (Edit.eraseOps ops) :=
  Keeps.forM (fun op => Keeps.bind (hP.disconnectAll op) fun _ =>
    Keeps.bind (hP.eraseOp op) fun _ => Keeps.pure _) ops

theorem removeTensors (hP : KeptByEdits P) (ids : List TensorId) :
    Keeps P (Edit.removeTensors ids) :=
  Keeps.forM (fun id => Keeps.bind (hP.removeTensor id) fun _ => Keeps.pure _) ids

theorem pruneOps (hP : KeptByEdits P) (doomed : List OpId) (kept : List Part) :
    Keeps P (Edit.pruneOps doomed kept) :=
  Keeps.bind (hP.eraseOps doomed) fun _ => Keeps.bind Keeps.get fun _ =>
    Keeps.bind (hP.removeTensors _) fun _ => Keeps.pure _

theorem removeIsolated (hP : KeptByEdits P) (retainVars retainConsts : Bool) :
    Keeps P (Edit.removeIsolated retainVars retainConsts) :=
  Keeps.bind Keeps.get fun _ => Keeps.bind (hP.removeTensors _) fun _ => Keeps.pure _

theorem prune (hP : KeptByEdits P) (targets : List TensorId) : Keeps P (Graph.prune targets) := by
  intro g hg
  unfold Graph.prune
  simp only
  split
  · exact hg
  · have hkeep := hP.pruneOps
      (g.opIds.filter fun op => !(g.required targets).contains (.op op)) (g.required targets) g hg
    split
    · rename_i h
      rwa [h] at hkeep
    · rename_i h
      rwa [h] at hkeep

end KeptByEdits

/-! ## Section 2: Growth -/

/-- The graph of a backward graph under construction has the property. -/
def Backward.Has (P : Graph → Prop) (b : Backward) : Prop := P b.graph

namespace Growth

variable {α : Type} {P : Graph → Prop}

/-- What an edit keeps of the graph, it keeps of a backward graph under
    construction. -/
theorem keeps_edit {e : Edit α} (h : Keeps P e) :
    Keeps (Backward.Has P) (edit e) := by
  intro b hb
  have hkeep := h b.graph hb
  unfold edit
  split
  · rename_i he
    rwa [he] at hkeep
  · rename_i he
    rwa [he] at hkeep

theorem keeps_ask (question : Graph → Except GraphError α) :
    Keeps (Backward.Has P) (ask question) :=
  keeps_edit (Edit.keeps_ask question)

theorem keeps_updatePartials (u : PartialGradients.Update α) :
    Keeps (Backward.Has P) (updatePartials u) := by
  intro b hb
  unfold updatePartials
  split <;> exact hb

theorem keeps_updateOutputs (u : OutputGradients.Update α) :
    Keeps (Backward.Has P) (updateOutputs u) := by
  intro b hb
  unfold updateOutputs
  split <;> exact hb

theorem keeps_require (test : Except GradientError α) :
    Keeps (Backward.Has P) (require test) := by
  intro b hb
  unfold require
  split <;> exact hb

theorem keeps_inspect (label : String) (gradOp : OpId) (output : Nat) (tensor : TensorId) :
    Keeps (Backward.Has P) (inspect label gradOp output tensor) := by
  refine Keeps.bind (keeps_ask _) fun expected => Keeps.bind (keeps_ask _) fun o => ?_
  split
  · exact Keeps.throw _
  · refine Keeps.bind (keeps_ask _) fun found => ?_
    split
    · exact Keeps.bind (Keeps.throw _) fun _ => Keeps.pure _
    · exact Keeps.pure _

theorem keeps_deliver (label : String) (gradOp : OpId) (output : Nat) (tensor : TensorId) :
    Keeps (Backward.Has P) (deliver label gradOp output tensor) :=
  Keeps.bind (keeps_inspect label gradOp output tensor) fun _ => keeps_updatePartials _

theorem keeps_describe (forward : OpId) : Keeps (Backward.Has P) (describe forward) := by
  refine Keeps.bind (keeps_ask _) fun o => ?_
  split
  · exact Keeps.bind (Keeps.throw _) fun _ => Keeps.bind (keeps_ask _) fun _ =>
      Keeps.bind (keeps_require _) fun _ => Keeps.pure _
  · exact Keeps.bind (keeps_ask _) fun _ => Keeps.bind (keeps_require _) fun _ => Keeps.pure _

theorem keeps_tellProducer (towardLoss : List OpId) (tensor : TensorId) :
    Keeps (Backward.Has P) (tellProducer towardLoss tensor) := by
  refine Keeps.bind (keeps_ask _) fun t => ?_
  split
  · exact Keeps.pure _
  · split
    · exact Keeps.bind (keeps_ask _) fun o => Keeps.forM (fun _ => keeps_updateOutputs _) _
    · exact Keeps.pure _

theorem keeps_strike (towardLoss : List OpId) (tensor : TensorId) :
    Keeps (Backward.Has P) (strike towardLoss tensor) := by
  refine Keeps.bind (keeps_ask _) fun t => ?_
  split
  · exact Keeps.pure _
  · split
    · exact Keeps.bind (keeps_ask _) fun o => Keeps.bind
        (Keeps.mapM (fun _ => keeps_updateOutputs _) _) fun _ => Keeps.pure _
    · exact Keeps.pure _

theorem keeps_giveUpProducer (towardLoss : List OpId) (tensor : TensorId) :
    Keeps (Backward.Has P) (giveUpProducer towardLoss tensor) := by
  refine Keeps.bind (keeps_strike towardLoss tensor) fun struck? => ?_
  split
  · exact Keeps.pure _
  · exact Keeps.forM (fun _ => keeps_updatePartials _) _

end Growth

/-- The three ways in which differentiation changes a graph keep the property:
    the gradient of the loss by itself, a gradient op, a sum of gradients. -/
structure KeptByGrowth (loss : TensorId) (P : Graph → Prop) : Prop where
  addSeed : ∀ type data, Keeps P (Edit.addInitialised (Naming.grad loss) .const type data)
  growGradOp : ∀ options forward label spec phase?,
    Keeps (Backward.Has P) (Growth.growGradOp options forward label spec phase?)
  growSum : ∀ tensor partials, Keeps (Backward.Has P) (Growth.growSum tensor partials)

namespace KeptByGrowth

variable {loss : TensorId} {P : Graph → Prop}

theorem growGradOps (hP : KeptByGrowth loss P) (options : GradientOptions) (forward : OpId) :
    Keeps (Backward.Has P) (Growth.growGradOps options forward) :=
  Keeps.bind (Growth.keeps_describe forward) fun x =>
    Keeps.bind (Keeps.forM (fun _ => hP.growGradOp _ _ _ _ _) x.2) fun _ =>
      Keeps.bind (Growth.keeps_ask _) fun _ => Keeps.forM (fun _ => Growth.keeps_updatePartials _) _

theorem growGradient (hP : KeptByGrowth loss P) (options : GradientOptions) (towardLoss : List OpId)
    (tensor : TensorId) (partials : List TensorId) :
    Keeps (Backward.Has P) (Growth.growGradient options towardLoss tensor partials) := by
  refine Keeps.bind (Growth.keeps_ask _) fun t => ?_
  split
  · exact Growth.keeps_giveUpProducer towardLoss tensor
  · split
    · refine Keeps.bind (hP.growSum tensor partials) fun total => ?_
      split
      · exact Keeps.modify fun b hb => hb
      · exact Keeps.modify fun b hb => hb
      · exact Growth.keeps_tellProducer towardLoss tensor
      · exact Growth.keeps_tellProducer towardLoss tensor
    · exact Keeps.pure _

theorem turns (hP : KeptByGrowth loss P) (options : GradientOptions) (towardLoss : List OpId)
    (r : Growth.Round) : Keeps (Backward.Has P) (Growth.turns options towardLoss r) :=
  Keeps.bind (Keeps.forM (hP.growGradOps options) _) fun _ =>
    Keeps.forM (fun _ => hP.growGradient _ _ _ _) _

theorem propagate (hP : KeptByGrowth loss P) (options : GradientOptions) (towardLoss : List OpId)
    (rounds : Nat) :
    Keeps (Backward.Has P) (Growth.propagate options towardLoss rounds) := by
  induction rounds with
  | zero => exact Keeps.pure _
  | succ rounds ih =>
    refine Keeps.bind (fun _ hb => hb) fun r => ?_
    split
    · exact Keeps.pure _
    · exact Keeps.bind (hP.turns options towardLoss r) fun _ => ih

theorem seed (hP : KeptByGrowth loss P) (type : TensorType) (towardLoss : List OpId) :
    Keeps (Backward.Has P) (Growth.seed loss type towardLoss) :=
  Keeps.bind (Growth.keeps_edit (hP.addSeed _ _)) fun _ =>
    Keeps.bind (Keeps.modify fun _ hb => hb) fun _ => Growth.keeps_tellProducer towardLoss loss

theorem differentiate {options : GradientOptions} (hP : KeptByGrowth options.loss P) :
    Keeps P (Graph.differentiate options) := by
  intro g hg
  unfold Graph.differentiate
  split
  · exact hg
  · rename_i type producer _
    simp only
    generalize g.opsToward producer = towardLoss
    have hgrowth := Keeps.bind (hP.seed type towardLoss) fun _ =>
      hP.propagate options towardLoss
        (towardLoss.length + (Backward.start g options.loss towardLoss).partials.expected.size + 1)
    have hkeep := hgrowth (Backward.start g options.loss towardLoss) hg
    split
    · rename_i h
      rw [h] at hkeep
      exact hkeep
    · rename_i h
      rw [h] at hkeep
      exact hkeep

end KeptByGrowth

namespace KeptByEdits

variable {P : Graph → Prop}

theorem wireGradOp (hP : KeptByEdits P) (options : GradientOptions) (forward : OpId)
    (label : String) (spec : GradSpec Operator) (phase? : Option Int) :
    Keeps (Backward.Has P) (Growth.wireGradOp options forward label spec phase?) := by
  refine Keeps.bind (Growth.keeps_ask _) fun o => Keeps.bind Keeps.get fun b =>
    Keeps.bind (Growth.keeps_require _) fun inputs =>
    Keeps.bind (Growth.keeps_require _) fun targets =>
    Keeps.bind (Growth.keeps_edit (hP.createOp _ _)) fun gradOp =>
    Keeps.bind ?_ fun _ => Keeps.bind ?_ fun _ => Keeps.bind ?_ fun _ => Keeps.pure _
  · exact Keeps.forM (fun _ => Growth.keeps_edit (hP.connectInput _ _ _)) inputs
  · exact Keeps.forM (fun _ => Growth.keeps_edit (hP.createOutput _ _ _)) targets
  · exact Growth.keeps_edit (Edit.keeps_change fun g hg => hP.note g gradOp _ hg)

theorem settleNew (hP : KeptByEdits P) (op : OpId) :
    Keeps (Backward.Has P) (Growth.settleNew op) :=
  Keeps.bind (Growth.keeps_edit (hP.settle op)) fun _ => Keeps.modify fun _ hb => hb

theorem growGradOp (hP : KeptByEdits P) (options : GradientOptions) (forward : OpId)
    (label : String) (spec : GradSpec Operator) (phase? : Option Int) :
    Keeps (Backward.Has P) (Growth.growGradOp options forward label spec phase?) :=
  Keeps.bind (hP.wireGradOp options forward label spec phase?) fun x =>
    Keeps.bind (hP.settleNew x.1) fun _ => Keeps.forM (fun _ => Growth.keeps_deliver _ _ _ _) x.2

theorem wireSum (hP : KeptByEdits P) (tensor : TensorId) (partials : List TensorId) :
    Keeps (Backward.Has P) (Growth.wireSum tensor partials) :=
  Keeps.bind (Growth.keeps_ask _) fun _ => Keeps.bind (Growth.keeps_edit (hP.createOp _ _)) fun _ =>
    Keeps.bind (Keeps.forM (fun _ => Growth.keeps_edit (hP.connectInput _ _ _)) _) fun _ =>
    Keeps.bind (Growth.keeps_edit (hP.createOutput _ _ _)) fun _ => Keeps.pure _

theorem growSum (hP : KeptByEdits P) (tensor : TensorId) (partials : List TensorId) :
    Keeps (Backward.Has P) (Growth.growSum tensor partials) :=
  Keeps.bind (hP.wireSum tensor partials) fun sum => Keeps.bind (hP.settleNew sum) fun _ =>
    Keeps.bind (Keeps.modify fun _ hb => hb) fun _ => Keeps.pure _

theorem keptByGrowth (hP : KeptByEdits P) (loss : TensorId) : KeptByGrowth loss P where
  addSeed _ _ := hP.addInitialised _ _ _ _
  growGradOp := hP.growGradOp
  growSum := hP.growSum

theorem differentiate (hP : KeptByEdits P) (options : GradientOptions) :
    Keeps P (Graph.differentiate options) :=
  (hP.keptByGrowth options.loss).differentiate

end KeptByEdits

end Dataflow
