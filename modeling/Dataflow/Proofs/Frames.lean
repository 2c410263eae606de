import Dataflow.Proofs.Reachability

/-! # What the wiring leaves alone

    Most edits change wires, types and marks, and at most add a tensor.  They
    have no part in which ops there are, how these are ordered, what is
    declared and which number the next op gets (`Graph.SameFrame`).

    A property of that frame is kept by all of these edits at once.  What is
    left to show is what the few edits do that change the frame itself
    (`KeptByFrame`). -/

namespace Dataflow

open Dataflow.Graph

variable {g g' : Graph}

/-! ## Section 1: Frames -/

namespace Graph

/-- The same ops, constraints and declarations.  Tensors may have been added. -/
structure SameFrame (g g' : Graph) : Prop where
  op : ∀ o, (g'.op? o).isSome = (g.op? o).isSome
  tensor : ∀ t, (g.tensor? t).isSome → (g'.tensor? t).isSome
  constraints : g'.constraints = g.constraints
  inputs : g'.inputs = g.inputs
  outputs : g'.outputs = g.outputs
  nextOp : g'.nextOp = g.nextOp

theorem SameParts.frame (h : SameParts g g') : SameFrame g g' where
  op := h.op
  tensor t ht := (h.tensor t).trans ht
  constraints := h.constraints
  inputs := h.inputs
  outputs := h.outputs
  nextOp := h.nextOp

theorem sameFrame_insertTensor (g : Graph) (id : TensorId) (t : Tensor) :
    SameFrame g (g.insertTensor id t) where
  op _ := rfl
  tensor t' ht := by
    rw [tensor?_insertTensor]
    split
    · rfl
    · exact ht
  constraints := rfl
  inputs := rfl
  outputs := rfl
  nextOp := rfl

theorem sameParts_rewindInput (g : Graph) (op : OpId) (index : Nat) (previous? : Option TensorId)
    (tensor : TensorId) : SameParts g (g.rewindInput op index previous? tensor) := by
  have hop := SameParts.modifyOp g op fun o => { o with inputs := o.inputs.set index previous? }
  cases previous? with
  | none => exact hop.trans (sameParts_dropReader ..)
  | some previous => exact (hop.trans (sameParts_dropReader ..)).trans (sameParts_addReader ..)

theorem sameParts_rewindOutput (g : Graph) (op : OpId) (index : Nat)
    (previous? : Option TensorId) (tensor : TensorId) :
    SameParts g (g.rewindOutput op index previous? tensor) := by
  have hop := SameParts.modifyOp g op fun o => { o with outputs := o.outputs.set index previous? }
  cases previous? with
  | none => exact hop.trans (sameParts_setProducer ..)
  | some previous => exact (hop.trans (sameParts_setProducer ..)).trans (sameParts_setProducer ..)

end Graph

/-- The property only depends on the frame. -/
def FrameOnly (P : Graph → Prop) : Prop :=
  ∀ g g' : Graph, SameFrame g g' → P g → P g'

/-! ## Section 2: Edits of the wiring -/

namespace FrameOnly

open Edit

variable {P : Graph → Prop}

theorem change (hP : FrameOnly P) {f : Graph → Graph} (hf : ∀ g, SameFrame g (f g)) :
    Keeps P (Edit.change f) :=
  keeps_change fun g => hP _ _ (hf g)

theorem modifyOp (hP : FrameOnly P) (op : OpId) (f : Op → Op) :
    Keeps P (Edit.change (·.modifyOp op f)) :=
  hP.change fun g => (SameParts.modifyOp g op f).frame

theorem dropReader (hP : FrameOnly P) (tensor : TensorId) (op : OpId) :
    Keeps P (Edit.change (·.dropReader tensor op)) :=
  hP.change fun g => (sameParts_dropReader g tensor op).frame

theorem setProducer (hP : FrameOnly P) (tensor : TensorId) (producer? : Option OpId) :
    Keeps P (Edit.change (·.setProducer tensor producer?)) :=
  hP.change fun g => (sameParts_setProducer g tensor producer?).frame

theorem insertTensor (hP : FrameOnly P) (id : TensorId) (t : Tensor) :
    Keeps P (Edit.change (·.insertTensor id t)) :=
  hP.change fun g => sameFrame_insertTensor g id t

theorem settle (hP : FrameOnly P) (op : OpId) : Keeps P (Edit.settle op) := by
  intro g hg
  cases hrun : Edit.settle op g with
  | ok u g' => exact hP _ _ (retyped_settle (settle_eq_ok.1 hrun)).sameParts.frame hg
  | error e g' =>
    obtain ⟨-, rfl⟩ := settle_eq_error.1 hrun
    exact hg

theorem addStream (hP : FrameOnly P) (id : TensorId) (type : TensorType) :
    Keeps P (Edit.addStream id type) :=
  Keeps.bind (keeps_ask _) fun _ => hP.insertTensor id _

theorem addInitialised (hP : FrameOnly P) (id : TensorId) (kind : TensorKind) (type : TensorType)
    (data : Payload) : Keeps P (Edit.addInitialised id kind type data) :=
  Keeps.bind (keeps_ask _) fun _ => hP.insertTensor id _

theorem configure (hP : FrameOnly P) (op : OpId) (f : OpSettings → OpSettings) :
    Keeps P (Edit.configure op f) :=
  Keeps.bind (keeps_ask _) fun _ => hP.modifyOp op _

theorem connectInput (hP : FrameOnly P) (op : OpId) (index : Nat) (tensor : TensorId) :
    Keeps P (Edit.connectInput op index tensor) := by
  refine Keeps.of_cases (fun g u g' hg h => ?_) fun g e g' hg h => ?_
  · exact hP _ _ (connectInput_sameParts h).frame hg
  · rcases connectInput_eq_error h with rfl | ⟨o, -, -, rfl⟩
    · exact hg
    · exact hP _ _ ((sameParts_wireInput ..).trans (sameParts_rewindInput ..)).frame hg

theorem connectOutput (hP : FrameOnly P) (op : OpId) (index : Nat) (tensor : TensorId) :
    Keeps P (Edit.connectOutput op index tensor) := by
  refine Keeps.of_cases (fun g u g' hg h => ?_) fun g e g' hg h => ?_
  · obtain ⟨o, x, -, -, -, -, h⟩ := connectOutput_eq_ok h
    have hwire := sameParts_wireOutput g op index (o.outputs.get? index) tensor
    by_cases hs : o.isSettled
    · simp only [hs, if_true] at h
      exact hP _ _ (hwire.trans (retyped_settle h).sameParts).frame hg
    · simp only [hs] at h
      exact hP _ _ (h ▸ hwire).frame hg
  · rcases connectOutput_eq_error h with rfl | ⟨o, -, -, -, rfl⟩
    · exact hg
    · exact hP _ _ ((sameParts_wireOutput ..).trans (sameParts_rewindOutput ..)).frame hg

theorem createOutput (hP : FrameOnly P) (op : OpId) (index : Nat) (tensor : TensorId) :
    Keeps P (Edit.createOutput op index tensor) :=
  Keeps.bind (keeps_ask _) fun _ => Keeps.bind (keeps_ask _) fun _ =>
    Keeps.bind (hP.insertTensor tensor _) fun _ => hP.connectOutput op index tensor

theorem disconnectInput (hP : FrameOnly P) (op : OpId) (index : Nat) :
    Keeps P (Edit.disconnectInput op index) := by
  refine Keeps.bind (keeps_ask _) fun o => ?_
  split
  · exact Keeps.throw _
  · refine Keeps.bind (hP.modifyOp op _) fun _ => Keeps.bind (keeps_ask _) fun t =>
      Keeps.bind (hP.dropReader _ op) fun _ => ?_
    split
    · exact Keeps.pure _
    · exact Keeps.bind (Keeps.throw _) fun _ => Keeps.pure _

theorem disconnectOutput (hP : FrameOnly P) (op : OpId) (index : Nat) :
    Keeps P (Edit.disconnectOutput op index) := by
  refine Keeps.bind (keeps_ask _) fun o => ?_
  split
  · exact Keeps.throw _
  · exact Keeps.bind (hP.modifyOp op _) fun _ => Keeps.bind (keeps_ask _) fun _ =>
      Keeps.bind (hP.setProducer _ _) fun _ => Keeps.pure _

theorem addInput (hP : FrameOnly P)
    (hinputs : ∀ {g : Graph} (inputs : List TensorId), P g → P { g with inputs })
    (id : TensorId) (type : TensorType) : Keeps P (Edit.addInput id type) :=
  Keeps.bind (hP.addStream id type) fun _ => keeps_change fun _ => hinputs _

/-- Replacing a tensor is wiring, up to the declared outputs. -/
theorem replaceTensor (hP : FrameOnly P)
    (houtputs : ∀ {g : Graph} (outputs : List TensorId), P g → P { g with outputs })
    (old new : TensorId) : Keeps P (Edit.replaceTensor old new) :=
  Keeps.bind (keeps_ask _) fun _ => Keeps.bind (keeps_ask _) fun _ =>
    Keeps.bind (keeps_ask _) fun _ =>
      Keeps.bind (Keeps.forM (fun _ => hP.connectInput _ _ new) _) fun _ =>
        keeps_change fun _ => houtputs _

end FrameOnly

/-! ## Section 3: Changes of the frame -/

section Declarations

open Edit

variable {P : Graph → Prop}

theorem keeps_markInput
    (hinputs : ∀ {g : Graph} (inputs : List TensorId), P g → P { g with inputs })
    (id : TensorId) : Keeps P (markInput id) :=
  Keeps.bind (keeps_ask _) fun _ => keeps_change fun _ hg => by
    split
    · exact hg
    · exact hinputs _ hg

theorem keeps_markOutput
    (houtputs : ∀ {g : Graph} (outputs : List TensorId), P g → P { g with outputs })
    (id : TensorId) : Keeps P (markOutput id) :=
  Keeps.bind (keeps_ask _) fun _ => keeps_change fun _ hg => by
    split
    · exact hg
    · exact houtputs _ hg

theorem keeps_removeOutput
    (houtputs : ∀ {g : Graph} (outputs : List TensorId), P g → P { g with outputs })
    (id : TensorId) : Keeps P (removeOutput id) :=
  Keeps.bind (keeps_ask _) fun _ => keeps_change fun _ => houtputs _

end Declarations

/-- What is to be shown of a property of the frame, so that all calls but
    replacements keep it. -/
structure KeptByFrame (P : Graph → Prop) : Prop where
  frame : FrameOnly P
  /-- Constraints may be added. -/
  order : ∀ {g : Graph} {c : Constraints}, (∀ e ∈ g.constraints.toList, e ∈ c.toList) → P g →
    P { g with constraints := c }
  withOp : ∀ {g : Graph} operator settings, P g → P (g.withOp operator settings)
  withoutOp : ∀ {g : Graph} op, P g → P (g.withoutOp op)
  without : ∀ {g : Graph} id, P g → P (Edit.without g id)
  addInput : ∀ id type, Keeps P (Edit.addInput id type)
  markInput : ∀ id, Keeps P (Edit.markInput id)
  markOutput : ∀ id, Keeps P (Edit.markOutput id)
  removeOutput : ∀ id, Keeps P (Edit.removeOutput id)

/-- Adding constraints adds those between two different ops. -/
theorem Constraints.mem_foldl_insert {pairs : List (OpId × OpId)} {c : Constraints} {e : Edge} :
    e ∈ (pairs.foldl (fun c x => c.insert x.1 x.2) c).toList ↔
      e ∈ c.toList ∨ ((e.before, e.after) ∈ pairs ∧ e.before ≠ e.after) := by
  induction pairs generalizing c with
  | nil => simp
  | cons x rest ih =>
    rw [List.foldl_cons, ih, mem_toList_insert, List.mem_cons]
    obtain ⟨before, after⟩ := e
    obtain ⟨u, v⟩ := x
    grind

/-- What freezing does to the graph: the steps of the order become constraints. -/
theorem Planner.freeze_eq_ok {p p' : Planner} {extra : ExtraOrder} {chance : Chance}
    (h : p.freeze g extra chance = (.ok g', p')) :
    ∃ order, p.scheduleGraph g extra true chance = (.ok order, p') ∧
      g' = { g with constraints :=
        (order.zip order.tail).foldl (fun c x => c.insert x.1 x.2) g.constraints } := by
  unfold Planner.freeze at h
  split at h
  · rename_i order q hrun
    cases h
    exact ⟨order, hrun, rfl⟩
  · cases h

namespace KeptByFrame

open Edit

variable {P : Graph → Prop}

theorem removeTensor (hP : KeptByFrame P) (id : TensorId) : Keeps P (Edit.removeTensor id) := by
  have hremove : Keeps P (Edit.change (Edit.without · id)) := keeps_change fun _ => hP.without id
  refine Keeps.bind (keeps_ask _) fun x => ?_
  by_cases hd : x.isDetached
  · simp only [hd]
    exact Keeps.bind hremove fun _ => Keeps.pure _
  · simp only [hd]
    exact Keeps.bind (Keeps.throw _) fun _ => Keeps.bind hremove fun _ => Keeps.pure _

theorem eraseOp (hP : KeptByFrame P) (op : OpId) : Keeps P (Edit.eraseOp op) := by
  have herase : Keeps P (Edit.change (·.withoutOp op)) := keeps_change fun _ => hP.withoutOp op
  rw [Edit.eraseOp_eq]
  refine Keeps.bind (keeps_ask _) fun o => ?_
  by_cases hd : o.isDetached
  · simp only [hd]
    exact Keeps.bind herase fun _ => Keeps.pure _
  · simp only [hd]
    exact Keeps.bind (Keeps.throw _) fun _ => Keeps.bind herase fun _ => Keeps.pure _

theorem orderWriters (hP : KeptByFrame P) : Keeps P Edit.orderWriters := by
  intro g hg
  refine orderWriters_induction (g := g) (P := P) hg fun s writer tensor _ hs => ?_
  exact hP.order (fun e he => mem_constraints_putAhead.2 (.inl he)) hs

theorem keptByOtherCalls (hP : KeptByFrame P) : KeptByOtherCalls P where
  addInitialised := hP.frame.addInitialised
  removeTensor := hP.removeTensor
  createOp operator settings _ := hP.withOp operator settings
  connectInput := hP.frame.connectInput
  createOutput := hP.frame.createOutput
  disconnectInput := hP.frame.disconnectInput
  disconnectOutput := hP.frame.disconnectOutput
  settle := hP.frame.settle
  eraseOp := hP.eraseOp
  note g op _ := hP.frame _ _ (SameParts.modifyOp g op _).frame
  addStream := hP.frame.addStream
  addInput := hP.addInput
  markInput := hP.markInput
  markOutput := hP.markOutput
  removeOutput := hP.removeOutput
  configure := hP.frame.configure
  connectOutput := hP.frame.connectOutput
  addConstraint _ _ := Keeps.bind (keeps_ask _) fun _ => Keeps.bind (keeps_ask _) fun _ =>
    keeps_change fun _ => hP.order fun _ he => Constraints.mem_toList_insert.2 (.inr he)
  orderWriters := hP.orderWriters
  freeze _ _ h hg := by
    obtain ⟨order, -, rfl⟩ := Planner.freeze_eq_ok h
    exact hP.order (fun e he => Constraints.mem_foldl_insert.2 (.inl he)) hg

end KeptByFrame

end Dataflow
