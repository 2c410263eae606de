import Dataflow.Proofs.Inference
import Dataflow.Proofs.Ledgers
import Dataflow.Proofs.Passes
import Dataflow.Proofs.Rules

/-! # Settled ops fit their operator

    An op is settled by a run of inference that gives a type to each of its
    outputs, and a settled op takes on an output only if inference still does.
    So a settled op has no output to which its operator does not give a type.

    From this follows when an op is prompt: its gradient ops can be grown as
    soon as its outputs have the gradients they can have. -/

namespace Dataflow

open Dataflow.Graph

/-! ## Section 1: Inference -/

/-- The outputs of the op, if it is settled, are among those to which its
    operator has given a type. -/
def Op.Fits (o : Op) : Prop :=
  o.isSettled → ∃ inputs types, o.operator.infer inputs = .ok types ∧
    ∀ i t, o.outputs.get? i = some t → i < types.length

namespace Graph

variable {g g' : Graph}

/-- All ops fit. -/
def Fitted (g : Graph) : Prop := ∀ op o, g.op? op = some o → o.Fits

/-- **Settling one op** makes it fit, and leaves the others alone. -/
theorem settleOne_fits {op : OpId} {ops : List OpId} (h : g.settleOne op = .ok (ops, g')) :
    (∀ p, p ≠ op → g'.op? p = g.op? p) ∧ ∀ o, g'.op? op = some o → o.Fits := by
  simp only [settleOne] at h
  obtain ⟨types, htypes, h⟩ := except_bind_eq_ok.1 h
  obtain ⟨o, ho, -, hinfer⟩ := inferOp_none_eq_ok.1 htypes
  obtain ⟨o', ho', h⟩ := except_bind_eq_ok.1 h
  rw [requireOp_eq_ok, ho] at ho'
  cases ho'
  split at h
  · cases h
  · rename_i typed htyped
    obtain ⟨⟨affected, g₁⟩, hwrite, h⟩ := except_bind_eq_ok.1 h
    cases h
    have hops : ∀ p, g₁.op? p = g.op? p := fun p => by rw [op?, op?, ops_writeTypes hwrite]
    refine ⟨fun p hp => ?_, fun z hz _ => ?_⟩
    · rw [op?_modifyOp, if_neg hp, hops]
    · rw [op?_modifyOp, if_pos rfl, hops, ho] at hz
      cases hz
      refine ⟨_, types, hinfer, fun i t hi => ?_⟩
      obtain ⟨y, -, -, htype⟩ := forall₂_mem_left (forall₂_outputs htyped) (Ports.mem_toList.2 hi)
      exact (List.getElem?_eq_some_iff.1 htype).1

theorem Fitted.settleOne {op : OpId} {ops : List OpId}
    (h : ∀ p o, p ≠ op → g.op? p = some o → o.Fits)
    (hrun : g.settleOne op = .ok (ops, g')) : g'.Fitted := by
  obtain ⟨hother, hself⟩ := settleOne_fits hrun
  intro p o ho
  by_cases hp : p = op
  · subst hp
    exact hself o ho
  · rw [hother p hp] at ho
    exact h p o hp ho

theorem Fitted.settleAll {rounds : Nat} {waiting : List OpId} {visited : Std.ExtTreeSet OpId}
    (h : g.Fitted) (hrun : settleAll rounds waiting visited g = .ok g') : g'.Fitted := by
  induction rounds generalizing waiting visited g with
  | zero =>
    cases hrun
    exact h
  | succ rounds ih =>
    simp only [Graph.settleAll] at hrun
    split at hrun
    · cases hrun
      exact h
    · obtain ⟨⟨affected, g₁⟩, hone, hrest⟩ := except_bind_eq_ok.1 hrun
      exact ih (Fitted.settleOne (fun p o _ ho => h p o ho) hone) hrest

/-- **Settling** an op makes it fit, whatever was wired to it before. -/
theorem Fitted.settle {op : OpId} (h : ∀ p o, p ≠ op → g.op? p = some o → o.Fits)
    (hrun : g.settle op = .ok g') : g'.Fitted := by
  have hwaiting : [op].dropWhile (∅ : Std.ExtTreeSet OpId).contains = [op] := by simp
  unfold Graph.settle at hrun
  simp only [Graph.settleAll, hwaiting] at hrun
  obtain ⟨⟨affected, g₁⟩, hone, hrest⟩ := except_bind_eq_ok.1 hrun
  exact (Fitted.settleOne h hone).settleAll hrest

/-- A change of one op that leaves it fitting. -/
theorem Fitted.modifyOp (h : g.Fitted) (op : OpId) {f : Op → Op} (hf : ∀ o, o.Fits → (f o).Fits) :
    (g.modifyOp op f).Fitted := by
  intro p o ho
  rw [op?_modifyOp] at ho
  split at ho
  · obtain ⟨o', ho', rfl⟩ := Option.map_eq_some_iff.1 ho
    exact hf o' (h p o' ho')
  · exact h p o ho

/-- A change that leaves all ops alone. -/
theorem Fitted.of_ops (h : g.Fitted) (hops : g'.ops = g.ops) : g'.Fitted := by
  intro op o ho
  rw [op?, hops] at ho
  exact h op o ho

end Graph

/-! ## Section 2: Edits -/

namespace Edit

variable {g g' : Graph}

theorem settle_fitted (op : OpId) : Keeps Fitted (settle op) :=
  Keeps.of_cases (fun _ _ _ hg h => Fitted.settle (fun p o _ ho => hg p o ho) (settle_eq_ok.1 h))
    fun _ _ _ hg h => (settle_eq_error.1 h).2 ▸ hg

theorem addStream_fitted (id : TensorId) (type : TensorType) : Keeps Fitted (addStream id type) :=
  Keeps.bind (keeps_ask _) fun _ => keeps_change fun _ hg => hg.of_ops rfl

theorem addInput_fitted (id : TensorId) (type : TensorType) : Keeps Fitted (addInput id type) :=
  Keeps.bind (addStream_fitted id type) fun _ => keeps_change fun _ hg => hg.of_ops rfl

theorem addInitialised_fitted (id : TensorId) (kind : TensorKind) (type : TensorType)
    (data : Payload) : Keeps Fitted (addInitialised id kind type data) :=
  Keeps.bind (keeps_ask _) fun _ => keeps_change fun _ hg => hg.of_ops rfl

theorem markInput_fitted (id : TensorId) : Keeps Fitted (markInput id) := by
  refine Keeps.bind (keeps_ask _) fun _ => keeps_change fun g hg => ?_
  split
  · exact hg
  · exact hg.of_ops rfl

theorem markOutput_fitted (id : TensorId) : Keeps Fitted (markOutput id) := by
  refine Keeps.bind (keeps_ask _) fun _ => keeps_change fun g hg => ?_
  split
  · exact hg
  · exact hg.of_ops rfl

theorem removeOutput_fitted (id : TensorId) : Keeps Fitted (removeOutput id) :=
  Keeps.bind (keeps_ask _) fun _ => keeps_change fun _ hg => hg.of_ops rfl

theorem removeTensor_fitted (id : TensorId) : Keeps Fitted (removeTensor id) := by
  refine Keeps.bind (keeps_ask _) fun x => ?_
  by_cases hd : x.isDetached
  · simp only [hd]
    exact Keeps.bind (keeps_change fun _ hg => hg.of_ops rfl) fun _ => Keeps.pure _
  · simp only [hd]
    exact Keeps.bind (Keeps.throw _) fun _ => Keeps.bind
      (keeps_change fun _ hg => hg.of_ops rfl) fun _ => Keeps.pure _

theorem createOp_fitted (operator : Operator) (settings : OpSettings) :
    Keeps Fitted (createOp operator settings) := by
  intro g hg op o ho
  rw [createOp_run, stateOf_ok, op?_withOp] at ho
  split at ho
  · cases ho
    -- a new op is not settled
    exact fun hs => nomatch hs
  · exact hg op o ho

theorem configure_fitted (op : OpId) (f : OpSettings → OpSettings) :
    Keeps Fitted (configure op f) :=
  Keeps.bind (keeps_ask _) fun _ => keeps_change fun _ hg => hg.modifyOp op fun _ ho => ho

theorem eraseOp_fitted (op : OpId) : Keeps Fitted (eraseOp op) := by
  rw [eraseOp_eq]
  refine keeps_ask_bind fun x g hg _ => ?_
  have hkeep : (g.withoutOp op).Fitted := by
    intro p o ho
    rw [op?_withoutOp] at ho
    split at ho
    · cases ho
    · exact hg p o ho
  by_cases hd : x.isDetached
  · simp only [hd]
    exact hkeep
  · simp only [hd]
    exact hg

theorem connectInput_fitted (op : OpId) (index : Nat) (tensor : TensorId) :
    Keeps Fitted (connectInput op index tensor) := by
  refine Keeps.of_cases (fun g u g' hg h => ?_) fun g e g' hg h => ?_
  case refine_2 =>
    rcases connectInput_eq_error h with h | ⟨o, ho, -, h⟩
    · exact h ▸ hg
    · exact h ▸ hg.of_ops (ops_rewindInput ho index tensor)
  obtain ⟨o, x, -, -, h⟩ := connectInput_eq_ok h
  have hwire : (g.wireInput op index (o.inputs.get? index) tensor).Fitted := by
    intro p z hz
    rw [op?_wireInput] at hz
    split at hz
    · obtain ⟨z', hz', rfl⟩ := Option.map_eq_some_iff.1 hz
      exact hg p z' hz'
    · exact hg p z hz
  by_cases hs : o.isSettled
  · simp only [hs, if_true] at h
    exact Fitted.settle (fun p z _ hz => hwire p z hz) h
  · simp only [hs] at h
    exact h ▸ hwire

/-- A settled op that takes on an output is settled anew, and so fits again. -/
theorem connectOutput_fitted (op : OpId) (index : Nat) (tensor : TensorId) :
    Keeps Fitted (connectOutput op index tensor) := by
  refine Keeps.of_cases (fun g u g' hg h => ?_) fun g e g' hg h => ?_
  case refine_2 =>
    rcases connectOutput_eq_error h with h | ⟨o, ho, -, -, h⟩
    · exact h ▸ hg
    · exact h ▸ hg.of_ops (ops_rewindOutput ho index tensor)
  obtain ⟨o, x, ho, -, -, -, h⟩ := connectOutput_eq_ok h
  have hother : ∀ p z, p ≠ op →
      (g.wireOutput op index (o.outputs.get? index) tensor).op? p = some z → z.Fits := by
    intro p z hp hz
    rw [op?_wireOutput, if_neg hp] at hz
    exact hg p z hz
  by_cases hs : o.isSettled
  · simp only [hs, if_true] at h
    exact Fitted.settle hother h
  · simp only [hs] at h
    subst h
    intro p z hz
    by_cases hp : p = op
    · subst hp
      rw [op?_wireOutput, if_pos rfl, ho] at hz
      cases hz
      exact fun hs' => absurd hs' hs
    · exact hother p z hp hz

theorem createOutput_fitted (op : OpId) (index : Nat) (tensor : TensorId) :
    Keeps Fitted (createOutput op index tensor) :=
  Keeps.bind (keeps_ask _) fun _ => Keeps.bind (keeps_ask _) fun _ =>
    Keeps.bind (keeps_change fun _ hg => hg.of_ops rfl) fun _ =>
      connectOutput_fitted op index tensor

theorem disconnectInput_fitted (op : OpId) (index : Nat) :
    Keeps Fitted (disconnectInput op index) := by
  refine Keeps.bind (keeps_ask _) fun o => ?_
  split
  · exact Keeps.throw _
  · refine Keeps.bind (keeps_change fun _ hg => hg.modifyOp op fun _ ho => ho) fun _ =>
      Keeps.bind (keeps_ask _) fun t => Keeps.bind (keeps_change fun _ hg => hg.of_ops rfl)
        fun _ => ?_
    split
    · exact Keeps.pure _
    · exact Keeps.bind (Keeps.throw _) fun _ => Keeps.pure _

theorem disconnectOutput_fitted (op : OpId) (index : Nat) :
    Keeps Fitted (disconnectOutput op index) := by
  refine Keeps.bind (keeps_ask _) fun o => ?_
  split
  · exact Keeps.throw _
  · refine Keeps.bind (keeps_change fun _ hg => hg.modifyOp op fun x hx hs => ?_) fun _ =>
      Keeps.bind (keeps_ask _) fun _ => Keeps.bind (keeps_change fun _ hg => hg.of_ops rfl)
        fun _ => Keeps.pure _
    obtain ⟨inputs, types, hinfer, hlt⟩ := hx hs
    refine ⟨inputs, types, hinfer, fun i t hi => ?_⟩
    rw [Ports.get?_erase] at hi
    split at hi
    · cases hi
    · exact hlt i t hi

theorem replaceTensor_fitted (old new : TensorId) : Keeps Fitted (replaceTensor old new) :=
  Keeps.bind (keeps_ask _) fun _ => Keeps.bind (keeps_ask _) fun _ =>
    Keeps.bind (keeps_ask _) fun ports =>
      Keeps.bind (Keeps.forM (fun _ => connectInput_fitted _ _ new) ports) fun _ =>
        keeps_change fun _ hg => hg.of_ops rfl

theorem addConstraint_fitted (before after : OpId) : Keeps Fitted (addConstraint before after) :=
  Keeps.bind (keeps_ask _) fun _ => Keeps.bind (keeps_ask _) fun _ =>
    keeps_change fun _ hg => hg.of_ops rfl

theorem orderWriters_fitted : Keeps Fitted orderWriters := by
  intro g hg
  exact orderWriters_induction hg fun s writer tensor _ hs => hs.of_ops rfl

end Edit

/-- Every edit leaves all ops fitting. -/
theorem keptByEdits_fitted : KeptByEdits Fitted where
  addInitialised := Edit.addInitialised_fitted
  removeTensor := Edit.removeTensor_fitted
  createOp := Edit.createOp_fitted
  connectInput := Edit.connectInput_fitted
  createOutput := Edit.createOutput_fitted
  disconnectInput := Edit.disconnectInput_fitted
  disconnectOutput := Edit.disconnectOutput_fitted
  settle := Edit.settle_fitted
  eraseOp := Edit.eraseOp_fitted
  note _ op _ hg := hg.modifyOp op fun _ ho => ho

/-! ## Section 3: Readiness -/

/-- The operator waits for the gradients of all outputs that are required,
    which is what operators do unless they say otherwise. -/
def Operator.WaitsForAll (f : Operator) : Prop :=
  ∀ available required, f.isReady available required = required.toList.all available.contains

/-- The operator waits for the gradient of output 0, whatever is required.  The
    likelihood does. -/
def Operator.WaitsForFirst (f : Operator) : Prop :=
  ∀ available required, f.isReady available required = available.contains 0

/-- The operator waits for the gradient of output 0, which is the only output
    it can have. -/
def Operator.WaitsForOnly (f : Operator) : Prop :=
  f.WaitsForFirst ∧ ∀ inputs types, f.infer inputs = .ok types → types.length ≤ 1

theorem Builtin.waits (b : Builtin) : b.operator.WaitsForAll ∨ b.operator.WaitsForOnly := by
  cases b with
  | nll =>
    refine .inr ⟨fun _ _ => rfl, fun _ _ h => ?_⟩
    obtain ⟨_, _, -, -, rfl⟩ := Rule.likelihood_eq_ok h
    exact Nat.le_refl 1
  | _ => exact .inl fun _ _ => rfl

/-- **Settled ops are prompt**, whether they wait for all required outputs or
    for the only output they have. -/
theorem Op.Fits.prompt {o : Op} (h : o.Fits) (hs : o.isSettled)
    (hwaits : o.operator.WaitsForAll ∨ o.operator.WaitsForOnly) : o.Prompt := by
  intro available required hsome havailable hrequired
  rcases hwaits with hall | ⟨honly, hinfer⟩
  · rw [hall]
    simp
  · -- every index in play is an output of the op, and so is 0
    obtain ⟨inputs, types, htypes, hlt⟩ := h hs
    have hzero : ∀ i, (o.outputs.get? i).isSome → i = 0 := by
      intro i hi
      obtain ⟨t, ht⟩ := Option.isSome_iff_exists.1 hi
      have hi := hlt i t ht
      have hlength := hinfer inputs types htypes
      omega
    obtain ⟨i, hi⟩ := hsome
    have hmem : (0 : Nat) ∈ available := hzero i (havailable i hi) ▸ hi
    rw [honly]
    constructor
    · intro _ j hj
      rw [hzero j (hrequired j hj)]
      exact hmem
    · intro _
      exact Std.ExtTreeSet.contains_iff_mem.2 hmem

/-- Two copies of the input, whose gradient is that of output `passed`.  It waits
    for the gradient of output 0, as the likelihood does, but has one more. -/
def Operator.split (passed : Nat) : Operator where
  typeName := "Split"
  infer inputs := do
    let type ← Rule.input "Split" inputs 0
    return [type, type]
  gradSpecs _ := .ok [{
    operator := GradBuiltin.identity.operator
    wires := [⟨0, .outputGrad, passed⟩]
    targets := Std.ExtTreeMap.ofList [(0, 0)] }]
  isReady available _ := available.contains 0

theorem Operator.split_waitsForFirst (passed : Nat) : (split passed).WaitsForFirst :=
  fun _ _ => rfl

/-! ## Section 4: The operators of a graph -/

theorem Graph.operator_mem {g : Graph} {fs : List Operator}
    (h : g.ops.toList.map (fun x => x.2.operator) = fs) {op : OpId} {o : Op}
    (ho : g.op? op = some o) : o.operator ∈ fs :=
  h ▸ List.mem_map.2 ⟨(op, o), Std.ExtTreeMap.mem_toList_iff_getElem?_eq_some.2 ho, rfl⟩

theorem Graph.builtin_of_operators {g : Graph} {bs : List Builtin}
    (h : g.ops.toList.map (fun x => x.2.operator) = bs.map Builtin.operator) {op : OpId} {o : Op}
    (ho : g.op? op = some o) : ∃ b : Builtin, o.operator = b.operator := by
  obtain ⟨b, -, hb⟩ := List.mem_map.1 (g.operator_mem h ho)
  exact ⟨b, hb.symm⟩

end Dataflow
