import Dataflow.Proofs.Inference
import Dataflow.Proofs.Passes

/-! # Settled ops have types at all their ports

    An op is settled by a run of inference, which needs a type at every input
    and leaves one at every output.  From then on no edit takes a type away
    from a tensor that is wired: what is wired to a settled op later on is
    followed by another run of inference. -/

namespace Dataflow

namespace Graph

variable {g g' : Graph}

/-! ## Section 1: The invariant -/

/-- Op number `op` has `t` at one of its ports. -/
def Touches (g : Graph) (op : OpId) (t : TensorId) : Prop :=
  ∃ i, g.inputAt op i = some t ∨ g.outputAt op i = some t

/-- Every tensor at a port of a settled op has a type. -/
def Typed (g : Graph) : Prop :=
  ∀ op t, g.isSettled op → g.Touches op t → (g.type? t).isSome

/-- The wiring is in order, and there are types where they belong. -/
structure WellTyped (g : Graph) : Prop where
  wellWired : g.WellWired
  typed : g.Typed

theorem tensor_of_type {t : TensorId} (h : (g.type? t).isSome) : (g.tensor? t).isSome := by
  unfold type? at h
  cases hx : g.tensor? t with
  | none => simp [hx] at h
  | some x => rfl

theorem isSettled_congr {op : OpId} (h : g'.op? op = g.op? op) :
    g'.isSettled op = g.isSettled op := by
  unfold isSettled
  rw [h]

theorem touches_congr {op : OpId} {t : TensorId} (h : g'.op? op = g.op? op) :
    g'.Touches op t ↔ g.Touches op t := by
  unfold Touches inputAt outputAt
  rw [h]

/-- Wires may go and types may come. -/
theorem Typed.transfer (h : g.Typed)
    (hports : ∀ op t, g'.isSettled op → g'.Touches op t → g.isSettled op ∧ g.Touches op t)
    (htypes : ∀ op t, g.Touches op t → (g.type? t).isSome → (g'.type? t).isSome) : g'.Typed := by
  intro op t hs ht
  obtain ⟨hs, ht⟩ := hports op t hs ht
  exact htypes op t ht (h op t hs ht)

/-- A change of tensors only. -/
theorem Typed.of_ops (h : g.Typed) (hops : g'.ops = g.ops)
    (htypes : ∀ op t, g.Touches op t → (g.type? t).isSome → (g'.type? t).isSome) : g'.Typed := by
  have hop : ∀ op, g'.op? op = g.op? op := fun op => by rw [op?, op?, hops]
  refine h.transfer (fun op t hs ht => ?_) htypes
  exact ⟨isSettled_congr (hop op) ▸ hs, (touches_congr (hop op)).1 ht⟩

/-- A change of neither ops nor tensors. -/
theorem Typed.of_parts (h : g.Typed) (hops : g'.ops = g.ops) (htensors : g'.tensors = g.tensors) :
    g'.Typed := by
  refine h.of_ops hops fun op t _ htype => ?_
  unfold type? tensor? at *
  rwa [htensors]

/-- A change of one op that adds neither wires nor marks. -/
theorem Typed.modifyOp (h : g.Typed) (op : OpId) {f : Op → Op}
    (hsettled : ∀ o, (f o).isSettled = o.isSettled)
    (hinputs : ∀ o i t, (f o).inputs.get? i = some t → o.inputs.get? i = some t)
    (houtputs : ∀ o i t, (f o).outputs.get? i = some t → o.outputs.get? i = some t) :
    (g.modifyOp op f).Typed := by
  refine h.transfer (fun p t hs ht => ?_) fun _ _ _ htype => htype
  by_cases hp : p = op
  · subst hp
    obtain ⟨o', ho', hs⟩ := isSettled_iff.1 hs
    rw [op?_modifyOp, if_pos rfl] at ho'
    obtain ⟨o, ho, rfl⟩ := Option.map_eq_some_iff.1 ho'
    refine ⟨isSettled_iff.2 ⟨o, ho, hsettled o ▸ hs⟩, ?_⟩
    obtain ⟨i, ht⟩ := ht
    rw [inputAt_modifyOp, outputAt_modifyOp, if_pos rfl, if_pos rfl, ho] at ht
    rcases ht with ht | ht
    · exact ⟨i, .inl (by rw [inputAt_eq ho]; exact hinputs o i t ht)⟩
    · exact ⟨i, .inr (by rw [outputAt_eq ho]; exact houtputs o i t ht)⟩
  · have hop : (g.modifyOp op f).op? p = g.op? p := by rw [op?_modifyOp, if_neg hp]
    exact ⟨isSettled_congr hop ▸ hs, (touches_congr hop).1 ht⟩

/-- A tensor under a new name. -/
theorem Typed.insertTensor (h : g.Typed) {id : TensorId} (hid : g.tensor? id = none) (x : Tensor) :
    (g.insertTensor id x).Typed := by
  refine h.of_ops rfl fun op t _ htype => ?_
  have hne : t ≠ id := by
    rintro rfl
    have hsome := tensor_of_type htype
    rw [hid] at hsome
    cases hsome
  unfold type?
  rwa [tensor?_insertTensor, if_neg hne]

/-! ## Section 2: Settling -/

/-- Settling takes no type away. -/
theorem Settles.type_isSome {op : OpId} {affected : List OpId} (h : Settles g op affected g')
    {t : TensorId} (ht : (g.type? t).isSome) : (g'.type? t).isSome := by
  by_cases hout : ∃ i, g.outputAt op i = some t
  · obtain ⟨i, hi⟩ := hout
    obtain ⟨types, -, hstored⟩ := h.inferred
    obtain ⟨type, -, htype⟩ := hstored i t hi
    rw [htype]
    rfl
  · rw [h.unwritten t fun i hi => hout ⟨i, hi⟩]
    exact ht

theorem Retyped.touches (h : Retyped g g') {op : OpId} {t : TensorId} :
    g'.Touches op t ↔ g.Touches op t := by
  unfold Touches
  simp only [h.inputAt, h.outputAt]

/-- **Settling one op** gives it types all around. -/
theorem WellWired.typed_settleOne (hg : g.WellWired) {op : OpId} {affected : List OpId}
    (h : ∀ p t, p ≠ op → g.isSettled p → g.Touches p t → (g.type? t).isSome)
    (hrun : g.settleOne op = .ok (affected, g')) : g'.Typed := by
  have hone := hg.settles hrun
  intro p t hs ht
  rw [hone.retyped.touches] at ht
  by_cases hp : p = op
  · subst hp
    obtain ⟨types, hinfer, hstored⟩ := hone.inferred
    obtain ⟨o, ho, htypes, -⟩ := inferOp_none_eq_ok.1 hinfer
    obtain ⟨i, hin | hout⟩ := ht
    · rw [inputAt_eq ho] at hin
      exact hone.type_isSome (htypes i t hin)
    · obtain ⟨type, -, htype⟩ := hstored i t hout
      rw [htype]
      rfl
  · exact hone.type_isSome (h p t hp (hone.isSettled hp ▸ hs) ht)

theorem WellTyped.settleAll {rounds : Nat} {waiting : List OpId} {visited : Std.ExtTreeSet OpId}
    (h : g.WellTyped) (hrun : settleAll rounds waiting visited g = .ok g') : g'.WellTyped := by
  induction rounds generalizing waiting visited g with
  | zero =>
    cases hrun
    exact h
  | succ rounds ih =>
    simp only [Graph.settleAll] at hrun
    split at hrun
    · cases hrun
      exact h
    · obtain ⟨⟨affected, g₁⟩, hone, hrest⟩ := except_bind_eq_ok.1 hrun
      refine ih ⟨h.wellWired.of_retyped (retyped_settleOne hone), ?_⟩ hrest
      exact h.wellWired.typed_settleOne (fun p t _ => h.typed p t) hone

/-- **Settling** an op, whatever has been wired to it before. -/
theorem WellWired.wellTyped_settle (hg : g.WellWired) {op : OpId}
    (h : ∀ p t, p ≠ op → g.isSettled p → g.Touches p t → (g.type? t).isSome)
    (hrun : g.settle op = .ok g') : g'.WellTyped := by
  have hwaiting : [op].dropWhile (∅ : Std.ExtTreeSet OpId).contains = [op] := by simp
  unfold Graph.settle at hrun
  simp only [Graph.settleAll, hwaiting] at hrun
  obtain ⟨⟨affected, g₁⟩, hone, hrest⟩ := except_bind_eq_ok.1 hrun
  exact WellTyped.settleAll
    ⟨hg.of_retyped (retyped_settleOne hone), hg.typed_settleOne h hone⟩ hrest

/-- A change of the wiring of one op, which is settled anew if it was settled. -/
theorem WellWired.wellTyped_rewire {wired : Graph} (hw : wired.WellWired) (h : g.Typed)
    {op : OpId} {o : Op} (ho : g.op? op = some o)
    (hmark : ∀ p, wired.isSettled p = g.isSettled p)
    (hports : ∀ p t, p ≠ op → wired.Touches p t → g.Touches p t)
    (htypes : ∀ t, wired.type? t = g.type? t)
    (hrun : if o.isSettled then wired.settle op = .ok g' else g' = wired) : g'.WellTyped := by
  have hother : ∀ p t, p ≠ op → wired.isSettled p → wired.Touches p t →
      (wired.type? t).isSome := by
    intro p t hp hs ht
    rw [htypes]
    exact h p t (hmark p ▸ hs) (hports p t hp ht)
  split at hrun
  · exact hw.wellTyped_settle hother hrun
  · rename_i hs
    subst hrun
    refine ⟨hw, fun p t hsettled ht => ?_⟩
    by_cases hp : p = op
    · subst hp
      obtain ⟨o', ho', hs'⟩ := isSettled_iff.1 (hmark p ▸ hsettled)
      rw [ho] at ho'
      cases ho'
      exact absurd hs' hs
    · exact hother p t hp hsettled ht

end Graph

open Dataflow.Graph

/-! ## Section 3: Edits -/

/-- Wiring and types can be looked at apart. -/
theorem Keeps.wellTyped {ε α : Type} {m : EStateM ε Graph α} (hwired : Keeps WellWired m)
    (htyped : Keeps Typed m) : Keeps WellTyped m :=
  fun g hg => ⟨hwired g hg.wellWired, htyped g hg.typed⟩

namespace Edit

theorem settle_wellTyped (op : OpId) : Keeps WellTyped (settle op) :=
  Keeps.of_cases (fun _ _ _ hg h =>
      hg.wellWired.wellTyped_settle (fun p t _ => hg.typed p t) (settle_eq_ok.1 h))
    fun _ _ _ hg h => (settle_eq_error.1 h).2 ▸ hg

theorem addStream_wellTyped (id : TensorId) (type : TensorType) :
    Keeps WellTyped (addStream id type) := by
  refine (addStream_wellWired id type).wellTyped (keeps_ask_bind fun _ g hg hnew => ?_)
  refine hg.insertTensor ?_ _
  split at hnew
  · cases hnew
  · split at hnew
    · cases hnew
    · rename_i hc
      simpa [contains_tensors] using hc

/-- Declarations that follow an edit. -/
theorem typed_declare {m : Edit Unit} (hm : Keeps WellTyped m) {f : Graph → Graph}
    (hops : ∀ g, (f g).ops = g.ops) (htensors : ∀ g, (f g).tensors = g.tensors) {g : Graph}
    (hg : g.WellTyped) : (stateOf ((m >>= fun _ => change f) g)).Typed := by
  have hkeep := hm g hg
  simp only [bind, EStateM.bind]
  split
  · rename_i h
    rw [h] at hkeep
    exact hkeep.typed.of_parts (hops _) (htensors _)
  · rename_i h
    rw [h] at hkeep
    exact hkeep.typed

theorem addInput_wellTyped (id : TensorId) (type : TensorType) :
    Keeps WellTyped (addInput id type) := fun g hg =>
  ⟨addInput_wellWired id type g hg.wellWired,
    typed_declare (f := fun g => { g with inputs := g.inputs ++ [id] })
      (addStream_wellTyped id type) (fun _ => rfl) (fun _ => rfl) hg⟩

theorem addInitialised_wellTyped (id : TensorId) (kind : TensorKind) (type : TensorType)
    (data : Payload) : Keeps WellTyped (addInitialised id kind type data) := by
  refine (addInitialised_wellWired id kind type data).wellTyped
    (keeps_ask_bind fun _ g hg hnew => ?_)
  refine hg.insertTensor ?_ _
  split at hnew
  · cases hnew
  · rename_i hc
    simpa [contains_tensors] using hc

theorem markInput_wellTyped (id : TensorId) : Keeps WellTyped (markInput id) := by
  refine (markInput_wellWired id).wellTyped
    (Keeps.bind (keeps_ask _) fun _ => keeps_change fun g hg => ?_)
  split
  · exact hg
  · exact hg.of_parts rfl rfl

theorem markOutput_wellTyped (id : TensorId) : Keeps WellTyped (markOutput id) := by
  refine (markOutput_wellWired id).wellTyped
    (Keeps.bind (keeps_ask _) fun _ => keeps_change fun g hg => ?_)
  split
  · exact hg
  · exact hg.of_parts rfl rfl

theorem removeOutput_wellTyped (id : TensorId) : Keeps WellTyped (removeOutput id) :=
  (removeOutput_wellWired id).wellTyped
    (Keeps.bind (keeps_ask _) fun _ => keeps_change fun _ hg => hg.of_parts rfl rfl)

/-- A tensor that can be removed is at no port. -/
theorem removeTensor_wellTyped (id : TensorId) : Keeps WellTyped (removeTensor id) := by
  refine keeps_ask_bind fun x g hg hx => ?_
  have hid := requireTensor_eq_ok.1 hx
  by_cases hd : x.isDetached
  · simp only [hd]
    refine ⟨without_wellWired hg.wellWired hid hd, hg.typed.of_ops rfl fun op t ht htype => ?_⟩
    obtain ⟨hproducer, hreaders⟩ := isDetached_iff.1 hd
    have hne : t ≠ id := by
      rintro rfl
      obtain ⟨i, hin | hout⟩ := ht
      · have hpos : 0 < g.readCount t op := by
          rw [← hg.wellWired.reads]
          exact wireCount_pos.2 ⟨i, hin⟩
        simp [readCount, hid, hreaders] at hpos
      · have hp := (hg.wellWired.produces t op).2 ⟨i, hout⟩
        simp [producer?, hid, hproducer] at hp
    show ((without g id).type? t).isSome
    unfold type?
    rwa [tensor?_without, if_neg hne]
  · simp only [hd]
    exact hg

theorem createOp_wellTyped (operator : Operator) (settings : OpSettings) :
    Keeps WellTyped (createOp operator settings) := by
  refine (createOp_wellWired operator settings).wellTyped fun g hg => ?_
  rw [createOp_run, stateOf_ok]
  refine hg.transfer (fun op t hs ht => ?_) fun _ _ _ htype => htype
  -- a new op is not settled
  have hne : op ≠ g.nextOp := by
    rintro rfl
    obtain ⟨o, ho, hs⟩ := isSettled_iff.1 hs
    rw [op?_withOp, if_pos rfl] at ho
    cases ho
    cases hs
  have hop : (g.withOp operator settings).op? op = g.op? op := by rw [op?_withOp, if_neg hne]
  exact ⟨isSettled_congr hop ▸ hs, (touches_congr hop).1 ht⟩

theorem configure_wellTyped (op : OpId) (f : OpSettings → OpSettings) :
    Keeps WellTyped (configure op f) :=
  (configure_wellWired op f).wellTyped (Keeps.bind (keeps_ask _) fun _ =>
    keeps_change fun _ hg => hg.modifyOp op (fun _ => rfl) (fun _ _ _ hi => hi) fun _ _ _ hi => hi)

theorem eraseOp_wellTyped (op : OpId) : Keeps WellTyped (eraseOp op) := by
  refine (eraseOp_wellWired op).wellTyped ?_
  rw [eraseOp_eq]
  refine keeps_ask_bind fun x g hg _ => ?_
  have hkeep : (g.withoutOp op).Typed := by
    refine hg.transfer (fun p t hs ht => ?_) fun _ _ _ htype => htype
    have hne : p ≠ op := by
      rintro rfl
      obtain ⟨o, ho, -⟩ := isSettled_iff.1 hs
      rw [op?_withoutOp, if_pos rfl] at ho
      cases ho
    have hop : (g.withoutOp op).op? p = g.op? p := by rw [op?_withoutOp, if_neg hne]
    exact ⟨isSettled_congr hop ▸ hs, (touches_congr hop).1 ht⟩
  by_cases hd : x.isDetached
  · simp only [hd]
    exact hkeep
  · simp only [hd]
    exact hg

theorem connectInput_wellTyped (op : OpId) (index : Nat) (tensor : TensorId) :
    Keeps WellTyped (connectInput op index tensor) := by
  refine Keeps.of_cases (fun g u g' hg h => ?_)
    fun g e g' hg h => connectInput_refused hg.wellWired h ▸ hg
  obtain ⟨o, x, ho, hx, h⟩ := connectInput_eq_ok h
  have hw := hg.wellWired.wireInput ho index (by simp [hx] : (g.tensor? tensor).isSome)
  refine hw.wellTyped_rewire hg.typed ho (fun p => ?_) (fun p t hp ht => ?_)
    (fun t => type?_wireInput ..) h
  · by_cases hp : p = op
    · subst hp
      simp [isSettled, ho]
    · exact isSettled_congr (by rw [op?_wireInput, if_neg hp])
  · exact (touches_congr (by rw [op?_wireInput, if_neg hp])).1 ht

theorem connectOutput_wellTyped (op : OpId) (index : Nat) (tensor : TensorId) :
    Keeps WellTyped (connectOutput op index tensor) := by
  refine Keeps.of_cases (fun g u g' hg h => ?_)
    fun g e g' hg h => connectOutput_refused hg.wellWired h ▸ hg
  obtain ⟨o, x, ho, hx, hp, hk, h⟩ := connectOutput_eq_ok h
  have hw := hg.wellWired.wireOutput ho index hx hp hk
  refine hw.wellTyped_rewire hg.typed ho (fun p => ?_) (fun p t hp ht => ?_)
    (fun t => type?_wireOutput ..) h
  · by_cases hp : p = op
    · subst hp
      simp [isSettled, ho]
    · exact isSettled_congr (by rw [op?_wireOutput, if_neg hp])
  · exact (touches_congr (by rw [op?_wireOutput, if_neg hp])).1 ht

theorem createOutput_wellTyped (op : OpId) (index : Nat) (tensor : TensorId) :
    Keeps WellTyped (createOutput op index tensor) := by
  refine keeps_ask_bind fun _ g hg hnew => ?_
  have hid : g.tensor? tensor = none := by
    split at hnew
    · cases hnew
    · rename_i hc
      simpa [contains_tensors] using hc
  cases hop : g.requireOp op with
  | error e =>
    simp only [bind, EStateM.bind, ask, hop]
    exact hg
  | ok o =>
    simp only [bind, EStateM.bind, ask, hop, change]
    exact connectOutput_wellTyped op index tensor _
      ⟨insertTensor_wellWired hg.wellWired hid rfl Readers.count_empty,
        hg.typed.insertTensor hid _⟩

theorem disconnectInput_wellTyped (op : OpId) (index : Nat) :
    Keeps WellTyped (disconnectInput op index) := by
  refine (disconnectInput_wellWired op index).wellTyped (Keeps.bind (keeps_ask _) fun o => ?_)
  split
  · exact Keeps.throw _
  · refine Keeps.bind (keeps_change fun _ hg => hg.modifyOp op (fun _ => rfl)
      (fun o i t hi => ?_) fun _ _ _ hi => hi) fun _ => Keeps.bind (keeps_ask _) fun t =>
        Keeps.bind (keeps_change fun g hg => hg.of_ops rfl fun _ s _ htype => ?_) fun _ => ?_
    · rw [Ports.get?_erase] at hi
      split at hi
      · cases hi
      · exact hi
    · rwa [type?_dropReader]
    · split
      · exact Keeps.pure _
      · exact Keeps.bind (Keeps.throw _) fun _ => Keeps.pure _

theorem disconnectOutput_wellTyped (op : OpId) (index : Nat) :
    Keeps WellTyped (disconnectOutput op index) := by
  refine (disconnectOutput_wellWired op index).wellTyped (Keeps.bind (keeps_ask _) fun o => ?_)
  split
  · exact Keeps.throw _
  · refine Keeps.bind (keeps_change fun _ hg => hg.modifyOp op (fun _ => rfl)
      (fun _ _ _ hi => hi) fun o i t hi => ?_) fun _ => Keeps.bind (keeps_ask _) fun t =>
        Keeps.bind (keeps_change fun g hg => hg.of_ops rfl fun _ s _ htype => ?_) fun _ =>
          Keeps.pure _
    · rw [Ports.get?_erase] at hi
      split at hi
      · cases hi
      · exact hi
    · rwa [type?_setProducer]

theorem replaceTensor_wellTyped (old new : TensorId) : Keeps WellTyped (replaceTensor old new) := by
  have hports : Keeps WellTyped (do
      let _ ← ask (·.requireTensor new)
      let _ ← ask (·.requireTensor old)
      let ports ← ask fun g => .ok (readingPorts old g)
      ports.forM fun port => connectInput port.1 port.2 new) :=
    Keeps.bind (keeps_ask _) fun _ => Keeps.bind (keeps_ask _) fun _ =>
      Keeps.bind (keeps_ask _) fun ports =>
        Keeps.forM (fun _ => connectInput_wellTyped _ _ new) ports
  intro g hg
  refine ⟨replaceTensor_wellWired old new g hg.wellWired, ?_⟩
  have htyped := typed_declare hports (f := fun g =>
    { g with outputs := g.outputs.map fun id => if id = old then new else id }) (fun _ => rfl)
    (fun _ => rfl) hg
  unfold replaceTensor
  simpa only [bind_assoc] using htyped

theorem addConstraint_wellTyped (before after : OpId) :
    Keeps WellTyped (addConstraint before after) :=
  (addConstraint_wellWired before after).wellTyped (Keeps.bind (keeps_ask _) fun _ =>
    Keeps.bind (keeps_ask _) fun _ => keeps_change fun _ hg => hg.of_parts rfl rfl)

theorem orderWriters_wellTyped : Keeps WellTyped orderWriters :=
  orderWriters_wellWired.wellTyped fun _ hg =>
    orderWriters_induction hg fun _ _ _ _ hs => hs.of_parts rfl rfl

end Edit

/-- Every edit leaves types where they belong. -/
theorem keptByEdits_wellTyped : KeptByEdits WellTyped where
  addInitialised := Edit.addInitialised_wellTyped
  removeTensor := Edit.removeTensor_wellTyped
  createOp := Edit.createOp_wellTyped
  connectInput := Edit.connectInput_wellTyped
  createOutput := Edit.createOutput_wellTyped
  disconnectInput := Edit.disconnectInput_wellTyped
  disconnectOutput := Edit.disconnectOutput_wellTyped
  settle := Edit.settle_wellTyped
  eraseOp := Edit.eraseOp_wellTyped
  note g op origin? hg := ⟨keptByEdits_wellWired.note g op origin? hg.wellWired,
    hg.typed.modifyOp op (fun _ => rfl) (fun _ _ _ hi => hi) fun _ _ _ hi => hi⟩

end Dataflow
