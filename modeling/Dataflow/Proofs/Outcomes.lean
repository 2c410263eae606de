import Dataflow.Proofs.Failures

/-! # How the steps of differentiation end

    A step of differentiation is made of edits, questions and entries in the
    ledgers.  Each lemma takes a set `P` of errors, and asks for every reason
    why the step may fail that the error is in `P`.  What a step leaves in the
    graph is the same whether it fails or not: nothing, or one more op. -/

namespace Dataflow

open Dataflow.Graph

variable {P : GradientError → Prop}

/-! ## Section 1: Ledgers and questions -/

/-- What a ledger does not accept is an internal error. -/
theorem PartialGradients.failsOnly_insert (hP : ∀ reason, P (.internal reason))
    (tensor grad : TensorId) (l : PartialGradients) :
    FailsOnly P (PartialGradients.insert tensor grad) l := by
  intro e l' h
  unfold PartialGradients.insert at h
  split at h
  · cases h
    exact hP _
  · split at h
    · cases h
      exact hP _
    · simp only at h
      split at h
      · cases h
        exact hP _
      · cases h

theorem PartialGradients.failsOnly_waive (hP : ∀ reason, P (.internal reason))
    (tensor : TensorId) (l : PartialGradients) :
    FailsOnly P (PartialGradients.waive tensor) l := by
  intro e l' h
  unfold PartialGradients.waive at h
  split at h
  · cases h
  · cases h
    exact hP _
  · cases h
    exact hP _

theorem OutputGradients.failsOnly_insert (hP : ∀ reason, P (.internal reason)) (op : OpId)
    (o : Op) (index : Nat) (l : OutputGradients) :
    FailsOnly P (OutputGradients.insert op o index) l := by
  intro e l' h
  unfold OutputGradients.insert at h
  split at h
  · cases h
    exact hP _
  · split at h
    · cases h
      exact hP _
    · simp only at h
      split at h
      · cases h
      · cases h

/-- The type of a tensor that is there is known, or there is an internal error. -/
theorem Graph.errsOnly_typeOf {P : GraphError → Prop} {g : Graph} {t : TensorId}
    (hunknown : g.tensor? t = none → P (.unknownTensor t))
    (huntyped : ∀ reason, P (.internal reason)) :
    ErrsOnly P (g.typeOf t) := by
  unfold Graph.typeOf typeIn
  split
  · rename_i hnone
    exact .error (hunknown hnone)
  · split
    · exact .ok _
    · exact .error (huntyped _)

namespace Growth

variable {α β : Type} {b : Backward}

/-- An edit fails with the error of the graph. -/
theorem failsOnly_edit {e : Edit α} (h : FailsOnly (fun err => P (.graph err)) e b.graph) :
    FailsOnly P (edit e) b := by
  intro err b' he
  unfold edit at he
  cases hrun : e b.graph with
  | ok a g =>
    rw [hrun] at he
    cases he
  | error err' g =>
    rw [hrun] at he
    cases he
    exact h err' g hrun

/-- After a question, the rest of a step may rely on the answer. -/
theorem failsOnly_ask_bind {question : Graph → Except GraphError α} {f : α → Growth β}
    (h : ErrsOnly (fun err => P (.graph err)) (question b.graph))
    (hf : ∀ a, question b.graph = .ok a → FailsOnly P (f a) b) :
    FailsOnly P (ask question >>= f) b := by
  refine FailsOnly.bind (failsOnly_edit fun err g herr => h err (Edit.ask_fails herr).1)
    fun a b' hask => ?_
  obtain ⟨ha, rfl⟩ := ask_eq_ok.1 hask
  exact hf a ha

theorem failsOnly_require {test : Except GradientError α} (h : ErrsOnly P test) :
    FailsOnly P (require test) b := by
  intro e b' he
  unfold require at he
  cases test with
  | ok a => cases he
  | error e' =>
    cases he
    exact h e rfl

theorem failsOnly_updatePartials {u : PartialGradients.Update α} (h : FailsOnly P u b.partials) :
    FailsOnly P (updatePartials u) b := by
  intro err b' hrun
  unfold updatePartials at hrun
  split at hrun
  · cases hrun
  · rename_i hu
    cases hrun
    exact h _ _ hu

theorem failsOnly_updateOutputs {u : OutputGradients.Update α} (h : FailsOnly P u b.outputs) :
    FailsOnly P (updateOutputs u) b := by
  intro err b' hrun
  unfold updateOutputs at hrun
  split at hrun
  · cases hrun
  · rename_i hu
    cases hrun
    exact h _ _ hu

/-- **Waivers** one after the other, which the ledger has to accept. -/
theorem failsOnly_waives (hledger : ∀ reason, P (.internal reason)) (xs : List (Nat × TensorId)) :
    FailsOnly P (xs.forM fun x => updatePartials (PartialGradients.waive x.2)) b := by
  refine FailsOnly.forM (I := fun _ => True) (fun x _ b' _ => ?_) (fun _ _ _ _ _ _ _ => trivial)
    trivial
  exact failsOnly_updatePartials (PartialGradients.failsOnly_waive hledger _ _)

/-- A step that leaves the graph as it is fails where it stands. -/
theorem error_of_keeps {E : GradientError → Graph → Prop} {m : Growth α}
    (hkeeps : Keeps (Backward.Has (· = b.graph)) m) (h : FailsOnly (E · b.graph) m b)
    {e : GradientError} {b' : Backward} (hrun : m b = .error e b') : E e b'.graph := by
  have hgraph : b'.graph = b.graph := (hkeeps.ends (s := b) rfl).error e b' hrun
  rw [hgraph]
  exact h e b' hrun

/-! ## Section 2: The turn of an op -/

section Descriptions

variable {label : String} (hP : ∀ reason, P (.invalidGradOp label reason))

include hP

/-- A description that does not fit is an invalid one. -/
theorem errsOnly_checkTargets (o : Op) (name : String) (pairs : List (Nat × Nat))
    (covered : List Nat) : ErrsOnly P (checkTargets label o name pairs covered) := by
  induction pairs generalizing covered with
  | nil => exact .ok _
  | cons x rest ih =>
    unfold checkTargets
    split
    · exact .error (hP _)
    · split
      · exact .error (hP _)
      · exact ih _

theorem errsOnly_checkSpecs (o : Op) (specs : List (GradSpec Operator)) (covered : List Nat) :
    ErrsOnly P (checkSpecs label o specs covered) := by
  induction specs generalizing covered with
  | nil => exact .ok _
  | cons spec rest ih =>
    apply ErrsOnly.bind (errsOnly_checkTargets hP o _ _ covered)
    intro covered' _
    split
    · exact .error (hP _)
    · exact ih _

theorem errsOnly_wiring (o : Op) (spec : GradSpec Operator)
    (gradOf : Std.ExtTreeMap TensorId TensorId) : ErrsOnly P (wiring label o spec gradOf) := by
  refine ErrsOnly.mapM fun w _ => ?_
  split
  · exact .ok _
  · exact .error (hP _)

end Descriptions

/-- **Describing** the gradient ops of an op that is there. -/
theorem failsOnly_describe {forward : OpId} {o : Op} (ho : b.graph.op? forward = some o)
    (hgradient : o.isGradient = true → P (.gradOfGradOp (o.label forward)))
    (hspecs : ErrsOnly (fun e => P (.graph e)) (o.operator.gradSpecs (b.graph.view forward o)))
    (hcheck : ∀ specs, o.operator.gradSpecs (b.graph.view forward o) = .ok specs →
      ErrsOnly P (checkSpecs (o.label forward) o specs [])) :
    FailsOnly P (describe forward) b := by
  unfold describe
  refine failsOnly_ask_bind (fun e he => ?_) fun o' ho' => ?_
  · rw [requireOp_eq_ok.2 ho] at he
    cases he
  cases (requireOp_eq_ok.1 ho').symm.trans ho
  split
  · rename_i h
    exact .throw_bind (hgradient h)
  · refine failsOnly_ask_bind hspecs fun specs hrun => ?_
    exact FailsOnly.bind (failsOnly_require (hcheck specs hrun)) fun _ _ _ => .pure _

/-- **Inspecting** an output that is there. -/
theorem failsOnly_inspect {label : String} {op : OpId} {output : Nat} {tensor grad : TensorId}
    {o : Op} (ho : b.graph.op? op = some o) (hout : o.outputs.get? output = some grad)
    (htensor : ErrsOnly (fun e => P (.graph e)) (b.graph.typeOf tensor))
    (hgrad : ErrsOnly (fun e => P (.graph e)) (b.graph.typeOf grad))
    (hmatch : b.graph.typeOf grad ≠ b.graph.typeOf tensor →
      ∀ reason, P (.invalidGradOp label reason)) :
    FailsOnly P (inspect label op output tensor) b := by
  unfold inspect
  refine failsOnly_ask_bind htensor fun expected hexpected => ?_
  refine failsOnly_ask_bind (fun e he => ?_) fun o' ho' => ?_
  · rw [requireOp_eq_ok.2 ho] at he
    cases he
  cases (requireOp_eq_ok.1 ho').symm.trans ho
  simp only [hout]
  refine failsOnly_ask_bind hgrad fun found hfound => ?_
  split
  · rename_i hne
    refine .throw_bind (hmatch ?_ _)
    rw [hfound, hexpected]
    exact fun heq => hne (Except.ok.inj heq)
  · exact .pure _

/-- **Delivering** outputs one after the other, which the ledger has to accept. -/
theorem failsOnly_delivers (hledger : ∀ reason, P (.internal reason)) {label : String} {op : OpId}
    {targets : List (Nat × Nat × TensorId)}
    (hinspect : ∀ x ∈ targets, ∀ b', b'.graph = b.graph →
      FailsOnly P (inspect label op x.1 x.2.2) b') :
    FailsOnly P (targets.forM fun (output, _, tensor) => deliver label op output tensor) b := by
  refine FailsOnly.forM (I := fun b' => b'.graph = b.graph) (fun x hx b' hb' => ?_)
    (fun x _ b' _ b'' hb' hrun => ?_) rfl
  · show FailsOnly P (deliver label op x.1 x.2.2) b'
    refine FailsOnly.bind (hinspect x hx b' hb') fun grad b'' _ => ?_
    exact failsOnly_updatePartials (PartialGradients.failsOnly_insert hledger _ _ _)
  · obtain ⟨_, _, _, _, _, _, rfl⟩ := deliver_eq_ok hrun
    exact hb'

/-- **One gradient op** is wired, settled and delivered. -/
theorem failsOnly_growGradOp {options : GradientOptions} {forward : OpId} {label : String}
    {spec : GradSpec Operator} {phase? : Option Int}
    (hwire : ∀ e, WiringFails b forward label spec e → P e)
    (hsettle : ∀ o inputs targets s e, Drafted b forward label spec o inputs targets →
      Growing b.graph
        { gradOp options forward phase? spec inputs targets with isSettled := false } s →
      SettlingFails s b.graph.nextOp
        { gradOp options forward phase? spec inputs targets with isSettled := false } e →
      P (.graph e))
    (hdeliver : ∀ o inputs targets b', Drafted b forward label spec o inputs targets →
      Grown b.graph (gradOp options forward phase? spec inputs targets) b'.graph →
      FailsOnly P (targets.forM fun (output, _, tensor) =>
        deliver label b.graph.nextOp output tensor) b') :
    FailsOnly P (growGradOp options forward label spec phase?) b := by
  refine FailsOnly.bind (fun e b' h => hwire e ((ends_wireGradOp ..).error e b' h).1)
    fun y b₁ hrun => ?_
  obtain ⟨op, targets⟩ := y
  obtain ⟨o, inputs, g₁, ho, hinputs, htargets, hgrowing, rfl, rfl⟩ := wireGradOp_eq_ok hrun
  have hdraft : Drafted b forward label spec o inputs targets := ⟨ho, hinputs, htargets⟩
  have hends := ends_settleNew (b := { b with graph := g₁ })
    (E := fun e _ => P e) hgrowing fun e he => hsettle o inputs targets g₁ e hdraft hgrowing he
  refine FailsOnly.bind hends.error fun _ b₂ hrun => ?_
  exact hdeliver o inputs targets b₂ hdraft (hends.ok _ b₂ hrun)

/-! ## Section 3: The turn of a tensor -/

/-- **One sum** is wired and settled. -/
theorem failsOnly_growSum {tensor : TensorId} {partials : List TensorId}
    (hwire : ∀ e, SummingFails b tensor partials e → P e)
    (hsettle : ∀ phase? s e,
      Growing b.graph { sumOp tensor partials phase? with isSettled := false } s →
      SettlingFails s b.graph.nextOp { sumOp tensor partials phase? with isSettled := false } e →
      P (.graph e)) :
    FailsOnly P (growSum tensor partials) b := by
  refine FailsOnly.bind (fun e b' h => hwire e ((ends_wireSum ..).error e b' h).1)
    fun op b₁ hrun => ?_
  obtain ⟨phase?, g₁, -, hgrowing, rfl, rfl⟩ := wireSum_eq_ok hrun
  have hends := ends_settleNew (b := { b with graph := g₁ })
    (E := fun e _ => P e) hgrowing fun e he => hsettle phase? g₁ e hgrowing he
  refine FailsOnly.bind hends.error fun _ b₂ _ => ?_
  exact FailsOnly.bind (.modify _) fun _ _ _ => .pure _

/-- **Telling the producer** of a tensor that is there. -/
theorem failsOnly_tellProducer {towardLoss : List OpId} {tensor : TensorId}
    (hb : b.graph.WellWired)
    (htensor : b.graph.tensor? tensor = none → P (.graph (.unknownTensor tensor)))
    (hledger : ∀ op o index, IsSourceOf b.graph towardLoss tensor op o index →
      FailsOnly P (OutputGradients.insert op o index) b.outputs) :
    FailsOnly P (tellProducer towardLoss tensor) b := by
  refine failsOnly_ask_bind (fun e he => ?_) fun t ht => ?_
  · obtain ⟨rfl, hnone⟩ := requireTensor_eq_error.1 he
    exact htensor hnone
  cases hp : t.producer? with
  | none => exact .pure _
  | some producer =>
    simp only
    split
    · rename_i hmem
      have hproducer : b.graph.producer? tensor = some producer := by
        simp [producer?, requireTensor_eq_ok.1 ht, hp]
      obtain ⟨o, ho⟩ := hb.producer_exists hproducer
      refine failsOnly_ask_bind (fun e he => ?_) fun o' ho' => ?_
      · rw [requireOp_eq_ok.2 ho] at he
        cases he
      cases (requireOp_eq_ok.1 ho').symm.trans ho
      obtain ⟨index, hindex, hindices⟩ := indices_output hb ho hproducer
      rw [hindices]
      refine FailsOnly.bind ?_ fun _ _ _ => .pure _
      exact failsOnly_updateOutputs (hledger producer o index
        ⟨List.contains_iff_mem.1 hmem, ho, hindex⟩)
    · exact .pure _

/-- **Striking off** a tensor that is there. -/
theorem failsOnly_strike {towardLoss : List OpId} {tensor : TensorId} (hb : b.graph.WellWired)
    (htensor : b.graph.tensor? tensor = none → P (.graph (.unknownTensor tensor))) :
    FailsOnly P (strike towardLoss tensor) b := by
  refine failsOnly_ask_bind (fun e he => ?_) fun t ht => ?_
  · obtain ⟨rfl, hnone⟩ := requireTensor_eq_error.1 he
    exact htensor hnone
  cases hp : t.producer? with
  | none => exact .pure _
  | some producer =>
    simp only
    split
    · have hproducer : b.graph.producer? tensor = some producer := by
        simp [producer?, requireTensor_eq_ok.1 ht, hp]
      obtain ⟨o, ho⟩ := hb.producer_exists hproducer
      refine failsOnly_ask_bind (fun e he => ?_) fun o' _ => ?_
      · rw [requireOp_eq_ok.2 ho] at he
        cases he
      exact FailsOnly.bind (.mapM (fun _ _ _ _ h => by cases h) _) fun _ _ _ => .pure _
    · exact .pure _

/-- **Giving up the producer** of a tensor that is there. -/
theorem failsOnly_giveUpProducer {towardLoss : List OpId} {tensor : TensorId}
    (hb : b.graph.WellWired)
    (htensor : b.graph.tensor? tensor = none → P (.graph (.unknownTensor tensor)))
    (hledger : ∀ reason, P (.internal reason)) :
    FailsOnly P (giveUpProducer towardLoss tensor) b := by
  refine FailsOnly.bind (failsOnly_strike hb htensor) fun result b' _ => ?_
  cases result with
  | none => exact .pure _
  | some x => exact failsOnly_waives hledger _

/-- **What becomes of a tensor** that is there, once it is complete. -/
theorem failsOnly_growGradient {options : GradientOptions} {towardLoss : List OpId}
    {tensor : TensorId} {partials : List TensorId}
    (htensor : b.graph.tensor? tensor = none → P (.graph (.unknownTensor tensor)))
    (hgive : partials = [] → FailsOnly P (giveUpProducer towardLoss tensor) b)
    (hsum : ∀ t, b.graph.tensor? tensor = some t → isWanted options t.kind tensor →
      partials ≠ [] → FailsOnly P (growSum tensor partials) b)
    (htell : ∀ total b₁, growSum tensor partials b = .ok total b₁ →
      FailsOnly P (tellProducer towardLoss tensor) b₁) :
    FailsOnly P (growGradient options towardLoss tensor partials) b := by
  refine failsOnly_ask_bind (fun e he => ?_) fun t ht => ?_
  · obtain ⟨rfl, hnone⟩ := requireTensor_eq_error.1 he
    exact htensor hnone
  split
  · rename_i hempty
    exact hgive (List.isEmpty_iff.1 hempty)
  · rename_i hempty
    split
    · rename_i hwanted
      refine FailsOnly.bind (hsum t (requireTensor_eq_ok.1 ht) hwanted
        fun hnil => hempty (List.isEmpty_iff.2 hnil)) fun total b₁ hrun => ?_
      cases t.kind with
      | var => exact .modify _
      | stream => exact .modify _
      | const => exact htell total b₁ hrun
      | computed => exact htell total b₁ hrun
    · exact .pure _

/-- **What becomes of a tensor**, seen from the graph: it has got its gradient,
    if it is wanted, or nothing has happened. -/
theorem sprouting_growGradient (options : GradientOptions) (towardLoss : List OpId)
    (tensor : TensorId) (partials : List TensorId) (b : Backward) :
    Sprouting (fun x => x = Naming.grad tensor ∧
        ∃ t, b.graph.tensor? tensor = some t ∧ isWanted options t.kind tensor) b.graph
      (stateOf (growGradient options towardLoss tensor partials b)).graph := by
  generalize hnames : (fun x => x = Naming.grad tensor ∧
    ∃ t, b.graph.tensor? tensor = some t ∧ isWanted options t.kind tensor) = names
  have hends : Ends (fun _ b' => Sprouting names b.graph b'.graph)
      (growGradient options towardLoss tensor partials) b
      fun _ b' => Sprouting names b.graph b'.graph := by
    refine (ends_ask fun _ _ => .inl rfl).bind fun t b₁ ⟨hb₁, ht⟩ => ?_
    subst hb₁
    split
    · exact (keeps_giveUpProducer _ _).ends (P := Backward.Has (Sprouting names b₁.graph))
        (.inl rfl)
    · split
      · rename_i hwanted
        have hsum := sprouting_growSum tensor partials b₁
        have hmono : ∀ s, Sprouting (· = Naming.grad tensor) b₁.graph s →
            Sprouting names b₁.graph s := by
          intro s hs
          refine hs.mono fun x hx => ?_
          rw [← hnames]
          exact ⟨hx, t, requireTensor_eq_ok.1 ht, hwanted⟩
        refine Ends.bind (Q := fun _ b' => Sprouting names b₁.graph b'.graph)
          ⟨fun total b' hrun => ?_, fun e b' hrun => ?_⟩ fun total b₂ hb₂ => ?_
        · rw [hrun] at hsum
          exact hmono _ hsum
        · rw [hrun] at hsum
          exact hmono _ hsum
        · cases t.kind with
          | var => exact ⟨fun _ b' hrun => modify_eq_ok.1 hrun ▸ hb₂, nofun⟩
          | stream => exact ⟨fun _ b' hrun => modify_eq_ok.1 hrun ▸ hb₂, nofun⟩
          | const =>
            exact (keeps_tellProducer _ _).ends (P := Backward.Has (Sprouting names b₁.graph)) hb₂
          | computed =>
            exact (keeps_tellProducer _ _).ends (P := Backward.Has (Sprouting names b₁.graph)) hb₂
      · exact .pure (.inl rfl)
  exact hends.stateOf

/-! ## Section 4: The seed -/

/-- The gradient of a loss by itself fits, since the loss has one element. -/
theorem fits_one_of_count {type : TensorType} (h : type.count = 1) :
    (Payload.one type.element).fits type = true := by
  rw [Payload.fits, TensorType.bytes, h, ← TensorType.count_scalar type.element]
  exact Payload.fits_one type.element

/-- **The seed** needs a new name and a payload that fits. -/
theorem failsOnly_seed {loss : TensorId} {type : TensorType} {towardLoss : List OpId}
    (hname : (b.graph.tensor? (Naming.grad loss)).isSome →
      P (.graph (.duplicateTensor (Naming.grad loss))))
    (hfits : (Payload.one type.element).fits type = false → ∀ expected found,
      P (.graph (.dataSize (Naming.grad loss) type expected found)))
    (htell : ∀ g, Edit.addInitialised (Naming.grad loss) .const type (Payload.one type.element)
      b.graph = .ok () g → FailsOnly P (tellProducer towardLoss loss)
        { b with graph := g, gradOf := b.gradOf.insert loss (Naming.grad loss) }) :
    FailsOnly P (seed loss type towardLoss) b := by
  refine FailsOnly.bind (failsOnly_edit ?_) fun _ b₁ hrun => ?_
  · refine FailsOnly.bind (fun e g' he => ?_) fun _ _ _ => .of_ok rfl
    have he := (Edit.ask_fails he).1
    split at he
    · rename_i htaken
      cases he
      exact hname (by rwa [contains_tensors] at htaken)
    · split at he
      · rename_i hmisfit
        cases he
        exact hfits (by simpa using hmisfit) _ _
      · cases he
  · obtain ⟨g, hg, rfl⟩ := edit_eq_ok.1 hrun
    refine FailsOnly.bind (.modify _) fun _ b₂ hnote => ?_
    have hb₂ := modify_eq_ok.1 hnote
    subst hb₂
    exact htell g hg

/-- **The seed**, seen from the graph: the gradient of the loss is there, or
    nothing has happened. -/
theorem graph_seed (loss : TensorId) (type : TensorType) (towardLoss : List OpId) (b : Backward) :
    (stateOf (seed loss type towardLoss b)).graph = b.graph ∨
      Edit.addInitialised (Naming.grad loss) .const type (Payload.one type.element) b.graph
        = .ok () (stateOf (seed loss type towardLoss b)).graph := by
  let P : Graph → Prop := fun s => s = b.graph ∨
    Edit.addInitialised (Naming.grad loss) .const type (Payload.one type.element) b.graph = .ok () s
  have hends : Ends (fun _ b' => P b'.graph) (seed loss type towardLoss) b
      fun _ b' => P b'.graph := by
    refine Ends.bind (Q := fun _ b' => P b'.graph)
      (ends_edit (fun _ s h => .inr h) fun e s h => ?_) fun _ b₁ h₁ => ?_
    · rcases bind_eq_error.1 h with hask | ⟨_, _, -, hchange⟩
      · exact .inl (Edit.ask_fails hask).2
      · cases hchange
    · have hrest : Keeps (Backward.Has P) (do
          noteGrad loss (Naming.grad loss)
          tellProducer towardLoss loss) :=
        Keeps.bind (Keeps.modify fun _ hb => hb) fun _ => keeps_tellProducer _ _
      exact hrest.ends h₁
  exact hends.stateOf

end Growth

/-! ## Section 5: The loss -/

namespace Graph

/-- Why `loss` cannot be differentiated. -/
inductive LossRefused (g : Graph) (loss : TensorId) : GradientError → Prop where
  | reserved {t : TensorId} (ht : (g.tensor? t).isSome) (hname : Naming.isReserved t) :
      LossRefused g loss (.reservedId t)
  | unknown : LossRefused g loss (.unknownLoss loss)
  | untyped {reason : String} (ht : (g.tensor? loss).isSome) (htype : g.type? loss = none) :
      LossRefused g loss (.internal reason)
  | notScalar {type : TensorType} : LossRefused g loss (.lossNotScalar loss type)
  | unproduced : LossRefused g loss (.lossWithoutProducer loss)

theorem errsOnly_lossProducer (g : Graph) (loss : TensorId) :
    ErrsOnly (g.LossRefused loss) (g.lossProducer loss) := by
  intro e h
  unfold lossProducer at h
  cases hfind : g.tensorIds.find? Naming.isReserved with
  | some t =>
    simp only [hfind] at h
    cases h
    exact .reserved (mem_tensorIds.1 (List.mem_of_find?_eq_some hfind)) (List.find?_some hfind)
  | none =>
    simp only [hfind] at h
    cases hx : g.tensor? loss with
    | none =>
      simp only [hx] at h
      cases h
      exact .unknown
    | some x =>
      simp only [hx] at h
      split at h
      · rename_i hnone
        cases h
        exact .untyped (by simp [hx]) (by simp [type?, hx, hnone])
      · split at h
        · cases h
          exact .notScalar
        · split at h
          · cases h
            exact .unproduced
          · cases h

end Graph

end Dataflow
