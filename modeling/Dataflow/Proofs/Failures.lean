import Dataflow.Proofs.GradientGrowth
import Dataflow.Proofs.Passes

/-! # One step of growth, and why it fails

    Growth may fail at any point: an operator describes gradient ops that do
    not fit, a name is taken, the types do not match.

    Whether it succeeds or fails, one step leaves the graph as it was or with
    one more op, whose outputs are named after what they are the gradients of
    (`Graph.Sprouting`).  For every step there is a list of the reasons why it
    fails (`Graph.SettlingFails`, `Growth.WiringFails`), and there are no
    others.  What follows from a failure, or what rules it out, is then a
    question about the reasons. -/

namespace Dataflow

open Dataflow.Graph

theorem Naming.isReserved_edgeGrad (tensor : TensorId) (op : OpId) (index : Nat) :
    Naming.isReserved (Naming.edgeGrad tensor op index) := by
  have hname : Naming.edgeGrad tensor op index
      = Naming.grad (tensor ++ "_" ++ s!"{op}" ++ "_" ++ s!"{index}") := by
    simp only [Naming.edgeGrad, Naming.grad, String.append_assoc]
  rw [hname]
  exact Naming.isReserved_grad _

/-! ## Section 1: Why an edit of a new op fails -/

namespace Graph

variable {g : Graph}

theorem requireTensor_eq_error {t : TensorId} {e : GraphError} :
    g.requireTensor t = .error e ↔ e = .unknownTensor t ∧ g.tensor? t = none := by
  unfold requireTensor
  cases g.tensor? t <;> simp [eq_comm]

theorem requireOp_eq_error {op : OpId} {e : GraphError} :
    g.requireOp op = .error e ↔ e = .unknownOp op ∧ g.op? op = none := by
  unfold requireOp
  cases g.op? op <;> simp [eq_comm]

end Graph

namespace Edit

variable {α : Type} {g g' : Graph} {o : Op} {e : GraphError} {op : OpId} {index : Nat}
  {tensor : TensorId} {x : Tensor}

/-- A question fails with the answer of the graph, which stays as it is. -/
theorem ask_fails {question : Graph → Except GraphError α} (h : ask question g = .error e g') :
    question g = .error e ∧ g' = g := by
  unfold ask at h
  cases hq : question g with
  | ok a =>
    rw [hq] at h
    cases h
  | error e' =>
    rw [hq] at h
    cases h
    exact ⟨rfl, rfl⟩

/-- Nothing stands against an input of an op that is not settled, if the tensor
    is there. -/
theorem connectInput_run (ho : g.op? op = some o) (hs : o.isSettled = false)
    (hx : g.tensor? tensor = some x) :
    connectInput op index tensor g
      = .ok () (g.wireInput op index (o.inputs.get? index) tensor) := by
  refine ask_bind_eq_ok.2 ⟨x, requireTensor_eq_ok.2 hx, ?_⟩
  refine ask_bind_eq_ok.2 ⟨o, requireOp_eq_ok.2 ho, ?_⟩
  simp only [hs]
  exact bind_eq_ok.2 ⟨_, _, rewireInput_run .., rfl⟩

/-- Nothing stands against an output of an op that is not settled, if the
    tensor is computed and has no producer. -/
theorem connectOutput_run (ho : g.op? op = some o) (hs : o.isSettled = false)
    (hx : g.tensor? tensor = some x) (hp : x.producer? = none) (hk : x.kind = .computed) :
    connectOutput op index tensor g
      = .ok () (g.wireOutput op index (o.outputs.get? index) tensor) := by
  refine ask_bind_eq_ok.2 ⟨x, requireTensor_eq_ok.2 hx, ?_⟩
  simp only [hp, hk, if_true]
  refine ask_bind_eq_ok.2 ⟨o, requireOp_eq_ok.2 ho, ?_⟩
  simp only [hs]
  exact bind_eq_ok.2 ⟨_, _, rewireOutput_run .., rfl⟩

end Edit

namespace Graph

variable {g s s' : Graph} {o : Op} {e : GraphError} {index : Nat} {tensor : TensorId}

/-- Why op number `op`, which is `o`, cannot be settled. -/
inductive SettlingFails (g : Graph) (op : OpId) (o : Op) : GraphError → Prop where
  | input {i : Nat} {t : TensorId} (hi : o.inputs.get? i = some t) (ht : g.type? t = none) :
      SettlingFails g op o (.uninferredInput (o.label op) t)
  | infer {e : GraphError} (he : o.operator.infer (g.inputTypes o.inputs) = .error e) :
      SettlingFails g op o (nameInference (o.label op) e)
  | outputs {types : List TensorType} {i : Nat} {t : TensorId}
      (htypes : o.operator.infer (g.inputTypes o.inputs) = .ok types)
      (hi : o.outputs.get? i = some t) (hlength : types.length ≤ i) :
      SettlingFails g op o (.outputCount (o.label op) o.outputs.toList.length types.length)

/-- The type of an input that is there is known, or the input is not inferred. -/
theorem errsOnly_inputType {P : GraphError → Prop} {label : String} {t : TensorId}
    (ht : (g.tensor? t).isSome) (h : g.type? t = none → P (.uninferredInput label t)) :
    ErrsOnly P (g.inputType label t) := by
  obtain ⟨x, hx⟩ := Option.isSome_iff_exists.1 ht
  unfold inputType
  rw [requireTensor_eq_ok.2 hx]
  refine ErrsOnly.bind (.ok _) fun x' hx' => ?_
  cases hx'
  cases htype : x.type? with
  | some type => exact .ok _
  | none => exact .error (h (by simp [type?, hx, htype]))

/-- **Inference fails** because an input has no type, or because the operator
    does not accept the types. -/
theorem errsOnly_inferOp {op : OpId} (ho : g.op? op = some o)
    (hinputs : ∀ i t, o.inputs.get? i = some t → (g.tensor? t).isSome) :
    ErrsOnly (SettlingFails g op o) (g.inferOp op none) := by
  unfold inferOp
  rw [requireOp_eq_ok.2 ho]
  refine ErrsOnly.bind (.ok _) fun o' ho' => ?_
  cases ho'
  simp only [Option.toList_none, List.append_nil]
  refine ErrsOnly.bind (ErrsOnly.mapM fun x hx => ?_) fun typed hall e he => ?_
  · have hi := Ports.mem_toList.1 hx
    exact (errsOnly_inputType (hinputs _ _ hi) (.input hi)).bind fun _ _ => .ok _
  · have hsees : (List.range o.inputs.extent).map ((Std.ExtTreeMap.ofList typed)[·]?)
        = g.inputTypes o.inputs := List.map_congr_left fun i _ => getElem?_typed hall i
    obtain ⟨e', he', rfl⟩ := mapError_eq_error.1 he
    rw [hsees] at he'
    exact .infer he'

/-- Types can be written to tensors that are there. -/
theorem errsOnly_writeTypes {P : GraphError → Prop} {types : List (TensorId × TensorType)}
    (h : ∀ x ∈ types, (g.tensor? x.1).isSome) : ErrsOnly P (g.writeTypes types) := by
  induction types generalizing g with
  | nil => exact .ok _
  | cons head rest ih =>
    obtain ⟨id, type⟩ := head
    obtain ⟨x, hx⟩ := Option.isSome_iff_exists.1 (h _ List.mem_cons_self)
    have hrest : ∀ y ∈ rest, (g.tensor? y.1).isSome := fun y hy => h y (List.mem_cons_of_mem _ hy)
    simp only [writeTypes, requireTensor_eq_ok.2 hx]
    refine ErrsOnly.bind (.ok _) fun x' hx' => ?_
    split
    · exact ih hrest
    · -- writing a type removes no tensor
      refine ErrsOnly.bind (ih fun y hy => ?_) fun _ _ => .ok _
      rw [tensor?_modifyTensor]
      split
      · simpa using hrest y hy
      · exact hrest y hy

/-- If there is not a type for each output, one is beyond the types. -/
theorem exists_beyond_types {outputs : List (Nat × TensorId)} {types : List TensorType}
    (h : (outputs.mapM fun (index, id) => (types[index]?).map fun type => (id, type)) = none) :
    ∃ x ∈ outputs, types.length ≤ x.1 := by
  induction outputs with
  | nil => cases h
  | cons head rest ih =>
    by_cases hhead : types.length ≤ head.1
    · exact ⟨head, List.mem_cons_self, hhead⟩
    · have htype : types[head.1]? = some (types[head.1]) :=
        List.getElem?_eq_getElem (Nat.lt_of_not_le hhead)
      simp only [List.mapM_cons, htype, Option.map_some, Option.bind_eq_bind, Option.bind_some,
        Option.bind_eq_none_iff] at h
      obtain ⟨x, hx, hlength⟩ := ih (by
        cases hrest : rest.mapM fun (index, id) => (types[index]?).map fun type => (id, type) with
        | none => rfl
        | some later => exact absurd (h later hrest) (by simp))
      exact ⟨x, List.mem_cons_of_mem _ hx, hlength⟩

namespace Growing

theorem op_new (h : Growing g o s) : s.op? g.nextOp = some o := by rw [h.op, if_pos rfl]

theorem tensor_kept (h : Growing g o s) {t : TensorId} (ht : (g.tensor? t).isSome) :
    (s.tensor? t).isSome := by
  simpa [ht] using congrArg Option.isSome (h.kept t ht)

/-- **An input under construction** is wired, unless the tensor is unknown. -/
theorem connectInput_eq_error (h : Growing g o s)
    (hrun : Edit.connectInput g.nextOp index tensor s = .error e s') :
    s' = s ∧ e = .unknownTensor tensor ∧ s.tensor? tensor = none := by
  cases hx : s.tensor? tensor with
  | some x =>
    rw [Edit.connectInput_run h.op_new h.unsettled hx] at hrun
    cases hrun
  | none =>
    rcases bind_eq_error.1 hrun with hask | ⟨x, s₁, hask, -⟩
    · obtain ⟨he, rfl⟩ := Edit.ask_fails hask
      exact ⟨rfl, (requireTensor_eq_error.1 he).1, rfl⟩
    · rw [requireTensor_eq_ok.1 (Edit.ask_eq_ok.1 hask).1] at hx
      cases hx

/-- **An output under construction** is created, unless the name is taken.  The
    tensor is never left behind without its producer. -/
theorem createOutput_eq_error (h : Growing g o s)
    (hrun : Edit.createOutput g.nextOp index tensor s = .error e s') :
    s' = s ∧ e = .duplicateTensor tensor ∧ (s.tensor? tensor).isSome := by
  rcases bind_eq_error.1 hrun with hask | ⟨_, s₁, hask, hrun⟩
  · obtain ⟨he, rfl⟩ := Edit.ask_fails hask
    split at he
    · rename_i htaken
      cases he
      exact ⟨rfl, rfl, by rwa [contains_tensors] at htaken⟩
    · cases he
  obtain ⟨-, rfl⟩ := Edit.ask_eq_ok.1 hask
  rcases bind_eq_error.1 hrun with hask | ⟨_, s₁, hask, hrun⟩
  · have hnone := (requireOp_eq_error.1 (Edit.ask_fails hask).1).2
    rw [h.op_new] at hnone
    cases hnone
  obtain ⟨-, rfl⟩ := Edit.ask_eq_ok.1 hask
  rcases bind_eq_error.1 hrun with hchange | ⟨_, s₁, hchange, hrun⟩
  · cases hchange
  -- the tensor is there by now, but an op that is not settled takes it without a check
  rw [Edit.change_eq_ok.1 hchange, Edit.connectOutput_run (o := o) (x := { kind := .computed })
    (by rw [op?_insertTensor]; exact h.op_new) h.unsettled (by simp) rfl rfl] at hrun
  cases hrun

/-- **A new op** is settled, unless there is a reason why it cannot be. -/
theorem settle_eq_error (h : Growing g o s) (hrun : s.settle g.nextOp = .error e) :
    SettlingFails s g.nextOp o e := by
  unfold Graph.settle at hrun
  simp only [settleAll] at hrun
  rw [List.dropWhile_cons_of_neg (by simp)] at hrun
  simp only at hrun
  rcases except_bind_eq_error.1 hrun with hone | ⟨⟨affected, s'⟩, hone, hrun⟩
  · have hinputs : ∀ i t, o.inputs.get? i = some t → (s.tensor? t).isSome := fun i t hi =>
      h.tensor_kept (h.inputs_old i t hi)
    simp only [Graph.settleOne] at hone
    rcases except_bind_eq_error.1 hone with hinfer | ⟨types, htypes, hone⟩
    · exact errsOnly_inferOp h.op_new hinputs e hinfer
    rcases except_bind_eq_error.1 hone with hop | ⟨o', ho', hone⟩
    · rw [requireOp_eq_ok.2 h.op_new] at hop
      cases hop
    cases (requireOp_eq_ok.1 ho').symm.trans h.op_new
    obtain ⟨o', ho', -, hinfer⟩ := inferOp_none_eq_ok.1 htypes
    cases ho'.symm.trans h.op_new
    split at hone
    · rename_i hnone
      cases hone
      obtain ⟨⟨i, t⟩, hmem, hlength⟩ := exists_beyond_types hnone
      exact .outputs hinfer (Ports.mem_toList.1 hmem) hlength
    · rename_i typed htyped
      have hthere : ∀ x ∈ typed, (s.tensor? x.1).isSome := by
        intro x hx
        have hmem : x.1 ∈ o.outputs.toList.map Prod.snd := by
          rw [← mapM_outputs htyped]
          exact List.mem_map_of_mem hx
        obtain ⟨⟨i, t⟩, hmem, heq⟩ := List.mem_map.1 hmem
        rw [← heq, (h.made i t (Ports.mem_toList.1 hmem)).2]
        rfl
      exact ((errsOnly_writeTypes hthere).bind fun _ _ => .ok _) e hone
  · obtain ⟨rfl, -⟩ := h.settleOne hone
    simp only [List.append_nil, settleAll_nil] at hrun
    cases hrun

end Growing

/-! ## Section 2: What a step of growth leaves -/

/-- `s` is `g` with one more op, finished or not, which reads tensors of `g`
    and has new tensors as its outputs. -/
structure Sprouted (g : Graph) (o : Op) (s : Graph) : Prop where
  op : ∀ p, s.op? p = if p = g.nextOp then some o else g.op? p
  kept : ∀ t, (g.tensor? t).isSome →
    (s.tensor? t).map Tensor.unread = (g.tensor? t).map Tensor.unread
  made : ∀ i t, o.outputs.get? i = some t → s.producer? t = some g.nextOp
  unmade : ∀ t, g.tensor? t = none → (∀ i, o.outputs.get? i ≠ some t) → s.tensor? t = none
  inputs_old : ∀ i t, o.inputs.get? i = some t → (g.tensor? t).isSome
  nextOp : s.nextOp = g.nextOp + 1
  scope : s.scope = g.scope
  constraints : s.constraints = g.constraints
  inputs : s.inputs = g.inputs
  outputs : s.outputs = g.outputs

theorem Growing.sprouted (h : Growing g o s) : Sprouted g o s :=
  { h with made := fun i t hi => by simp [producer?, (h.made i t hi).2] }

theorem Grown.sprouted (h : Grown g o s) : Sprouted g o s :=
  { h with made := fun _ _ hi => h.producer?_new hi }

/-- A tensor was there or is an output of the new op. -/
theorem Sprouted.old_or_new (h : Sprouted g o s) {t : TensorId} (ht : (s.tensor? t).isSome) :
    (g.tensor? t).isSome ∨ ∃ i, o.outputs.get? i = some t := by
  by_contra hboth
  obtain ⟨hold, hnew⟩ := not_or.1 hboth
  rw [h.unmade t (by simpa using hold) fun i hi => hnew ⟨i, hi⟩] at ht
  cases ht

variable {names names' : TensorId → Prop}

/-- `s` is `g`, or `g` with one more op whose outputs are called by `names`. -/
def Sprouting (names : TensorId → Prop) (g s : Graph) : Prop :=
  s = g ∨ ∃ o, Sprouted g o s ∧ ∀ i t, o.outputs.get? i = some t → names t

theorem Sprouting.mono (h : Sprouting names g s) (hnames : ∀ t, names t → names' t) :
    Sprouting names' g s := by
  rcases h with heq | ⟨o, hs, hout⟩
  · exact .inl heq
  · exact .inr ⟨o, hs, fun i t hi => hnames t (hout i t hi)⟩

/-- What is there afterwards was there before or has got one of the names. -/
theorem Sprouting.old_or_named (h : Sprouting names g s) {t : TensorId}
    (ht : (s.tensor? t).isSome) : (g.tensor? t).isSome ∨ names t := by
  rcases h with rfl | ⟨o, hs, hnames⟩
  · exact .inl ht
  · exact (hs.old_or_new ht).imp_right fun ⟨i, hi⟩ => hnames i t hi

/-- An op under construction that has no outputs yet. -/
def Rooting (g s : Graph) : Prop := ∃ o, Growing g o s ∧ ∀ i, o.outputs.get? i = none

/-- An op under construction whose outputs are called by `names`. -/
def Budding (names : TensorId → Prop) (g s : Graph) : Prop :=
  ∃ o, Growing g o s ∧ ∀ i t, o.outputs.get? i = some t → names t

theorem Rooting.budding (h : Rooting g s) (names : TensorId → Prop) : Budding names g s := by
  obtain ⟨o, hgrowing, hout⟩ := h
  exact ⟨o, hgrowing, fun i t hi => by simp [hout] at hi⟩

theorem Budding.sprouting (h : Budding names g s) : Sprouting names g s := by
  obtain ⟨o, hgrowing, hnames⟩ := h
  exact .inr ⟨o, hgrowing.sprouted, hnames⟩

/-- The name of the partial gradient along an edge into op number `op` that is
    among the `targets`, each of which is an output and an input. -/
def IsTargetName (g : Graph) (op : OpId) (targets : List (Nat × Nat)) (name : TensorId) : Prop :=
  ∃ x ∈ targets, ∃ t, g.inputAt op x.2 = some t ∧ name = Naming.edgeGrad t op x.2

theorem IsTargetName.of_dropLast {op : OpId} {targets : List (Nat × Nat)} {name : TensorId}
    (h : g.IsTargetName op targets.dropLast name) : g.IsTargetName op targets name := by
  obtain ⟨x, hx, hname⟩ := h
  exact ⟨x, List.dropLast_subset _ hx, hname⟩

end Graph

/-! ## Section 3: Why a step of growth fails -/

namespace Growth

variable {α β : Type} {b b' : Backward} {g : Graph} {names : TensorId → Prop}

/-- An edit of the graph ends as the edit by itself does. -/
theorem ends_edit {E : GradientError → Backward → Prop} {Q : α → Backward → Prop} {e : Edit α}
    (hok : ∀ a s, e b.graph = .ok a s → Q a { b with graph := s })
    (herror : ∀ err s, e b.graph = .error err s → E (.graph err) { b with graph := s }) :
    Ends E (edit e) b Q := by
  refine ⟨fun a b' h => ?_, fun err b' h => ?_⟩
  · obtain ⟨s, hs, rfl⟩ := edit_eq_ok.1 h
    exact hok a s hs
  · unfold edit at h
    cases hrun : e b.graph with
    | ok a s =>
      rw [hrun] at h
      cases h
    | error err' s =>
      rw [hrun] at h
      cases h
      exact herror err' s hrun

theorem ends_ask {E : GradientError → Backward → Prop} {question : Graph → Except GraphError α}
    (herror : ∀ err, question b.graph = .error err → E (.graph err) b) :
    Ends E (ask question) b fun a b' => b' = b ∧ question b.graph = .ok a := by
  refine ends_edit (fun a s h => ?_) fun err s h => ?_
  · obtain ⟨ha, rfl⟩ := Edit.ask_eq_ok.1 h
    exact ⟨rfl, ha⟩
  · obtain ⟨he, rfl⟩ := Edit.ask_fails h
    exact herror err he

theorem ends_require {E : GradientError → Backward → Prop} {test : Except GradientError α}
    (herror : ∀ err, test = .error err → E err b) :
    Ends E (require test) b fun a b' => b' = b ∧ test = .ok a := by
  unfold require
  cases test with
  | ok a =>
    refine ⟨fun a' b' h => ?_, fun _ _ h => by cases h⟩
    cases h
    exact ⟨rfl, rfl⟩
  | error e =>
    refine ⟨fun _ _ h => ?_, fun e' b' h => ?_⟩
    · cases h
    · cases h
      exact herror e rfl

/-- **Creating the op** that is to be constructed. -/
theorem ends_createOp {E : GradientError → Backward → Prop} (operator : Operator)
    (settings : OpSettings) : Ends E (edit (Edit.createOp operator settings)) b
      fun n b' => n = b.graph.nextOp ∧ Rooting b.graph b'.graph := by
  refine ends_edit (fun n s h => ?_) fun err s h => ?_
  · rw [Edit.createOp_run] at h
    cases h
    exact ⟨rfl, _, growing_withOp _ _ _, by simp⟩
  · rw [Edit.createOp_run] at h
    cases h

/-- **Wiring the inputs** of an op under construction, all of which have to be
    there. -/
theorem ends_connectInputs {E : GradientError → Backward → Prop} {slotOf : α → Nat}
    {tensorOf : α → TensorId} (xs : List α)
    (hE : ∀ x ∈ xs, g.tensor? (tensorOf x) = none → ∀ b', Rooting g b'.graph →
      E (.graph (.unknownTensor (tensorOf x))) b')
    (h : Rooting g b.graph) :
    Ends E (xs.forM fun x => edit (Edit.connectInput g.nextOp (slotOf x) (tensorOf x))) b
      fun _ b' => Rooting g b'.graph := by
  have hloop := Ends.forM (E := E) (s := b)
    (f := fun x => edit (Edit.connectInput g.nextOp (slotOf x) (tensorOf x)))
    (I := fun ys (b' : Backward) => Rooting g b'.graph ∧ ∀ y ∈ ys, y ∈ xs)
    (fun x rest b' ⟨hb', hys⟩ => ?_) ⟨h, fun _ hx => hx⟩
  · exact hloop.mono fun _ b' hb' => hb'.1
  · obtain ⟨o, hgrowing, hout⟩ := hb'
    refine ends_edit (fun u s hrun => ?_) fun err s hrun => ?_
    · exact ⟨⟨_, hgrowing.connectInput hout hrun, hout⟩,
        fun y hy => hys y (List.mem_cons_of_mem x hy)⟩
    · obtain ⟨rfl, rfl, hnone⟩ := hgrowing.connectInput_eq_error hrun
      refine hE x (hys x List.mem_cons_self) ?_ b' ⟨o, hgrowing, hout⟩
      -- what was in the graph from the start is still there
      rw [← Option.not_isSome_iff_eq_none]
      intro hsome
      simpa [hnone] using hgrowing.tensor_kept hsome

/-- **Creating the outputs** of an op under construction, all of which have to
    be new and different.  If that fails, the last one at least is missing. -/
theorem ends_createOutputs {E : GradientError → Backward → Prop} (indexOf : α → Nat)
    (nameOf : α → TensorId) (xs : List α)
    (hE : ∀ x ∈ xs, (g.tensor? (nameOf x)).isSome ∨ ¬ (xs.map nameOf).Nodup →
      ∀ b', Sprouting (fun t => ∃ x ∈ xs.dropLast, t = nameOf x) g b'.graph →
        E (.graph (.duplicateTensor (nameOf x))) b')
    (hnodup : (xs.map indexOf).Nodup) (h : Rooting g b.graph) :
    Ends E (xs.forM fun x => edit (Edit.createOutput g.nextOp (indexOf x) (nameOf x))) b
      fun _ b' => Budding (fun t => ∃ x ∈ xs, t = nameOf x) g b'.graph := by
  -- the outputs of the op are those of the rounds so far
  have hloop := Ends.forM (E := E) (s := b)
    (f := fun x : α => edit (Edit.createOutput g.nextOp (indexOf x) (nameOf x)))
    (I := fun ys (b' : Backward) => ∃ done o, done ++ ys = xs ∧ Growing g o b'.graph ∧
      ∀ i t, o.outputs.get? i = some t → ∃ x ∈ done, i = indexOf x ∧ t = nameOf x)
    (fun x rest b' hb' => ?_) (by
      obtain ⟨o, hgrowing, hout⟩ := h
      exact ⟨[], o, rfl, hgrowing, fun i t hi => by simp [hout] at hi⟩)
  · refine hloop.mono fun _ b' hb' => ?_
    obtain ⟨done, o, hall, hgrowing, hmade⟩ := hb'
    rw [List.append_nil] at hall
    subst hall
    exact ⟨o, hgrowing, fun i t hi => (hmade i t hi).imp fun x hx => ⟨hx.1, hx.2.2⟩⟩
  · obtain ⟨done, o, rfl, hgrowing, hmade⟩ := hb'
    refine ends_edit (fun u s hrun => ?_) fun err s hrun => ?_
    · have hfree : o.outputs.get? (indexOf x) = none := by
        rw [Option.eq_none_iff_forall_ne_some]
        intro t ht
        obtain ⟨y, hy, hindex, -⟩ := hmade _ t ht
        rw [List.map_append, List.map_cons, List.nodup_append] at hnodup
        exact hnodup.2.2 _ (List.mem_map_of_mem hy) _ List.mem_cons_self hindex.symm
      refine ⟨done ++ [x], _, by simp, hgrowing.createOutput hfree hrun, fun i t hi => ?_⟩
      rw [Ports.get?_insert] at hi
      split at hi
      · rename_i heq
        cases hi
        exact ⟨x, by simp, heq, rfl⟩
      · obtain ⟨y, hy, hboth⟩ := hmade i t hi
        exact ⟨y, List.mem_append_left _ hy, hboth⟩
    · obtain ⟨rfl, rfl, htaken⟩ := hgrowing.createOutput_eq_error hrun
      refine hE x (by simp) ?_ b' (.inr ⟨o, hgrowing.sprouted, fun i t hi => ?_⟩)
      · refine (hgrowing.sprouted.old_or_new htaken).imp_right fun ⟨i, hi⟩ hdistinct => ?_
        obtain ⟨y, hy, -, hname⟩ := hmade i _ hi
        rw [List.map_append, List.map_cons, List.nodup_append] at hdistinct
        exact hdistinct.2.2 _ (List.mem_map_of_mem hy) _ List.mem_cons_self hname.symm
      · obtain ⟨y, hy, -, hname⟩ := hmade i t hi
        refine ⟨y, ?_, hname⟩
        rw [List.dropLast_append_of_ne_nil (List.cons_ne_nil x rest)]
        exact List.mem_append_left _ hy

/-- **Settling an op under construction** finishes it or leaves it as it is. -/
theorem ends_settleNew {E : GradientError → Backward → Prop} {o : Op} (h : Growing g o b.graph)
    (hE : ∀ err, SettlingFails b.graph g.nextOp o err → E (.graph err) b) :
    Ends E (settleNew g.nextOp) b fun _ b' => Grown g { o with isSettled := true } b'.graph := by
  refine Ends.bind (Q := fun _ b' => Grown g { o with isSettled := true } b'.graph)
    (ends_edit (fun u s hrun => ?_) fun err s hrun => ?_) fun _ b' hb' => ?_
  · exact h.settle (Edit.settle_eq_ok.1 hrun)
  · obtain ⟨he, rfl⟩ := Edit.settle_eq_error.1 hrun
    exact hE err (h.settle_eq_error he)
  · refine ⟨fun _ b'' hnote => ?_, fun _ _ h => by cases h⟩
    rw [modify_eq_ok.1 hnote]
    exact hb'

/-- What a gradient op of op number `forward` is going to read and to give. -/
structure Drafted (b : Backward) (forward : OpId) (label : String) (spec : GradSpec Operator)
    (o : Op) (inputs : List (Nat × TensorId)) (targets : List (Nat × Nat × TensorId)) : Prop where
  op : b.graph.op? forward = some o
  inputs : wiring label o spec b.gradOf = .ok inputs
  targets : targetTensors label o spec = .ok targets

/-- Why a gradient op of op number `forward` cannot be wired. -/
inductive WiringFails (b : Backward) (forward : OpId) (label : String)
    (spec : GradSpec Operator) : GradientError → Prop where
  | op (h : b.graph.op? forward = none) :
      WiringFails b forward label spec (.graph (.unknownOp forward))
  | inputs {o : Op} {e : GradientError} (ho : b.graph.op? forward = some o)
      (he : wiring label o spec b.gradOf = .error e) : WiringFails b forward label spec e
  | targets {o : Op} {e : GradientError} (ho : b.graph.op? forward = some o)
      (he : targetTensors label o spec = .error e) : WiringFails b forward label spec e
  | input {o : Op} {inputs : List (Nat × TensorId)} {targets : List (Nat × Nat × TensorId)}
      {x : Nat × TensorId} (h : Drafted b forward label spec o inputs targets) (hx : x ∈ inputs)
      (hnone : b.graph.tensor? x.2 = none) :
      WiringFails b forward label spec (.graph (.unknownTensor x.2))
  | output {o : Op} {inputs : List (Nat × TensorId)} {targets : List (Nat × Nat × TensorId)}
      {x : Nat × Nat × TensorId} (h : Drafted b forward label spec o inputs targets)
      (hx : x ∈ targets)
      (htaken : (b.graph.tensor? (Naming.edgeGrad x.2.2 forward x.2.1)).isSome ∨
        ¬ ((edgeOutputs forward targets).map Prod.snd).Nodup) :
      WiringFails b forward label spec
        (.graph (.duplicateTensor (Naming.edgeGrad x.2.2 forward x.2.1)))

theorem Drafted.isTargetName {forward : OpId} {label : String} {spec : GradSpec Operator} {o : Op}
    {inputs : List (Nat × TensorId)} {targets : List (Nat × Nat × TensorId)}
    (h : Drafted b forward label spec o inputs targets) {x : Nat × Nat × TensorId}
    (hx : x ∈ targets) {pairs : List (Nat × Nat)} (hpair : (x.1, x.2.1) ∈ pairs) :
    b.graph.IsTargetName forward pairs (Naming.edgeGrad x.2.2 forward x.2.1) := by
  obtain ⟨y, -, -, hindex, hread⟩ := forall₂_mem_right (targetTensors_eq_ok h.targets) hx
  refine ⟨(x.1, x.2.1), hpair, x.2.2, ?_, rfl⟩
  rw [inputAt_eq h.op, hindex]
  exact hread

/-- **Wiring a gradient op**, and why it fails.  An op that cannot be wired does
    not have all its outputs. -/
theorem ends_wireGradOp (options : GradientOptions) (forward : OpId) (label : String)
    (spec : GradSpec Operator) (phase? : Option Int) :
    Ends (fun e b' => WiringFails b forward label spec e ∧
        Sprouting (b.graph.IsTargetName forward spec.targets.toList.dropLast) b.graph b'.graph)
      (wireGradOp options forward label spec phase?) b
      fun y b' => y.1 = b.graph.nextOp ∧
        Budding (b.graph.IsTargetName forward spec.targets.toList) b.graph b'.graph := by
  refine (ends_ask fun e he => ?_).bind fun o b₁ ⟨hb₁, ho⟩ => ?_
  · obtain ⟨rfl, hnone⟩ := requireOp_eq_error.1 he
    exact ⟨.op hnone, .inl rfl⟩
  subst hb₁
  have ho := requireOp_eq_ok.1 ho
  refine Ends.bind (Q := fun b₂ b' => b₂ = b₁ ∧ b' = b₁)
    ⟨fun _ b' h => ⟨(get_eq_ok.1 h).1.symm, (get_eq_ok.1 h).2.symm⟩, fun _ _ h => by cases h⟩
    fun b₂ b₃ ⟨hb₂, hb₃⟩ => ?_
  subst hb₂ hb₃
  refine (ends_require fun e he => ⟨.inputs ho he, .inl rfl⟩).bind
    fun inputs b₄ ⟨hb₄, hinputs⟩ => ?_
  subst hb₄
  refine (ends_require fun e he => ⟨.targets ho he, .inl rfl⟩).bind
    fun targets b₅ ⟨hb₅, htargets⟩ => ?_
  subst hb₅
  have hdraft : Drafted b₅ forward label spec o inputs targets := ⟨ho, hinputs, htargets⟩
  have hnames : ∀ t, (∃ x ∈ targets, t = Naming.edgeGrad x.2.2 forward x.2.1) →
      b₅.graph.IsTargetName forward spec.targets.toList t := by
    rintro t ⟨x, hx, rfl⟩
    refine hdraft.isTargetName hx ?_
    rw [← map_targetTensors htargets]
    exact List.mem_map_of_mem (f := fun x => (x.1, x.2.1)) hx
  -- a bare op, its inputs, its outputs, its origin
  refine (ends_createOp _ _).bind fun n b₆ ⟨hn, hb₆⟩ => ?_
  subst hn
  refine (ends_connectInputs inputs (fun x hx hnone b' hb' => ?_) hb₆).bind fun _ b₇ hb₇ => ?_
  · exact ⟨.input hdraft hx hnone, (hb'.budding _).sprouting⟩
  refine (ends_createOutputs (fun x : Nat × Nat × TensorId => x.1) _ targets
    (fun x hx htaken b' hb' => ?_) ?_ hb₇).bind fun _ b₈ hb₈ => ?_
  · refine ⟨.output hdraft hx ?_, hb'.mono ?_⟩
    · rw [edgeOutputs, List.map_map]
      exact htaken
    · rintro t ⟨y, hy, rfl⟩
      refine hdraft.isTargetName (List.dropLast_subset _ hy) ?_
      rw [← map_targetTensors htargets, ← List.map_dropLast]
      exact List.mem_map_of_mem (f := fun x => (x.1, x.2.1)) hy
  · have hnodup := nodup_edgeOutputs htargets forward
    rwa [edgeOutputs, List.map_map] at hnodup
  refine Ends.bind (Q := fun _ b' =>
    Budding (b₅.graph.IsTargetName forward spec.targets.toList) b₅.graph b'.graph)
    (ends_edit (fun _ s h => ?_) fun _ _ h => by cases h) fun _ b₉ hb₉ => .pure ⟨rfl, hb₉⟩
  obtain ⟨o', hgrowing, hmade⟩ := hb₈
  rw [Edit.change_eq_ok.1 h]
  exact ⟨_, hgrowing.note _, fun i t hi => hnames t (hmade i t hi)⟩

/-- **One gradient op**: there is one more op, whose outputs are named after
    edges into the forward op, or nothing has happened. -/
theorem sprouting_growGradOp (options : GradientOptions) (forward : OpId) (label : String)
    (spec : GradSpec Operator) (phase? : Option Int) (b : Backward) :
    Sprouting (b.graph.IsTargetName forward spec.targets.toList) b.graph
      (stateOf (growGradOp options forward label spec phase? b)).graph := by
  let names := b.graph.IsTargetName forward spec.targets.toList
  have hends : Ends (fun _ b' => Sprouting names b.graph b'.graph)
      (growGradOp options forward label spec phase?) b
      fun _ b' => Sprouting names b.graph b'.graph := by
    have hwire := ends_wireGradOp (b := b) options forward label spec phase?
    refine Ends.bind ⟨hwire.ok, fun e b' h => (hwire.error e b' h).2.mono fun _ hx =>
      hx.of_dropLast⟩ fun y b₁ hwired => ?_
    obtain ⟨op, targets⟩ := y
    obtain ⟨hnumber, hb₁⟩ := hwired
    simp only at hnumber
    subst hnumber
    obtain ⟨o, hgrowing, hnames⟩ := hb₁
    refine (ends_settleNew hgrowing fun _ _ => .inr ⟨o, hgrowing.sprouted, hnames⟩).bind
      fun _ b₂ hb₂ => ?_
    have hdeliver : Keeps (Backward.Has (Sprouting names b.graph))
        (targets.forM fun x => deliver label b.graph.nextOp x.1 x.2.2) :=
      Keeps.forM (fun _ => keeps_deliver _ _ _ _) targets
    exact hdeliver.ends (.inr ⟨_, hb₂.sprouted, hnames⟩)
  exact hends.stateOf

/-- Why the op that sums the partial gradients of `tensor` cannot be wired. -/
inductive SummingFails (b : Backward) (tensor : TensorId) (partials : List TensorId) :
    GradientError → Prop where
  | input {x : TensorId} (hx : x ∈ byName partials) (hnone : b.graph.tensor? x = none) :
      SummingFails b tensor partials (.graph (.unknownTensor x))
  | output (htaken : (b.graph.tensor? (Naming.grad tensor)).isSome) :
      SummingFails b tensor partials (.graph (.duplicateTensor (Naming.grad tensor)))

/-- **Wiring a sum**, and why it fails. -/
theorem ends_wireSum (tensor : TensorId) (partials : List TensorId) :
    Ends (fun e b' => SummingFails b tensor partials e ∧
        Sprouting (fun _ => False) b.graph b'.graph)
      (wireSum tensor partials) b
      fun op b' => op = b.graph.nextOp ∧
        Budding (· = Naming.grad tensor) b.graph b'.graph := by
  refine (ends_ask fun _ he => by cases he).bind fun phase? b₁ ⟨hb₁, _⟩ => ?_
  subst hb₁
  refine (ends_createOp _ _).bind fun n b₂ ⟨hn, hb₂⟩ => ?_
  subst hn
  refine (ends_connectInputs _ (fun x hx hnone b' hb' => ?_) hb₂).bind fun _ b₃ hb₃ => ?_
  · have hmem : x.1 ∈ byName partials := List.mem_of_getElem? (List.mem_zipIdx_iff_getElem?.1 hx)
    exact ⟨.input hmem hnone, (hb'.budding _).sprouting⟩
  -- the one output is a loop of one round
  have hout : Ends (fun e b' => SummingFails b₁ tensor partials e ∧
        Sprouting (fun _ => False) b₁.graph b'.graph)
      ([()].forM fun _ => edit (Edit.createOutput b₁.graph.nextOp 0 (Naming.grad tensor))) b₃
      fun _ b' => Budding (fun t => ∃ _ ∈ [()], t = Naming.grad tensor) b₁.graph b'.graph := by
    refine ends_createOutputs (fun _ => 0) (fun _ => Naming.grad tensor) [()]
      (fun _ _ htaken b' hb' => ?_) (by simp) hb₃
    refine ⟨.output (htaken.resolve_right fun hne => hne (by simp)), hb'.mono ?_⟩
    rintro t ⟨x, hx, -⟩
    cases hx
  refine Ends.bind (Q := fun _ b' => Budding (· = Naming.grad tensor) b₁.graph b'.graph) ?_
    fun _ b₄ hb₄ => .pure ⟨rfl, hb₄⟩
  refine ⟨fun u b' h => ?_, fun e b' h => hout.error e b' (bind_eq_error.2 (.inl h))⟩
  obtain ⟨o, hgrowing, hnames⟩ := hout.ok _ b' (forM_cons_eq_ok.2 ⟨u, b', h, rfl⟩)
  exact ⟨o, hgrowing, fun i t hi => (hnames i t hi).elim fun _ hx => hx.2⟩

/-- **One sum**: there is one more op, whose output is the gradient of the
    tensor, or nothing has happened. -/
theorem sprouting_growSum (tensor : TensorId) (partials : List TensorId) (b : Backward) :
    Sprouting (· = Naming.grad tensor) b.graph (stateOf (growSum tensor partials b)).graph := by
  have hends : Ends (fun _ b' => Sprouting (· = Naming.grad tensor) b.graph b'.graph)
      (growSum tensor partials) b
      fun _ b' => Sprouting (· = Naming.grad tensor) b.graph b'.graph := by
    have hwire := ends_wireSum (b := b) tensor partials
    refine Ends.bind ⟨hwire.ok, fun e b' h => (hwire.error e b' h).2.mono fun _ => False.elim⟩
      fun op b₁ ⟨hnumber, hb₁⟩ => ?_
    subst hnumber
    obtain ⟨o, hgrowing, hnames⟩ := hb₁
    refine (ends_settleNew hgrowing fun _ _ => .inr ⟨o, hgrowing.sprouted, hnames⟩).bind
      fun _ b₂ hb₂ => ?_
    have hnote : Keeps (Backward.Has (Sprouting (· = Naming.grad tensor) b.graph))
        (noteGrad tensor (Naming.grad tensor)) :=
      Keeps.modify fun _ hb => hb
    exact (hnote.bind fun _ => Keeps.pure _).ends (.inr ⟨_, hb₂.sprouted, hnames⟩)
  exact hends.stateOf

end Growth

end Dataflow
