import Dataflow.Proofs.Settling

/-! # Edits keep the wiring

    Every edit takes a well wired graph to a well wired graph, on success and
    on refusal.  Edits that are made of several others inherit this from their
    parts; only those that touch a wire have to be looked at.

    Inference is the one part that walks through the graph.  It changes the
    types of tensors and the marks of settled ops and nothing else, which
    `Graph.Retyped` expresses. -/

namespace Dataflow

/-! ## Section 1: Inference leaves the wiring alone -/

/-- An op without the mark that its types have been inferred. -/
def Op.unmarked (o : Op) : Op := { o with isSettled := false }

/-- A tensor without its type. -/
def Tensor.untyped (t : Tensor) : Tensor := { t with type? := none }

namespace Graph

variable {g g' g'' : Graph}

/-- The same graph up to the types of tensors and the marks of settled ops. -/
structure Retyped (g g' : Graph) : Prop where
  op : ∀ o, (g'.op? o).map Op.unmarked = (g.op? o).map Op.unmarked
  tensor : ∀ t, (g'.tensor? t).map Tensor.untyped = (g.tensor? t).map Tensor.untyped
  scope : g'.scope = g.scope
  constraints : g'.constraints = g.constraints
  inputs : g'.inputs = g.inputs
  outputs : g'.outputs = g.outputs
  nextOp : g'.nextOp = g.nextOp

namespace Retyped

theorem refl (g : Graph) : Retyped g g :=
  ⟨fun _ => rfl, fun _ => rfl, rfl, rfl, rfl, rfl, rfl⟩

theorem trans (h : Retyped g g') (h' : Retyped g' g'') : Retyped g g'' where
  op o := (h'.op o).trans (h.op o)
  tensor t := (h'.tensor t).trans (h.tensor t)
  scope := h'.scope.trans h.scope
  constraints := h'.constraints.trans h.constraints
  inputs := h'.inputs.trans h.inputs
  outputs := h'.outputs.trans h.outputs
  nextOp := h'.nextOp.trans h.nextOp

/-- A question that does not ask for the mark of an op has the same answer. -/
theorem bind_op (h : Retyped g g') {α : Type} (f : Op → Option α)
    (hf : ∀ x, f x.unmarked = f x) (o : OpId) : (g'.op? o).bind f = (g.op? o).bind f := by
  have hbind := congrArg (Option.bind · f) (h.op o)
  simpa [Option.bind_map, Function.comp_def, hf] using hbind

/-- A question that does not ask for the type of a tensor has the same answer. -/
theorem bind_tensor (h : Retyped g g') {α : Type} (f : Tensor → Option α)
    (hf : ∀ x, f x.untyped = f x) (t : TensorId) :
    (g'.tensor? t).bind f = (g.tensor? t).bind f := by
  have hbind := congrArg (Option.bind · f) (h.tensor t)
  simpa [Option.bind_map, Function.comp_def, hf] using hbind

theorem inputAt (h : Retyped g g') (o : OpId) (i : Nat) : g'.inputAt o i = g.inputAt o i :=
  h.bind_op (fun x => x.inputs.get? i) (fun _ => rfl) o

theorem outputAt (h : Retyped g g') (o : OpId) (i : Nat) : g'.outputAt o i = g.outputAt o i :=
  h.bind_op (fun x => x.outputs.get? i) (fun _ => rfl) o

theorem readCount (h : Retyped g g') (t : TensorId) (o : OpId) :
    g'.readCount t o = g.readCount t o := by
  rw [Graph.readCount, Graph.readCount, Option.map_eq_bind, Option.map_eq_bind,
    h.bind_tensor _ (fun _ => rfl)]

theorem producer? (h : Retyped g g') (t : TensorId) : g'.producer? t = g.producer? t :=
  h.bind_tensor Tensor.producer? (fun _ => rfl) t

theorem sameParts (h : Retyped g g') : SameParts g g' where
  op o := by simpa using congrArg Option.isSome (h.op o)
  kind t := by
    rw [kind?, kind?, Option.map_eq_bind, Option.map_eq_bind, h.bind_tensor _ (fun _ => rfl)]
  constraints := h.constraints
  inputs := h.inputs
  outputs := h.outputs
  nextOp := h.nextOp

end Retyped

theorem WellWired.of_retyped (h : g.WellWired) (hr : Retyped g g') : g'.WellWired := by
  refine h.transfer hr.inputAt hr.outputAt hr.readCount hr.producer? ?_
    (h.constrained_of_same hr.sameParts) (h.declared_of_same hr.sameParts)
    (h.fresh_of_same hr.sameParts)
  intro t o ho
  rw [hr.sameParts.kind]
  exact h.computed t o ho

theorem retyped_setType (g : Graph) (id : TensorId) (type : TensorType) :
    Retyped g (g.modifyTensor id fun t => { t with type? := some type }) where
  op _ := rfl
  tensor t := by
    rw [tensor?_modifyTensor]
    split
    · cases g.tensor? t <;> rfl
    · rfl
  scope := rfl
  constraints := rfl
  inputs := rfl
  outputs := rfl
  nextOp := rfl

theorem retyped_mark (g : Graph) (op : OpId) :
    Retyped g (g.modifyOp op fun o => { o with isSettled := true }) where
  op o := by
    rw [op?_modifyOp]
    split
    · cases g.op? o <;> rfl
    · rfl
  tensor _ := rfl
  scope := rfl
  constraints := rfl
  inputs := rfl
  outputs := rfl
  nextOp := rfl

theorem retyped_writeTypes {types : List (TensorId × TensorType)} {ops : List OpId}
    (h : g.writeTypes types = .ok (ops, g')) : Retyped g g' := by
  induction types generalizing g ops with
  | nil =>
    cases h
    exact .refl _
  | cons head rest ih =>
    obtain ⟨id, type⟩ := head
    simp only [writeTypes] at h
    obtain ⟨t, -, h⟩ := except_bind_eq_ok.1 h
    split at h
    · exact ih h
    · obtain ⟨⟨later, g₁⟩, hrest, h⟩ := except_bind_eq_ok.1 h
      cases h
      exact (retyped_setType g id type).trans (ih hrest)

theorem retyped_settleOne {op : OpId} {ops : List OpId}
    (h : g.settleOne op = .ok (ops, g')) : Retyped g g' := by
  simp only [settleOne] at h
  obtain ⟨types, -, h⟩ := except_bind_eq_ok.1 h
  obtain ⟨o, -, h⟩ := except_bind_eq_ok.1 h
  split at h
  · cases h
  · obtain ⟨⟨affected, g₁⟩, hwrite, h⟩ := except_bind_eq_ok.1 h
    cases h
    exact (retyped_writeTypes hwrite).trans (retyped_mark g₁ op)

theorem retyped_settleAll {rounds : Nat} {waiting : List OpId} {visited : Std.ExtTreeSet OpId}
    (h : settleAll rounds waiting visited g = .ok g') : Retyped g g' := by
  induction rounds generalizing waiting visited g with
  | zero =>
    cases h
    exact .refl _
  | succ rounds ih =>
    simp only [settleAll] at h
    split at h
    · cases h
      exact .refl _
    · obtain ⟨⟨affected, g₁⟩, hone, h⟩ := except_bind_eq_ok.1 h
      exact (retyped_settleOne hone).trans (ih h)

theorem retyped_settle {op : OpId} (h : g.settle op = .ok g') : Retyped g g' :=
  retyped_settleAll h

end Graph

namespace Edit

open Dataflow.Graph

variable {α β : Type} {g g' : Graph}

/-! ## Section 2: Building blocks -/

theorem ask_eq_ok {question : Graph → Except GraphError α} {a : α} :
    ask question g = .ok a g' ↔ question g = .ok a ∧ g = g' := by
  unfold ask
  cases question g <;> simp

/-- A question and what is made of the answer. -/
theorem ask_bind_eq_ok {question : Graph → Except GraphError α} {f : α → Edit β} {b : β} :
    (ask question >>= f) g = .ok b g' ↔ ∃ a, question g = .ok a ∧ f a g = .ok b g' := by
  rw [bind_eq_ok]
  constructor
  · rintro ⟨a, g₁, hask, h⟩
    obtain ⟨ha, rfl⟩ := ask_eq_ok.1 hask
    exact ⟨a, ha, h⟩
  · rintro ⟨a, ha, h⟩
    exact ⟨a, g, ask_eq_ok.2 ⟨ha, rfl⟩, h⟩

theorem change_eq_ok {f : Graph → Graph} {u : Unit} : change f g = .ok u g' ↔ g' = f g := by
  simp [change, eq_comm]

theorem ask_eq_error {question : Graph → Except GraphError α} {e : GraphError}
    (h : ask question g = .error e g') : g' = g := by
  unfold ask at h
  cases hq : question g with
  | ok a =>
    rw [hq] at h
    cases h
  | error e' =>
    rw [hq] at h
    cases h
    rfl

theorem orUndo_run (e : Edit α) (undo : Edit Unit) (g : Graph) :
    orUndo e undo g = match e g with
      | .ok a g' => .ok a g'
      | .error err g' => (undo >>= fun _ => throw err) g' := by
  show EStateM.tryCatch e _ g = _
  unfold EStateM.tryCatch
  cases e g <;> rfl

theorem orUndo_eq_ok {e : Edit α} {undo : Edit Unit} {a : α} :
    orUndo e undo g = .ok a g' ↔ e g = .ok a g' := by
  rw [orUndo_run]
  cases e g with
  | ok b g₁ => rfl
  | error err g₁ =>
    refine ⟨fun h => ?_, nofun⟩
    obtain ⟨_, _, -, hthrow⟩ := bind_eq_ok.1 h
    cases hthrow

/-- A refused edit leaves what is undone after it. -/
theorem orUndo_eq_error {e : Edit α} {undo : Edit Unit} {err : GraphError}
    (h : orUndo e undo g = .error err g') :
    ∃ err' g₁, e g = .error err' g₁ ∧ g' = stateOf (undo g₁) := by
  rw [orUndo_run] at h
  cases hrun : e g with
  | ok a g₁ =>
    rw [hrun] at h
    cases h
  | error err' g₁ =>
    rw [hrun] at h
    refine ⟨err', g₁, rfl, ?_⟩
    rcases bind_eq_error.1 h with hundo | ⟨_, g₂, hundo, hthrow⟩
    · rw [hundo, stateOf_error]
    · cases hthrow
      rw [hundo, stateOf_ok]

theorem settle_eq_ok {op : OpId} {u : Unit} :
    settle op g = .ok u g' ↔ g.settle op = .ok g' := by
  rw [settle_run]
  cases g.settle op <;> simp

theorem settle_eq_error {op : OpId} {e : GraphError} :
    settle op g = .error e g' ↔ g.settle op = .error e ∧ g' = g := by
  rw [settle_run]
  cases g.settle op <;> simp [eq_comm]

variable {P : Graph → Prop}

theorem keeps_ask (question : Graph → Except GraphError α) : Keeps P (ask question) := by
  intro g hg
  unfold ask
  cases question g <;> exact hg

theorem keeps_change {f : Graph → Graph} (hf : ∀ g, P g → P (f g)) : Keeps P (change f) :=
  fun g hg => hf g hg

/-- After a question, the rest of an edit may rely on the answer. -/
theorem keeps_ask_bind {question : Graph → Except GraphError α} {f : α → Edit β}
    (hf : ∀ a g, P g → question g = .ok a → P (stateOf (f a g))) :
    Keeps P (ask question >>= f) := by
  refine Keeps.bind_of (Q := fun a g => P g ∧ question g = .ok a) ?_ ?_ ?_
  · intro g a g' hg h
    obtain ⟨ha, rfl⟩ := ask_eq_ok.1 h
    exact ⟨hg, ha⟩
  · intro g e g' hg h
    have hkeep := keeps_ask (P := P) question g hg
    rwa [h] at hkeep
  · rintro a g ⟨hg, ha⟩
    exact hf a g hg ha

theorem settle_wellWired (op : OpId) : Keeps WellWired (settle op) :=
  Keeps.of_cases (fun _ _ _ hg h => hg.of_retyped (retyped_settle (settle_eq_ok.1 h)))
    fun _ _ _ hg h => (settle_eq_error.1 h).2 ▸ hg

/-! ## Section 3: Tensors and declarations -/

/-- A tensor under a new name that no op is wired to changes no wire. -/
theorem insertTensor_wellWired (h : g.WellWired) {id : TensorId} {x : Tensor}
    (hid : g.tensor? id = none) (hp : x.producer? = none) (hr : ∀ o, x.readers.count o = 0) :
    (g.insertTensor id x).WellWired := by
  refine h.transfer (fun _ _ => rfl) (fun _ _ => rfl) ?_ ?_ ?_ h.constrained ?_ h.fresh
  · intro t o
    by_cases ht : t = id
    · simp [readCount, ht, hid, hr]
    · simp [readCount, ht]
  · intro t
    by_cases ht : t = id
    · simp [producer?, ht, hid, hp]
    · simp [producer?, ht]
  · intro t o ho
    have ht : t ≠ id := by
      rintro rfl
      simp [producer?, hid] at ho
    simpa [kind?, ht] using h.computed t o ho
  · intro t ht
    rw [tensor?_insertTensor]
    split
    · rfl
    · exact h.declared t ht

/-- Declarations may change as long as they name tensors. -/
theorem declare_wellWired (h : g.WellWired) {inputs outputs : List TensorId}
    (hd : ∀ t ∈ inputs ++ outputs, (g.tensor? t).isSome) :
    Graph.WellWired { g with inputs := inputs, outputs := outputs } :=
  h.transfer (fun _ _ => rfl) (fun _ _ => rfl) (fun _ _ => rfl) (fun _ => rfl) h.computed
    h.constrained hd h.fresh

theorem requireNewName_eq_ok {id : TensorId} {u : Unit} (h : requireNewName id g = .ok u g') :
    g = g' ∧ g.tensor? id = none ∧ Naming.isReserved id = false := by
  obtain ⟨hq, rfl⟩ := ask_eq_ok.1 h
  refine ⟨rfl, ?_⟩
  split at hq
  · cases hq
  · rename_i hname
    split at hq
    · cases hq
    · rename_i hc
      exact ⟨by simpa [contains_tensors] using hc, by simpa using hname⟩

theorem addStream_wellWired (id : TensorId) (type : TensorType) :
    Keeps WellWired (addStream id type) := by
  refine keeps_ask_bind fun _ g hg hq => ?_
  have hid := (requireNewName_eq_ok (ask_eq_ok.2 ⟨hq, rfl⟩)).2.1
  exact insertTensor_wellWired hg hid rfl Readers.count_empty

theorem addStream_eq_ok {id : TensorId} {type : TensorType} {u : Unit}
    (h : addStream id type g = .ok u g') :
    g' = g.insertTensor id { kind := .stream, type? := some type } ∧ g.tensor? id = none ∧
      Naming.isReserved id = false := by
  obtain ⟨_, g₁, hname, hchange⟩ := bind_eq_ok.1 h
  obtain ⟨rfl, hid⟩ := requireNewName_eq_ok hname
  exact ⟨change_eq_ok.1 hchange, hid⟩

theorem addInput_wellWired (id : TensorId) (type : TensorType) :
    Keeps WellWired (addInput id type) := by
  refine Keeps.bind_of (Q := fun _ g => g.WellWired ∧ (g.tensor? id).isSome) ?_ ?_ ?_
  · intro g u g' hg h
    have hkeep := addStream_wellWired id type g hg
    rw [h] at hkeep
    refine ⟨hkeep, ?_⟩
    rw [stateOf_ok, (addStream_eq_ok h).1] at *
    simp
  · intro g e g' hg h
    have hkeep := addStream_wellWired id type g hg
    rwa [h] at hkeep
  · rintro _ g ⟨hg, hid⟩
    refine declare_wellWired hg fun t ht => ?_
    rcases List.mem_append.1 ht with ht | ht
    · rcases List.mem_append.1 ht with ht | ht
      · exact hg.declared t (List.mem_append_left _ ht)
      · rw [List.mem_singleton.1 ht]
        exact hid
    · exact hg.declared t (List.mem_append_right _ ht)

theorem addInitialised_eq_ok {id : TensorId} {kind : TensorKind} {type : TensorType}
    {data : Payload} {u : Unit} (h : addInitialised id kind type data g = .ok u g') :
    g' = g.insertTensor id { kind := kind, type? := some type, data? := some data } ∧
      g.tensor? id = none := by
  obtain ⟨_, hq, hchange⟩ := ask_bind_eq_ok.1 h
  refine ⟨change_eq_ok.1 hchange, ?_⟩
  split at hq
  · cases hq
  · rename_i hc
    simpa [contains_tensors] using hc

theorem addInitialised_wellWired (id : TensorId) (kind : TensorKind) (type : TensorType)
    (data : Payload) : Keeps WellWired (addInitialised id kind type data) := by
  refine keeps_ask_bind fun _ g hg hq => ?_
  have hrun : addInitialised id kind type data g = .ok () _ := ask_bind_eq_ok.2 ⟨_, hq, rfl⟩
  have hid := (addInitialised_eq_ok hrun).2
  exact insertTensor_wellWired hg hid rfl Readers.count_empty

theorem markInput_wellWired (id : TensorId) : Keeps WellWired (markInput id) := by
  refine keeps_ask_bind fun x g hg hx => ?_
  change Graph.WellWired (if g.inputs.contains id then g else { g with inputs := g.inputs ++ [id] })
  split
  · exact hg
  · refine declare_wellWired hg fun t ht => ?_
    simp only [List.mem_append, List.mem_singleton] at ht
    rcases ht with (ht | rfl) | ht
    · exact hg.declared t (List.mem_append_left _ ht)
    · rw [requireTensor_eq_ok.1 hx]
      rfl
    · exact hg.declared t (List.mem_append_right _ ht)

theorem markOutput_wellWired (id : TensorId) : Keeps WellWired (markOutput id) := by
  refine keeps_ask_bind fun x g hg hx => ?_
  change Graph.WellWired
    (if g.outputs.contains id then g else { g with outputs := g.outputs ++ [id] })
  split
  · exact hg
  · refine declare_wellWired hg fun t ht => ?_
    simp only [List.mem_append, List.mem_singleton] at ht
    rcases ht with ht | ht | rfl
    · exact hg.declared t (List.mem_append_left _ ht)
    · exact hg.declared t (List.mem_append_right _ ht)
    · rw [requireTensor_eq_ok.1 hx]
      rfl

theorem removeOutput_wellWired (id : TensorId) : Keeps WellWired (removeOutput id) := by
  refine Keeps.bind (keeps_ask _) fun _ => keeps_change fun g hg => ?_
  refine declare_wellWired hg fun t ht => ?_
  rcases List.mem_append.1 ht with ht | ht
  · exact hg.declared t (List.mem_append_left _ ht)
  · exact hg.declared t (List.mem_append_right _ (List.mem_of_mem_erase ht))

theorem isDetached_iff {x : Tensor} :
    x.isDetached ↔ x.producer? = none ∧ ∀ o, x.readers.count o = 0 := by
  simp [Tensor.isDetached, ← Readers.isEmpty_iff]

/-- A graph without one of its tensors and without the declarations of it. -/
def without (g : Graph) (id : TensorId) : Graph :=
  { g with
    tensors := g.tensors.erase id
    inputs := g.inputs.filter (· ≠ id)
    outputs := g.outputs.filter (· ≠ id) }

@[simp] theorem tensor?_without (g : Graph) (id t : TensorId) :
    (without g id).tensor? t = if t = id then none else g.tensor? t := by
  by_cases h : t = id
  · simp [tensor?, without, h]
  · have h' : ¬ id = t := fun e => h e.symm
    simp [tensor?, without, Std.ExtTreeMap.getElem?_erase, h, h']

theorem without_wellWired (h : g.WellWired) {id : TensorId} {x : Tensor}
    (hid : g.tensor? id = some x) (hx : x.isDetached) : (without g id).WellWired := by
  obtain ⟨hp, hr⟩ := isDetached_iff.1 hx
  refine h.transfer (fun _ _ => rfl) (fun _ _ => rfl) ?_ ?_ ?_ h.constrained ?_ h.fresh
  · intro t o
    by_cases ht : t = id
    · simp [readCount, ht, hid, hr]
    · simp [readCount, ht]
  · intro t
    by_cases ht : t = id
    · simp [producer?, ht, hid, hp]
    · simp [producer?, ht]
  · intro t o ho
    have ht : t ≠ id := by
      rintro rfl
      simp [producer?, hid, hp] at ho
    simpa [kind?, ht] using h.computed t o ho
  · intro t ht
    simp only [without, List.mem_append, List.mem_filter, decide_eq_true_eq] at ht
    have hne : t ≠ id := by
      rcases ht with ht | ht <;> exact ht.2
    rw [tensor?_without, if_neg hne]
    refine h.declared t (List.mem_append.2 ?_)
    rcases ht with ht | ht
    · exact .inl ht.1
    · exact .inr ht.1

theorem removeTensor_eq_ok {id : TensorId} {x : Tensor} :
    removeTensor id g = .ok x g' ↔
      g.tensor? id = some x ∧ x.isDetached ∧ g' = without g id := by
  simp only [removeTensor, ask_bind_eq_ok, requireTensor_eq_ok]
  constructor
  · rintro ⟨y, hy, h⟩
    split at h
    · rename_i hd
      obtain ⟨_, g₂, hchange, h⟩ := bind_eq_ok.1 h
      obtain ⟨rfl, rfl⟩ := pure_eq_ok.1 h
      exact ⟨hy, hd, change_eq_ok.1 hchange⟩
    · obtain ⟨_, _, h, _⟩ := bind_eq_ok.1 h
      cases h
  · rintro ⟨hx, hd, rfl⟩
    refine ⟨x, hx, ?_⟩
    simp only [hd]
    rfl

theorem removeTensor_wellWired (id : TensorId) : Keeps WellWired (removeTensor id) := by
  refine keeps_ask_bind fun x g hg hx => ?_
  have hid := requireTensor_eq_ok.1 hx
  by_cases hd : x.isDetached
  · simp only [hd]
    exact without_wellWired hg hid hd
  · simp only [hd]
    exact hg

end Edit

end Dataflow
