import Dataflow.Proofs.Inference
import Dataflow.Proofs.Rewiring

/-! # Growing an op

    Graphs are built op by op, and differentiation grows them in the same way:
    a new op is created, its inputs are wired to tensors that exist, its
    outputs are created under new names, and it is settled.  Nothing reads the
    new tensors yet, so the rest of the graph stays as it is.

    `Growing` follows an op through these steps, and `Grown` says what has
    become of the graph at the end. -/

namespace Dataflow

/-- A tensor without its readers. -/
def Tensor.unread (t : Tensor) : Tensor := { t with readers := ∅ }

namespace Tensor

@[simp] theorem unread_kind (t : Tensor) : t.unread.kind = t.kind := rfl

@[simp] theorem unread_type? (t : Tensor) : t.unread.type? = t.type? := rfl

@[simp] theorem unread_producer? (t : Tensor) : t.unread.producer? = t.producer? := rfl

end Tensor

/-! ## Section 1: Wiring many ports -/

namespace Ports

/-- Wire several indices, one after the other. -/
def insertAll (p : Ports) (wires : List (Nat × TensorId)) : Ports :=
  wires.foldl (fun p wire => p.insert wire.1 wire.2) p

@[simp] theorem insertAll_nil (p : Ports) : p.insertAll [] = p := rfl

@[simp] theorem insertAll_cons (p : Ports) (wire : Nat × TensorId)
    (wires : List (Nat × TensorId)) :
    p.insertAll (wire :: wires) = (p.insert wire.1 wire.2).insertAll wires := rfl

/-- Only the indices in the list can have changed. -/
theorem get?_insertAll_of_notMem {p : Ports} {wires : List (Nat × TensorId)} {i : Nat}
    (h : i ∉ wires.map Prod.fst) : (p.insertAll wires).get? i = p.get? i := by
  induction wires generalizing p with
  | nil => rfl
  | cons wire wires ih =>
    rw [List.map_cons, List.mem_cons, not_or] at h
    rw [insertAll_cons, ih h.2, get?_insert, if_neg h.1]

/-- What is wired afterwards was wired before or is in the list. -/
theorem get?_insertAll {p : Ports} {wires : List (Nat × TensorId)} {i : Nat} {t : TensorId}
    (h : (p.insertAll wires).get? i = some t) : p.get? i = some t ∨ (i, t) ∈ wires := by
  induction wires generalizing p with
  | nil => exact .inl h
  | cons wire wires ih =>
    rw [insertAll_cons] at h
    rcases ih h with hp | hmem
    · rw [get?_insert] at hp
      split at hp
      · rename_i hi
        cases hp
        exact .inr (hi ▸ List.mem_cons_self)
      · exact .inl hp
    · exact .inr (List.mem_cons_of_mem wire hmem)

/-- With different indices, everything in the list is wired. -/
theorem get?_insertAll_of_mem {p : Ports} {wires : List (Nat × TensorId)} {i : Nat} {t : TensorId}
    (hnodup : (wires.map Prod.fst).Nodup) (h : (i, t) ∈ wires) :
    (p.insertAll wires).get? i = some t := by
  induction wires generalizing p with
  | nil => cases h
  | cons wire wires ih =>
    rw [List.map_cons, List.nodup_cons] at hnodup
    rw [insertAll_cons]
    rcases List.mem_cons.1 h with rfl | h
    · rw [get?_insertAll_of_notMem hnodup.1, get?_insert, if_pos rfl]
    · exact ih hnodup.2 h

/-- The wires of a table that was empty at first. -/
theorem get?_insertAll_empty {wires : List (Nat × TensorId)} {i : Nat} {t : TensorId}
    (hnodup : (wires.map Prod.fst).Nodup) :
    ((∅ : Ports).insertAll wires).get? i = some t ↔ (i, t) ∈ wires := by
  constructor
  · intro h
    rcases get?_insertAll h with h | h
    · simp at h
    · exact h
  · exact get?_insertAll_of_mem hnodup

end Ports

namespace Graph

variable {g s s' : Graph} {o : Op}

/-! ## Section 2: An op under construction -/

/-- What the new op has so far, and what has become of the graph `g`. -/
structure Growing (g : Graph) (o : Op) (s : Graph) : Prop where
  op : ∀ p, s.op? p = if p = g.nextOp then some o else g.op? p
  unsettled : o.isSettled = false
  /-- Of the tensors that were there, only the readers have changed. -/
  kept : ∀ t, (g.tensor? t).isSome →
    (s.tensor? t).map Tensor.unread = (g.tensor? t).map Tensor.unread
  /-- The outputs are new, and nobody reads them. -/
  made : ∀ i t, o.outputs.get? i = some t →
    g.tensor? t = none ∧ s.tensor? t = some { kind := .computed, producer? := some g.nextOp }
  unmade : ∀ t, g.tensor? t = none → (∀ i, o.outputs.get? i ≠ some t) → s.tensor? t = none
  inputs_old : ∀ i t, o.inputs.get? i = some t → (g.tensor? t).isSome
  nextOp : s.nextOp = g.nextOp + 1
  scope : s.scope = g.scope
  constraints : s.constraints = g.constraints
  inputs : s.inputs = g.inputs
  outputs : s.outputs = g.outputs

theorem growing_withOp (g : Graph) (operator : Operator) (settings : OpSettings) :
    Growing g { operator, settings } (g.withOp operator settings) where
  op := op?_withOp g operator settings
  unsettled := rfl
  kept _ _ := rfl
  made i t h := by simp at h
  unmade t h _ := h
  inputs_old i t h := by simp at h
  nextOp := rfl
  scope := rfl
  constraints := rfl
  inputs := rfl
  outputs := rfl

/-- Moving an input changes readers only. -/
theorem unread_wireInput (g : Graph) (op : OpId) (index : Nat) (previous? : Option TensorId)
    (tensor t : TensorId) :
    ((g.wireInput op index previous? tensor).tensor? t).map Tensor.unread
      = (g.tensor? t).map Tensor.unread := by
  have hadd : ∀ (g : Graph) (tensor : TensorId),
      ((g.addReader tensor op).tensor? t).map Tensor.unread = (g.tensor? t).map Tensor.unread := by
    intro g tensor
    simp only [addReader, tensor?_modifyTensor]
    split <;> cases g.tensor? t <;> rfl
  have hdrop : ∀ (g : Graph) (tensor : TensorId),
      ((g.dropReader tensor op).tensor? t).map Tensor.unread = (g.tensor? t).map Tensor.unread := by
    intro g tensor
    simp only [dropReader, tensor?_modifyTensor]
    split <;> cases g.tensor? t <;> rfl
  cases previous? with
  | none => exact hadd _ tensor
  | some previous => exact (hadd _ tensor).trans (hdrop _ previous)

/-- An input is wired while there are no outputs yet. -/
theorem Growing.connectInput (h : Growing g o s) (hout : ∀ i, o.outputs.get? i = none)
    {index : Nat} {tensor : TensorId} {u : Unit}
    (hrun : Edit.connectInput g.nextOp index tensor s = .ok u s') :
    Growing g { o with inputs := o.inputs.insert index tensor } s' := by
  obtain ⟨o', x, ho, hx, hwire⟩ := Edit.connectInput_eq_ok hrun
  have hself : o' = o := by
    have hop := h.op g.nextOp
    rw [if_pos rfl, ho] at hop
    exact Option.some.inj hop
  subst hself
  simp only [h.unsettled] at hwire
  subst hwire
  have hunread := unread_wireInput s g.nextOp index (o'.inputs.get? index) tensor
  have hnone : ∀ t, g.tensor? t = none → s.tensor? t = none := fun t ht =>
    h.unmade t ht fun i => by simp [hout]
  refine ⟨fun p => ?_, h.unsettled, fun t ht => (hunread t).trans (h.kept t ht), ?_, ?_, ?_, ?_, ?_,
    ?_, ?_, ?_⟩
  · rw [op?_wireInput, h.op]
    split <;> simp
  · intro i t hi
    simp [hout] at hi
  · intro t ht _
    have hmap := hunread t
    rw [hnone t ht] at hmap
    simpa using hmap
  · intro i t hi
    rw [Ports.get?_insert] at hi
    split at hi
    · cases hi
      -- the tensor is there, and nothing has been made yet
      cases hg : g.tensor? tensor with
      | some y => rfl
      | none =>
        rw [hnone tensor hg] at hx
        cases hx
    · exact h.inputs_old i t hi
  · exact (sameParts_wireInput ..).nextOp.trans h.nextOp
  · have hscope : ∀ previous? : Option TensorId,
        (s.wireInput g.nextOp index previous? tensor).scope = s.scope := by
      intro previous?
      cases previous? <;> rfl
    exact (hscope _).trans h.scope
  · exact (sameParts_wireInput ..).constraints.trans h.constraints
  · exact (sameParts_wireInput ..).inputs.trans h.inputs
  · exact (sameParts_wireInput ..).outputs.trans h.outputs

theorem Growing.connectInputs (h : Growing g o s) (hout : ∀ i, o.outputs.get? i = none)
    {wires : List (Nat × TensorId)} {u : Unit}
    (hrun : Edit.connectInputs g.nextOp wires s = .ok u s') :
    Growing g { o with inputs := o.inputs.insertAll wires } s' := by
  unfold Edit.connectInputs at hrun
  induction wires generalizing o s with
  | nil =>
    obtain ⟨-, rfl⟩ := pure_eq_ok.1 hrun
    exact h
  | cons wire wires ih =>
    obtain ⟨v, s₁, hwire, hrest⟩ := forM_cons_eq_ok.1 hrun
    exact ih (h.connectInput hout hwire) hout hrest

/-- An output is created at an index that is free. -/
theorem Growing.createOutput (h : Growing g o s) {index : Nat} {tensor : TensorId} {u : Unit}
    (hfree : o.outputs.get? index = none)
    (hrun : Edit.createOutput g.nextOp index tensor s = .ok u s') :
    Growing g { o with outputs := o.outputs.insert index tensor } s' := by
  obtain ⟨_, hnew, hrun⟩ := Edit.ask_bind_eq_ok.1 hrun
  obtain ⟨_, -, hrun⟩ := Edit.ask_bind_eq_ok.1 hrun
  obtain ⟨_, s₁, hchange, hrun⟩ := bind_eq_ok.1 hrun
  have hs₁ := Edit.change_eq_ok.1 hchange
  subst hs₁
  have hfresh : s.tensor? tensor = none := by
    split at hnew
    · cases hnew
    · rename_i hc
      simpa [contains_tensors] using hc
  -- what was in the graph from the start is still there
  have hg : g.tensor? tensor = none := by
    cases hg : g.tensor? tensor with
    | none => rfl
    | some y =>
      have hkept := h.kept tensor (by simp [hg])
      simp [hfresh, hg] at hkept
  obtain ⟨o', x, ho, hx, hp, hk, hwire⟩ := Edit.connectOutput_eq_ok hrun
  have hself : o' = o := by
    have hop := h.op g.nextOp
    rw [if_pos rfl] at hop
    exact Option.some.inj (ho.symm.trans hop)
  subst hself
  -- the op is not settled yet, so nothing is worked out
  simp only [h.unsettled, hfree] at hwire
  subst hwire
  have htensor : ∀ t, ((s.insertTensor tensor { kind := .computed }).wireOutput g.nextOp index none
      tensor).tensor? t =
      if t = tensor then some { kind := .computed, producer? := some g.nextOp }
      else s.tensor? t := by
    intro t
    simp only [wireOutput, setProducer, tensor?_modifyTensor, tensor?_modifyOp,
      tensor?_insertTensor]
    split <;> rfl
  have hne : ∀ t, (g.tensor? t).isSome → t ≠ tensor := by
    rintro t ht rfl
    rw [hg] at ht
    cases ht
  refine ⟨fun p => ?_, h.unsettled, fun t ht => ?_, ?_, ?_, h.inputs_old, h.nextOp, h.scope,
    h.constraints, h.inputs, h.outputs⟩
  · rw [op?_wireOutput, op?_insertTensor, h.op]
    split <;> simp
  · rw [htensor, if_neg (hne t ht)]
    exact h.kept t ht
  · intro i t hi
    rw [Ports.get?_insert] at hi
    rw [htensor]
    split at hi
    · cases hi
      exact ⟨hg, if_pos rfl⟩
    · obtain ⟨hold, hmade⟩ := h.made i t hi
      have hti : t ≠ tensor := by
        rintro rfl
        rw [hfresh] at hmade
        cases hmade
      exact ⟨hold, by rw [if_neg hti, hmade]⟩
  · intro t ht hno
    have hti : t ≠ tensor := by
      rintro rfl
      exact hno index (by simp [Ports.get?_insert])
    rw [htensor, if_neg hti]
    refine h.unmade t ht fun i hi => hno i ?_
    rw [Ports.get?_insert]
    split
    · rename_i heq
      rw [heq, hfree] at hi
      cases hi
    · exact hi

theorem Growing.createOutputs (h : Growing g o s) {wires : List (Nat × TensorId)} {u : Unit}
    (hnodup : (wires.map Prod.fst).Nodup)
    (hfree : ∀ i ∈ wires.map Prod.fst, o.outputs.get? i = none)
    (hrun : Edit.createOutputs g.nextOp wires s = .ok u s') :
    Growing g { o with outputs := o.outputs.insertAll wires } s' := by
  unfold Edit.createOutputs at hrun
  induction wires generalizing o s with
  | nil =>
    obtain ⟨-, rfl⟩ := pure_eq_ok.1 hrun
    exact h
  | cons wire wires ih =>
    obtain ⟨v, s₁, hwire, hrest⟩ := forM_cons_eq_ok.1 hrun
    rw [List.map_cons, List.nodup_cons] at hnodup
    have hhead := hfree wire.1 List.mem_cons_self
    refine ih (h.createOutput hhead hwire) hnodup.2 (fun i hi => ?_) hrest
    have hne : i ≠ wire.1 := by
      rintro rfl
      exact hnodup.1 hi
    show (o.outputs.insert wire.1 wire.2).get? i = none
    rw [Ports.get?_insert, if_neg hne]
    exact hfree i (List.mem_cons_of_mem _ hi)

/-- A note on the new op touches nothing else. -/
theorem Growing.note (h : Growing g o s) (origin? : Option GradOrigin) :
    Growing g { o with origin? := origin? }
      (s.modifyOp g.nextOp fun o => { o with origin? := origin? }) := by
  refine ⟨fun p => ?_, h.unsettled, h.kept, h.made, h.unmade, h.inputs_old, h.nextOp, h.scope,
    h.constraints, h.inputs, h.outputs⟩
  rw [op?_modifyOp, h.op]
  split <;> simp

/-! ## Section 3: A finished op -/

/-- `g'` is `g` with one more op, which reads tensors of `g` and has new
    tensors as its outputs. -/
structure Grown (g : Graph) (o : Op) (g' : Graph) : Prop where
  op : ∀ p, g'.op? p = if p = g.nextOp then some o else g.op? p
  settled : o.isSettled = true
  kept : ∀ t, (g.tensor? t).isSome →
    (g'.tensor? t).map Tensor.unread = (g.tensor? t).map Tensor.unread
  made : ∀ i t, o.outputs.get? i = some t → g.tensor? t = none ∧
    ∃ type, g'.tensor? t =
      some { kind := .computed, type? := some type, producer? := some g.nextOp }
  unmade : ∀ t, g.tensor? t = none → (∀ i, o.outputs.get? i ≠ some t) → g'.tensor? t = none
  inputs_old : ∀ i t, o.inputs.get? i = some t → (g.tensor? t).isSome
  nextOp : g'.nextOp = g.nextOp + 1
  scope : g'.scope = g.scope
  constraints : g'.constraints = g.constraints
  inputs : g'.inputs = g.inputs
  outputs : g'.outputs = g.outputs

/-- Types of tensors that nobody reads affect no op. -/
theorem writeTypes_unread {types : List (TensorId × TensorType)} {affected : List OpId}
    (h : s.writeTypes types = .ok (affected, s'))
    (hunread : ∀ x ∈ types, ∀ t, s.tensor? x.1 = some t → t.readers.ops = []) :
    affected = [] ∧ (∀ o, s'.op? o = s.op? o) ∧
    (∀ t, t ∉ types.map Prod.fst → s'.tensor? t = s.tensor? t) ∧
    ∀ t ∈ types.map Prod.fst, ∃ x type, s'.tensor? t = some x ∧ x.type? = some type := by
  induction types generalizing s affected with
  | nil =>
    cases h
    exact ⟨rfl, fun _ => rfl, fun _ _ => rfl, fun t ht => nomatch ht⟩
  | cons head rest ih =>
    obtain ⟨id, type⟩ := head
    simp only [writeTypes] at h
    obtain ⟨x, hx, h⟩ := except_bind_eq_ok.1 h
    have hid := requireTensor_eq_ok.1 hx
    -- a type that stays is not written, and a new one affects the readers, of whom there are none
    split at h
    · rename_i hsame
      obtain ⟨haffected, hop, hother, htyped⟩ :=
        ih h fun y hy => hunread y (List.mem_cons_of_mem _ hy)
      refine ⟨haffected, hop, fun t ht => ?_, fun t ht => ?_⟩
      · rw [List.map_cons, List.mem_cons, not_or] at ht
        exact hother t ht.2
      · by_cases hrest : t ∈ rest.map Prod.fst
        · exact htyped t hrest
        · rw [List.map_cons, List.mem_cons] at ht
          rcases ht with rfl | ht
          · exact ⟨x, type, (hother _ hrest).trans hid, hsame⟩
          · exact absurd ht hrest
    · obtain ⟨⟨later, g₁⟩, hlater, h⟩ := except_bind_eq_ok.1 h
      cases h
      have hset : ∀ t, (s.modifyTensor id fun t => { t with type? := some type }).tensor? t =
          if t = id then some { x with type? := some type } else s.tensor? t := by
        intro t
        rw [tensor?_modifyTensor]
        split
        · rename_i ht
          rw [ht, hid]
          rfl
        · rfl
      have hunread' : ∀ y ∈ rest, ∀ t, (s.modifyTensor id fun t =>
          { t with type? := some type }).tensor? y.1 = some t → t.readers.ops = [] := by
        intro y hy t ht
        rw [hset] at ht
        split at ht
        · cases ht
          exact hunread (id, type) List.mem_cons_self x hid
        · exact hunread y (List.mem_cons_of_mem _ hy) t ht
      obtain ⟨hlaternil, hop, hother, htyped⟩ := ih hlater hunread'
      refine ⟨?_, hop, fun t ht => ?_, fun t ht => ?_⟩
      · rw [hunread (id, type) List.mem_cons_self x hid, hlaternil]
        rfl
      · rw [List.map_cons, List.mem_cons, not_or] at ht
        rw [hother t ht.2, hset, if_neg ht.1]
      · by_cases hrest : t ∈ rest.map Prod.fst
        · exact htyped t hrest
        · rw [List.map_cons, List.mem_cons] at ht
          rcases ht with rfl | ht
          · refine ⟨{ x with type? := some type }, type, ?_, rfl⟩
            rw [hother _ hrest, hset, if_pos rfl]
          · exact absurd ht hrest

/-- With nothing waiting, nothing is settled. -/
theorem settleAll_nil (rounds : Nat) (visited : Std.ExtTreeSet OpId) (g : Graph) :
    settleAll rounds [] visited g = .ok g := by
  cases rounds <;> rfl

/-- Settling the new op gives its outputs their types and affects no other. -/
theorem Growing.settleOne (h : Growing g o s) {affected : List OpId}
    (hone : s.settleOne g.nextOp = .ok (affected, s')) :
    affected = [] ∧ Grown g { o with isSettled := true } s' := by
  have hself : s.op? g.nextOp = some o := by rw [h.op, if_pos rfl]
  simp only [Graph.settleOne] at hone
  obtain ⟨types, -, hone⟩ := except_bind_eq_ok.1 hone
  obtain ⟨o', ho', hone⟩ := except_bind_eq_ok.1 hone
  have ho : o' = o := Option.some.inj ((requireOp_eq_ok.1 ho').symm.trans hself)
  subst ho
  split at hone
  · cases hone
  · rename_i typed htyped
    obtain ⟨⟨later, s₂⟩, hwrite, hone⟩ := except_bind_eq_ok.1 hone
    cases hone
    have hnames : ∀ t, t ∈ typed.map Prod.fst ↔ ∃ i, o'.outputs.get? i = some t := by
      intro t
      rw [mapM_outputs htyped, List.mem_map]
      constructor
      · rintro ⟨⟨i, t'⟩, hmem, rfl⟩
        exact ⟨i, Ports.mem_toList.1 hmem⟩
      · rintro ⟨i, hi⟩
        exact ⟨(i, t), Ports.mem_toList.2 hi, rfl⟩
    -- nobody reads the outputs yet, so no op is affected
    have hunread : ∀ x ∈ typed, ∀ t, s.tensor? x.1 = some t → t.readers.ops = [] := by
      intro x hx t ht
      obtain ⟨i, hi⟩ := (hnames x.1).1 (List.mem_map_of_mem hx)
      rw [(h.made i x.1 hi).2] at ht
      cases ht
      rw [List.eq_nil_iff_forall_not_mem]
      intro r hr
      have hpos := Readers.mem_ops.1 hr
      rw [Readers.count_empty] at hpos
      omega
    have hretyped := retyped_writeTypes hwrite
    obtain ⟨hnone, hop, hother, htype⟩ := writeTypes_unread hwrite hunread
    -- only the outputs have got a type, and only the op is marked
    refine ⟨hnone, fun p => ?_, rfl, fun t ht => ?_, fun i t hi => ?_, fun t ht hno => ?_, h.inputs_old,
      hretyped.nextOp.trans h.nextOp, hretyped.scope.trans h.scope,
      hretyped.constraints.trans h.constraints, hretyped.inputs.trans h.inputs,
      hretyped.outputs.trans h.outputs⟩
    · rw [op?_modifyOp, hop, h.op]
      split <;> simp
    · have hnot : t ∉ typed.map Prod.fst := by
        intro hmem
        obtain ⟨i, hi⟩ := (hnames t).1 hmem
        rw [(h.made i t hi).1] at ht
        cases ht
      rw [tensor?_modifyOp, hother t hnot]
      exact h.kept t ht
    · obtain ⟨hold, hmade⟩ := h.made i t hi
      obtain ⟨x, type, hx, hxtype⟩ := htype t ((hnames t).2 ⟨i, hi⟩)
      refine ⟨hold, type, ?_⟩
      have huntyped := hretyped.tensor t
      rw [hx, hmade] at huntyped
      simp only [Option.map_some, Option.some.injEq, Tensor.untyped] at huntyped
      rw [tensor?_modifyOp, hx]
      cases x
      simp_all
    · have hnot : t ∉ typed.map Prod.fst := by
        intro hmem
        obtain ⟨i, hi⟩ := (hnames t).1 hmem
        exact hno i hi
      rw [tensor?_modifyOp, hother t hnot]
      exact h.unmade t ht hno

/-- Settling the new op stops there. -/
theorem Growing.settleOne_of_settle (h : Growing g o s) (hrun : s.settle g.nextOp = .ok s') :
    s.settleOne g.nextOp = .ok ([], s') := by
  unfold Graph.settle at hrun
  simp only [settleAll] at hrun
  rw [List.dropWhile_cons_of_neg (by simp)] at hrun
  obtain ⟨⟨affected, s₁⟩, hone, hrun⟩ := except_bind_eq_ok.1 hrun
  obtain ⟨rfl, -⟩ := h.settleOne hone
  have hdone : s' = s₁ := Except.ok.inj (hrun.symm.trans (settleAll_nil _ _ _))
  exact hdone ▸ hone

theorem Growing.settle (h : Growing g o s) (hrun : s.settle g.nextOp = .ok s') :
    Grown g { o with isSettled := true } s' :=
  (h.settleOne (h.settleOne_of_settle hrun)).2

/-- **Growing an op in one go**: it is wired, and then settled. -/
theorem growOp_eq_ok {operator : Operator} {settings : OpSettings}
    {inputs outputs : List (Nat × TensorId)} {op : OpId} {g' : Graph}
    (hnodup : (outputs.map Prod.fst).Nodup)
    (h : Edit.growOp operator settings inputs outputs g = .ok op g') :
    ∃ s, op = g.nextOp ∧ Growing g
        { operator, settings, inputs := (∅ : Ports).insertAll inputs
          outputs := (∅ : Ports).insertAll outputs } s ∧
      (g.WellWired → s.WellWired) ∧ s.settle g.nextOp = .ok g' := by
  obtain ⟨n, s₀, hcreate, h⟩ := bind_eq_ok.1 h
  obtain ⟨_, s₁, hin, h⟩ := bind_eq_ok.1 h
  obtain ⟨_, s₂, hout, h⟩ := bind_eq_ok.1 h
  obtain ⟨_, s₃, hsettle, h⟩ := bind_eq_ok.1 h
  obtain ⟨rfl, rfl⟩ := pure_eq_ok.1 h
  have hwired : g.WellWired → s₂.WellWired := fun hg =>
    (Edit.createOutputs_wellWired n outputs).ok ((Edit.connectInputs_wellWired n inputs).ok
      ((Edit.createOp_wellWired operator settings).ok hg hcreate) hin) hout
  rw [Edit.createOp_run] at hcreate
  cases hcreate
  have hinputs := (growing_withOp g operator settings).connectInputs (by simp) hin
  have houtputs := hinputs.createOutputs hnodup (by simp) hout
  exact ⟨s₂, rfl, houtputs, hwired, Edit.settle_eq_ok.1 hsettle⟩

/-! ## Section 4: Looking at a graph with one more op -/

variable {g' : Graph}

/-- Apart from its readers, a tensor is known by what it is without them. -/
theorem producer?_of_unread {t : TensorId}
    (h : (g'.tensor? t).map Tensor.unread = (g.tensor? t).map Tensor.unread) :
    g'.producer? t = g.producer? t := by
  have hunread : ∀ k : Graph, k.producer? t = ((k.tensor? t).map Tensor.unread).bind
      Tensor.producer? := by
    intro k
    cases hx : k.tensor? t <;> simp [producer?, hx]
  rw [hunread, hunread, h]

theorem kind?_of_unread {t : TensorId}
    (h : (g'.tensor? t).map Tensor.unread = (g.tensor? t).map Tensor.unread) :
    g'.kind? t = g.kind? t := by
  have hunread : ∀ k : Graph, k.kind? t = ((k.tensor? t).map Tensor.unread).map Tensor.kind := by
    intro k
    cases hx : k.tensor? t <;> simp [kind?, hx]
  rw [hunread, hunread, h]

theorem type?_of_unread {t : TensorId}
    (h : (g'.tensor? t).map Tensor.unread = (g.tensor? t).map Tensor.unread) :
    g'.type? t = g.type? t := by
  have hunread : ∀ k : Graph, k.type? t = ((k.tensor? t).map Tensor.unread).bind
      Tensor.type? := by
    intro k
    cases hx : k.tensor? t <;> simp [type?, hx]
  rw [hunread, hunread, h]

theorem typeOf_of_unread {t : TensorId}
    (h : (g'.tensor? t).map Tensor.unread = (g.tensor? t).map Tensor.unread) :
    g'.typeOf t = g.typeOf t := by
  unfold tensor? at h
  unfold typeOf typeIn
  cases hx' : g'.tensors[t]? with
  | none =>
    have hx : g.tensors[t]? = none := by simpa [hx'] using h.symm
    rw [hx]
  | some x' =>
    cases hx : g.tensors[t]? with
    | none => simp [hx', hx] at h
    | some x =>
      have hunread : x'.unread = x.unread := by simpa [hx', hx] using h
      have htype : x'.type? = x.type? := by
        rw [← x'.unread_type?, hunread, x.unread_type?]
      simp only [htype]

namespace Grown

theorem op_new (h : Grown g o g') : g'.op? g.nextOp = some o := by rw [h.op, if_pos rfl]

theorem op_old (h : Grown g o g') {p : OpId} (hp : p ≠ g.nextOp) : g'.op? p = g.op? p := by
  rw [h.op, if_neg hp]

theorem inputAt (h : Grown g o g') (p : OpId) (i : Nat) :
    g'.inputAt p i = if p = g.nextOp then o.inputs.get? i else g.inputAt p i := by
  unfold Graph.inputAt
  rw [h.op]
  split <;> rfl

theorem producer?_old (h : Grown g o g') {t : TensorId} (ht : (g.tensor? t).isSome) :
    g'.producer? t = g.producer? t := producer?_of_unread (h.kept t ht)

theorem kind?_old (h : Grown g o g') {t : TensorId} (ht : (g.tensor? t).isSome) :
    g'.kind? t = g.kind? t := kind?_of_unread (h.kept t ht)

theorem type?_old (h : Grown g o g') {t : TensorId} (ht : (g.tensor? t).isSome) :
    g'.type? t = g.type? t := type?_of_unread (h.kept t ht)

theorem producer?_new (h : Grown g o g') {i : Nat} {t : TensorId}
    (hi : o.outputs.get? i = some t) : g'.producer? t = some g.nextOp := by
  obtain ⟨-, type, hx⟩ := h.made i t hi
  simp [producer?, hx]

/-- A tensor of `g'` is one of `g` or an output of the new op. -/
theorem old_or_new (h : Grown g o g') {t : TensorId} (ht : (g'.tensor? t).isSome) :
    (g.tensor? t).isSome ∨ ∃ i, o.outputs.get? i = some t := by
  by_contra hboth
  rw [not_or] at hboth
  have hnone : g.tensor? t = none := by simpa using hboth.1
  have hno : ∀ i, o.outputs.get? i ≠ some t := fun i hi => hboth.2 ⟨i, hi⟩
  rw [h.unmade t hnone hno] at ht
  cases ht

end Grown

end Graph

end Dataflow
