import Dataflow.Proofs.Closure
import Dataflow.Proofs.Layering

/-! # What pruning leaves

    Pruning removes the ops that are not needed, and then the tensors that
    have lost their last wire with them.  What is needed is closed: with an op
    all tensors at its ports are needed, and with a tensor its producer is.
    So an output of a removed op is read by removed ops only, and goes with
    them; what stays is a layered graph with all declared outputs and all
    targets. -/

namespace Dataflow

open Dataflow.Graph

variable {g g' : Graph}

/-! ## Section 1: What removal leaves alone -/

/-- A tensor by itself, without the ops at its two ends. -/
def Tensor.unwired (t : Tensor) : Tensor := { t with producer? := none, readers := ∅ }

/-- Apart from `ops`, the wires to them and the constraints on them, nothing
    has changed. -/
structure Graph.Spares (ops : List OpId) (g g' : Graph) : Prop where
  op : ∀ o, o ∉ ops → g'.op? o = g.op? o
  tensor : ∀ t, (g'.tensor? t).map Tensor.unwired = (g.tensor? t).map Tensor.unwired
  constraints : ∀ e ∈ g'.constraints.toList, e ∈ g.constraints.toList
  constraints_kept : ∀ e ∈ g.constraints.toList, e.before ∉ ops → e.after ∉ ops →
    e ∈ g'.constraints.toList
  scope : g'.scope = g.scope
  inputs : g'.inputs = g.inputs
  outputs : g'.outputs = g.outputs
  nextOp : g'.nextOp = g.nextOp

namespace Graph.Spares

theorem refl (ops : List OpId) (g : Graph) : Spares ops g g :=
  ⟨fun _ _ => rfl, fun _ => rfl, fun _ he => he, fun _ he _ _ => he, rfl, rfl, rfl, rfl⟩

theorem trans {ops : List OpId} {g'' : Graph} (h : Spares ops g g') (h' : Spares ops g' g'') :
    Spares ops g g'' where
  op o ho := (h'.op o ho).trans (h.op o ho)
  tensor t := (h'.tensor t).trans (h.tensor t)
  constraints e he := h.constraints e (h'.constraints e he)
  constraints_kept e he hb ha := h'.constraints_kept e (h.constraints_kept e he hb ha) hb ha
  scope := h'.scope.trans h.scope
  inputs := h'.inputs.trans h.inputs
  outputs := h'.outputs.trans h.outputs
  nextOp := h'.nextOp.trans h.nextOp

theorem mono {ops ops' : List OpId} (h : Spares ops g g') (hsub : ∀ o ∈ ops, o ∈ ops') :
    Spares ops' g g' := { h with
  op := fun o ho => h.op o fun hmem => ho (hsub o hmem)
  constraints_kept := fun e he hb ha =>
    h.constraints_kept e he (fun hmem => hb (hsub _ hmem)) fun hmem => ha (hsub _ hmem) }

/-- A change of one op. -/
theorem modifyOp (g : Graph) (op : OpId) (f : Op → Op) : Spares [op] g (g.modifyOp op f) :=
  { refl [op] g with
    op := fun o ho => by rw [op?_modifyOp, if_neg (by simpa using ho)] }

/-- A change of the wires at one tensor. -/
theorem modifyTensor (ops : List OpId) (g : Graph) (id : TensorId) {f : Tensor → Tensor}
    (hf : ∀ t, (f t).unwired = t.unwired) : Spares ops g (g.modifyTensor id f) :=
  { refl ops g with
    tensor := fun t => by
      rw [tensor?_modifyTensor]
      split
      · cases g.tensor? t <;> simp [hf]
      · rfl }

theorem exists_iff {ops : List OpId} (h : Spares ops g g') (t : TensorId) :
    (g'.tensor? t).isSome = (g.tensor? t).isSome := by
  simpa using congrArg Option.isSome (h.tensor t)

end Graph.Spares

namespace Edit

theorem disconnectInput_spares {op : OpId} {index : Nat} {tensor : TensorId}
    (h : disconnectInput op index g = .ok tensor g') : Spares [op] g g' := by
  obtain ⟨o, -, h⟩ := ask_bind_eq_ok.1 h
  cases hi : o.inputs.get? index with
  | none =>
    simp only [hi] at h
    cases h
  | some t =>
    simp only [hi] at h
    obtain ⟨_, g₁, hchange, h⟩ := bind_eq_ok.1 h
    have hg₁ := change_eq_ok.1 hchange
    subst hg₁
    obtain ⟨x, -, h⟩ := ask_bind_eq_ok.1 h
    obtain ⟨_, g₂, hdrop, h⟩ := bind_eq_ok.1 h
    have hg₂ := change_eq_ok.1 hdrop
    have hg' : g' = g₂ := by
      split at h
      · exact (pure_eq_ok.1 h).2.symm
      · obtain ⟨_, _, h, -⟩ := bind_eq_ok.1 h
        cases h
    subst hg'
    subst hg₂
    exact (Spares.modifyOp g op _).trans (.modifyTensor [op] _ t fun _ => rfl)

theorem disconnectOutput_spares {op : OpId} {index : Nat} {tensor : TensorId}
    (h : disconnectOutput op index g = .ok tensor g') : Spares [op] g g' := by
  obtain ⟨o, -, h⟩ := ask_bind_eq_ok.1 h
  cases hi : o.outputs.get? index with
  | none =>
    simp only [hi] at h
    cases h
  | some t =>
    simp only [hi] at h
    obtain ⟨_, g₁, hchange, h⟩ := bind_eq_ok.1 h
    have hg₁ := change_eq_ok.1 hchange
    subst hg₁
    obtain ⟨x, -, h⟩ := ask_bind_eq_ok.1 h
    obtain ⟨_, g₂, hset, h⟩ := bind_eq_ok.1 h
    have hg₂ := change_eq_ok.1 hset
    subst hg₂
    obtain ⟨-, rfl⟩ := pure_eq_ok.1 h
    exact (Spares.modifyOp g op _).trans (.modifyTensor [op] _ t fun _ => rfl)

theorem disconnectAll_spares {op : OpId} {u : Unit} (h : disconnectAll op g = .ok u g') :
    Spares [op] g g' := by
  obtain ⟨o, -, h⟩ := ask_bind_eq_ok.1 h
  obtain ⟨_, g₁, hin, hout⟩ := bind_eq_ok.1 h
  have h₁ : Spares [op] g g₁ := by
    refine forM_ok hin (Spares.refl _ g) fun x _ t t' v ht hx => ht.trans ?_
    obtain ⟨_, t₁, hdisconnect, hpure⟩ := bind_eq_ok.1 hx
    obtain ⟨-, rfl⟩ := pure_eq_ok.1 hpure
    exact disconnectInput_spares hdisconnect
  refine forM_ok hout h₁ fun x _ t t' v ht hx => ht.trans ?_
  obtain ⟨_, t₁, hdisconnect, hpure⟩ := bind_eq_ok.1 hx
  obtain ⟨-, rfl⟩ := pure_eq_ok.1 hpure
  exact disconnectOutput_spares hdisconnect

theorem eraseOp_eq_ok {op : OpId} {o : Op} (h : eraseOp op g = .ok o g') :
    g' = g.withoutOp op := by
  rw [eraseOp_eq] at h
  obtain ⟨x, -, h⟩ := ask_bind_eq_ok.1 h
  split at h
  · obtain ⟨_, g₁, hchange, h⟩ := bind_eq_ok.1 h
    obtain ⟨-, rfl⟩ := pure_eq_ok.1 h
    exact change_eq_ok.1 hchange
  · obtain ⟨_, _, h, -⟩ := bind_eq_ok.1 h
    cases h

/-- **Removing ops** removes them and spares the rest. -/
theorem eraseOps_eq_ok {ops : List OpId} {u : Unit} (h : eraseOps ops g = .ok u g') :
    Spares ops g g' ∧ ∀ o ∈ ops, g'.op? o = none := by
  unfold eraseOps at h
  induction ops generalizing g with
  | nil =>
    obtain ⟨-, rfl⟩ := pure_eq_ok.1 h
    exact ⟨Spares.refl _ g, by simp⟩
  | cons op rest ih =>
    obtain ⟨_, g₂, hop, hrest⟩ := forM_cons_eq_ok.1 h
    obtain ⟨_, g₁, hdisconnect, hop⟩ := bind_eq_ok.1 hop
    obtain ⟨_, g₃, herase, hpure⟩ := bind_eq_ok.1 hop
    obtain ⟨-, rfl⟩ := pure_eq_ok.1 hpure
    have hg₃ := eraseOp_eq_ok herase
    have herased : Spares [op] g₁ g₃ := by
      subst hg₃
      refine ⟨fun o ho => ?_, fun _ => rfl, fun e he => ?_, fun e he hb ha => ?_, rfl, rfl, rfl,
        rfl⟩
      · rw [op?_withoutOp, if_neg (by simpa using ho)]
      · exact (Constraints.mem_toList_erase.1 he).1
      · exact Constraints.mem_toList_erase.2 ⟨he, by simpa using hb, by simpa using ha⟩
    have hgone : g₃.op? op = none := by
      rw [hg₃, op?_withoutOp, if_pos rfl]
    obtain ⟨hspares, hall⟩ := ih hrest
    have hfirst : Spares (op :: rest) g g₃ :=
      ((disconnectAll_spares hdisconnect).trans herased).mono (by simp)
    refine ⟨hfirst.trans (hspares.mono fun o ho => List.mem_cons_of_mem op ho), fun o ho => ?_⟩
    by_cases hmem : o ∈ rest
    · exact hall o hmem
    · have heq : o = op := (List.mem_cons.1 ho).resolve_right hmem
      rw [hspares.op o hmem, heq]
      exact hgone

end Edit

/-- `g'` is `g` without the tensors in `ids` and without their declarations. -/
structure Graph.Lacks (ids : List TensorId) (g g' : Graph) : Prop where
  tensor : ∀ t, g'.tensor? t = if t ∈ ids then none else g.tensor? t
  op : ∀ o, g'.op? o = g.op? o
  constraints : g'.constraints = g.constraints
  scope : g'.scope = g.scope
  inputs : g'.inputs = g.inputs.filter (· ∉ ids)
  outputs : g'.outputs = g.outputs.filter (· ∉ ids)
  nextOp : g'.nextOp = g.nextOp

namespace Edit

/-- **Removing tensors** removes them and their declarations. -/
theorem removeTensors_eq_ok {ids : List TensorId} {u : Unit}
    (h : removeTensors ids g = .ok u g') : Lacks ids g g' := by
  unfold removeTensors at h
  induction ids generalizing g with
  | nil =>
    obtain ⟨-, rfl⟩ := pure_eq_ok.1 h
    exact ⟨fun t => by simp, fun _ => rfl, rfl, rfl, by simp, by simp, rfl⟩
  | cons id rest ih =>
    obtain ⟨_, g₂, hid, hrest⟩ := forM_cons_eq_ok.1 h
    obtain ⟨x, g₁, hremove, hpure⟩ := bind_eq_ok.1 hid
    obtain ⟨-, rfl⟩ := pure_eq_ok.1 hpure
    obtain ⟨-, -, hg₁⟩ := removeTensor_eq_ok.1 hremove
    have hlacks := ih hrest
    subst hg₁
    -- one declaration after the other is filtered out
    have hfilter : ∀ names : List TensorId, (names.filter (· ≠ id)).filter (· ∉ rest)
        = names.filter (· ∉ id :: rest) := by
      intro names
      rw [List.filter_filter]
      refine List.filter_congr fun t _ => ?_
      by_cases ht : t = id <;> simp [ht]
    refine ⟨fun t => ?_, hlacks.op, hlacks.constraints, hlacks.scope,
      hlacks.inputs.trans (hfilter _), hlacks.outputs.trans (hfilter _), hlacks.nextOp⟩
    rw [hlacks.tensor, tensor?_without]
    by_cases ht : t = id <;> by_cases hr : t ∈ rest <;> simp [ht, hr]

end Edit

/-! ## Section 2: What is needed -/

namespace Graph

/-- The ops and tensors of a graph. -/
def parts (g : Graph) : List Part := g.opIds.map .op ++ g.tensorIds.map .tensor

theorem mem_parts_op {o : OpId} : Part.op o ∈ g.parts ↔ (g.op? o).isSome := by
  rw [← mem_opIds]
  simp [parts]

theorem mem_parts_tensor {t : TensorId} : Part.tensor t ∈ g.parts ↔ (g.tensor? t).isSome := by
  rw [← mem_tensorIds]
  simp [parts]

theorem length_parts (g : Graph) : g.parts.length = g.ops.size + g.tensors.size := by
  simp [parts, opIds, tensorIds]

/-- An op needs the tensors at its ports. -/
theorem mem_needs_op {o : OpId} {t : TensorId} : Part.tensor t ∈ g.needs (.op o) ↔
    (∃ i, g.inputAt o i = some t) ∨ ∃ i, g.outputAt o i = some t := by
  cases ho : g.op? o with
  | none => simp [needs, inputAt, outputAt, ho]
  | some x => simp [needs, inputAt, outputAt, ho, Ports.mem_tensors]

/-- A tensor needs its producer. -/
theorem producer_mem_needs {t : TensorId} {o : OpId} (h : g.producer? t = some o) :
    Part.op o ∈ g.needs (.tensor t) := by
  cases hx : g.tensor? t with
  | none => simp [producer?, hx] at h
  | some x =>
    have hp : x.producer? = some o := by simpa [producer?, hx] using h
    simp [needs, hx, hp]

/-- Parts need parts. -/
theorem WellWired.needs_parts (h : g.WellWired) {x : Part} : ∀ y ∈ g.needs x, y ∈ g.parts := by
  intro y hy
  cases x with
  | op o =>
    have htensor : ∃ t, y = .tensor t := by
      unfold needs at hy
      simp only at hy
      split at hy
      · obtain ⟨t, -, rfl⟩ := List.mem_map.1 hy
        exact ⟨t, rfl⟩
      · cases hy
    obtain ⟨t, rfl⟩ := htensor
    rw [mem_parts_tensor]
    rcases mem_needs_op.1 hy with ⟨i, hi⟩ | ⟨i, hi⟩
    · obtain ⟨z, hz⟩ := h.input_exists hi
      simp [hz]
    · obtain ⟨z, hz, -⟩ := h.output_exists hi
      simp [hz]
  | tensor t =>
    unfold needs at hy
    simp only at hy
    split at hy
    · rename_i z hz
      obtain ⟨o, ho, rfl⟩ := List.mem_map.1 hy
      rw [mem_parts_op]
      rcases List.mem_append.1 ho with ho | ho
      · obtain ⟨w, hw⟩ := h.producer_exists (o := o) (t := t) (by simpa [producer?, hz] using ho)
        simp [hw]
      · have hr : o ∈ g.readers t := by
          unfold readers
          rw [hz]
          exact (List.mem_filter.1 ho).1
        obtain ⟨w, hw⟩ := h.reader_exists hr
        simp [hw]
    · cases hy

theorem roots_parts (g : Graph) (targets : List TensorId) : ∀ x ∈ g.roots targets, x ∈ g.parts := by
  intro x hx
  rcases List.mem_append.1 hx with hx | hx
  · obtain ⟨o, ho, rfl⟩ := List.mem_map.1 hx
    obtain ⟨⟨o', z⟩, hmem, hz⟩ := List.mem_filterMap.1 ho
    simp only at hz
    split at hz
    · cases hz
      have hop : g.op? o = some z := Std.ExtTreeMap.mem_toList_iff_getElem?_eq_some.1 hmem
      rw [mem_parts_op, hop]
      rfl
    · cases hz
  · obtain ⟨t, ht, rfl⟩ := List.mem_map.1 hx
    rw [mem_parts_tensor, ← contains_tensors]
    exact (List.mem_filter.1 ht).2

variable {targets : List TensorId}

/-- **What is needed is closed**: it holds the roots, and with a part all that
    the part needs. -/
theorem WellWired.mem_required (h : g.WellWired) {x : Part} :
    x ∈ g.required targets ↔ ∃ r ∈ g.roots targets, Reaches g.needs r x :=
  mem_closure (fun _ _ => h.needs_parts) (g.roots_parts targets) (Nat.le_of_eq g.length_parts)

theorem WellWired.required_step (h : g.WellWired) {x y : Part} (hx : x ∈ g.required targets)
    (hy : y ∈ g.needs x) : y ∈ g.required targets := by
  obtain ⟨r, hr, hreach⟩ := h.mem_required.1 hx
  exact h.mem_required.2 ⟨r, hr, hreach.tail hy⟩

/-- Only parts of a graph are needed. -/
theorem WellWired.parts_of_required (h : g.WellWired) {x : Part} (hx : x ∈ g.required targets) :
    x ∈ g.parts := by
  obtain ⟨r, hr, hreach⟩ := h.mem_required.1 hx
  cases hreach with
  | refl => exact g.roots_parts targets _ hr
  | tail _ hlast => exact h.needs_parts _ hlast

/-- Declared outputs and targets that exist are needed. -/
theorem WellWired.required_root (h : g.WellWired) {t : TensorId} (ht : t ∈ g.outputs ++ targets)
    (hx : (g.tensor? t).isSome) : Part.tensor t ∈ g.required targets := by
  refine h.mem_required.2 ⟨.tensor t, List.mem_append_right _ (List.mem_map_of_mem ?_), .refl⟩
  exact List.mem_filter.2 ⟨ht, by rwa [contains_tensors]⟩

/-! ## Section 3: Pruning -/

theorem mem_deadTensors {kept : List Part} {t : TensorId} :
    t ∈ g.deadTensors kept ↔
      ∃ x, g.tensor? t = some x ∧ Part.tensor t ∉ kept ∧ x.kind ≠ .var ∧ x.isDetached := by
  rw [deadTensors, List.mem_filterMap]
  constructor
  · rintro ⟨⟨t', x⟩, hmem, hx⟩
    simp only at hx
    split at hx
    · rename_i hcond
      cases hx
      simp only [Bool.and_eq_true, Bool.not_eq_true', List.contains_eq_mem,
        decide_eq_true_eq, decide_eq_false_iff_not] at hcond
      exact ⟨x, Std.ExtTreeMap.mem_toList_iff_getElem?_eq_some.1 hmem, hcond.1.1, hcond.1.2,
        hcond.2⟩
    · cases hx
  · rintro ⟨x, hx, hnot, hkind, hdetached⟩
    refine ⟨(t, x), Std.ExtTreeMap.mem_toList_iff_getElem?_eq_some.2 hx, ?_⟩
    simp [hnot, hkind, hdetached]

/-- What a successful pruning has done: it has removed the ops that are not
    needed, and the tensors that are neither needed nor wired any more. -/
theorem prune_eq_ok {report : PruneReport} (h : Graph.prune targets g = .ok report g') :
    ∃ g₁ dead u v,
      Edit.eraseOps (g.opIds.filter fun op => !(g.required targets).contains (.op op)) g
        = .ok u g₁ ∧ Edit.removeTensors dead g₁ = .ok v g' ∧
      ∀ t, t ∈ dead ↔ ∃ x, g₁.tensor? t = some x ∧ Part.tensor t ∉ g.required targets ∧
        x.kind ≠ .var ∧ x.isDetached := by
  unfold Graph.prune at h
  simp only at h
  split at h
  · cases h
  · split at h
    · rename_i hops
      cases h
      obtain ⟨u, g₁, herase, hops⟩ := bind_eq_ok.1 hops
      obtain ⟨_, g₂, hget, hops⟩ := bind_eq_ok.1 hops
      obtain ⟨rfl, rfl⟩ := get_eq_ok.1 hget
      obtain ⟨v, g₃, hremove, hops⟩ := bind_eq_ok.1 hops
      obtain ⟨-, rfl⟩ := pure_eq_ok.1 hops
      exact ⟨g₁, g₁.deadTensors (g.required targets), u, v, herase, hremove,
        fun t => mem_deadTensors⟩
    · cases h

/-- An op survives pruning exactly if it is needed. -/
theorem mem_doomed {o : OpId} :
    o ∈ g.opIds.filter (fun op => !(g.required targets).contains (.op op)) ↔
      (g.op? o).isSome ∧ Part.op o ∉ g.required targets := by
  rw [List.mem_filter, mem_opIds]
  simp

/-- What pruning for `targets` has made of `g`. -/
structure Pruned (targets : List TensorId) (g g' : Graph) : Prop where
  wellWired : g'.WellWired
  /-- Exactly the ops that are needed are left, as they were. -/
  op : ∀ o, g'.op? o = if Part.op o ∈ g.required targets then g.op? o else none
  /-- A tensor that is left is as it was, but for its wires. -/
  tensor : ∀ t, (g'.tensor? t).isSome →
    (g'.tensor? t).map Tensor.unwired = (g.tensor? t).map Tensor.unwired
  /-- What is needed has stayed, and so have all variables. -/
  kept : ∀ t, Part.tensor t ∈ g.required targets ∨ g.kind? t = some .var →
    (g.tensor? t).isSome → (g'.tensor? t).isSome
  /-- What is left without being needed is a variable or still wired. -/
  left : ∀ t, Part.tensor t ∉ g.required targets → (g'.tensor? t).isSome →
    g'.kind? t = some .var ∨ (∃ o i, g'.inputAt o i = some t) ∨ ∃ o i, g'.outputAt o i = some t
  constraints : ∀ e, e ∈ g'.constraints.toList ↔ e ∈ g.constraints.toList ∧
    Part.op e.before ∈ g.required targets ∧ Part.op e.after ∈ g.required targets
  scope : g'.scope = g.scope
  inputs : g'.inputs = g.inputs.filter fun t => (g'.tensor? t).isSome
  outputs : g'.outputs = g.outputs
  nextOp : g'.nextOp = g.nextOp

theorem WellWired.pruned {report : PruneReport} (h : g.WellWired)
    (hrun : Graph.prune targets g = .ok report g') : Pruned targets g g' := by
  have hw := (keptByEdits_wellWired.prune targets).ok h hrun
  obtain ⟨g₁, dead, u, v, herase, hremove, hdead⟩ := prune_eq_ok hrun
  obtain ⟨hspares, hgone⟩ := Edit.eraseOps_eq_ok herase
  have hlacks := Edit.removeTensors_eq_ok hremove
  have hw₁ : g₁.WellWired := (keptByEdits_wellWired.eraseOps _).ok h herase
  have hkind : ∀ t x, g₁.tensor? t = some x → g.kind? t = some x.kind := by
    intro t x hx
    have hsame := hspares.tensor t
    rw [hx] at hsame
    obtain ⟨y, hy, heq⟩ := Option.map_eq_some_iff.1 hsame.symm
    have hkinds : y.unwired.kind = x.unwired.kind := congrArg Tensor.kind heq
    rw [kind?, hy, Option.map_some]
    exact congrArg some hkinds
  have hop : ∀ o, g'.op? o = if Part.op o ∈ g.required targets then g.op? o else none := by
    intro o
    rw [hlacks.op]
    split
    · rename_i hneed
      exact hspares.op o fun hmem => (mem_doomed.1 hmem).2 hneed
    · rename_i hneed
      by_cases ho : (g.op? o).isSome
      · exact hgone o (mem_doomed.2 ⟨ho, hneed⟩)
      · rw [hspares.op o fun hmem => ho (mem_doomed.1 hmem).1]
        simpa using ho
  -- a declared name is dropped exactly if its tensor has been removed
  have hdeclared : ∀ t, (g₁.tensor? t).isSome → decide (t ∉ dead) = (g'.tensor? t).isSome := by
    intro t ht
    rw [hlacks.tensor]
    by_cases hmem : t ∈ dead <;> simp [hmem, ht]
  refine ⟨hw, hop, fun t ht => ?_, fun t ht hx => ?_, fun t ht hx => ?_, fun e => ?_,
    hlacks.scope.trans hspares.scope, ?_, ?_, hlacks.nextOp.trans hspares.nextOp⟩
  · rw [hlacks.tensor] at ht ⊢
    split at ht
    · cases ht
    · rename_i hnot
      rw [if_neg hnot]
      exact hspares.tensor t
  · have hnot : t ∉ dead := fun hmem => by
      obtain ⟨x, hx₁, hneed, hvar, -⟩ := (hdead t).1 hmem
      rcases ht with ht | ht
      · exact hneed ht
      · rw [hkind t x hx₁] at ht
        exact hvar (Option.some.inj ht)
    rw [hlacks.tensor, if_neg hnot, hspares.exists_iff]
    exact hx
  · rw [hlacks.tensor] at hx
    split at hx
    · cases hx
    · rename_i hnot
      obtain ⟨x, hx⟩ := Option.isSome_iff_exists.1 hx
      have hx' : g'.tensor? t = some x := by rw [hlacks.tensor, if_neg hnot, hx]
      by_cases hvar : x.kind = .var
      · left
        simp [kind?, hx', hvar]
      · -- a detached tensor would have been removed
        have hwired : ¬ x.isDetached := fun hd => hnot ((hdead t).2 ⟨x, hx, ht, hvar, hd⟩)
        rw [Edit.isDetached_iff] at hwired
        right
        by_cases hp : x.producer? = none
        · left
          have hcount : ∃ o, 0 < x.readers.count o := by
            by_contra hall
            refine hwired ⟨hp, fun o => ?_⟩
            by_contra hne
            exact hall ⟨o, Nat.pos_of_ne_zero hne⟩
          obtain ⟨o, ho⟩ := hcount
          have hreader : o ∈ g'.readers t := readCount_pos.1 (by simpa [readCount, hx'] using ho)
          exact ⟨o, hw.reader_iff.1 hreader⟩
        · right
          obtain ⟨o, ho⟩ := Option.ne_none_iff_exists'.1 hp
          exact ⟨o, (hw.produces t o).1 (by simp [producer?, hx', ho])⟩
  · constructor
    · -- what is still constrained is still there, and so it is needed
      intro he
      obtain ⟨hb, ha⟩ := hw.constrained e he
      rw [hop] at hb ha
      refine ⟨hspares.constraints e (hlacks.constraints ▸ he), ?_, ?_⟩
      · by_contra hneed
        simp [hneed] at hb
      · by_contra hneed
        simp [hneed] at ha
    · rintro ⟨he, hb, ha⟩
      rw [hlacks.constraints]
      exact hspares.constraints_kept e he (fun hmem => (mem_doomed.1 hmem).2 hb)
        fun hmem => (mem_doomed.1 hmem).2 ha
  · rw [hlacks.inputs, hspares.inputs]
    refine List.filter_congr fun t ht => hdeclared t ?_
    exact hw₁.declared t (List.mem_append_left _ (hspares.inputs ▸ ht))
  · rw [hlacks.outputs, hspares.outputs]
    refine List.filter_eq_self.2 fun t ht => ?_
    have hexists := h.declared t (List.mem_append_right _ ht)
    have hneed : Part.tensor t ∈ g.required targets :=
      h.required_root (List.mem_append_left _ ht) hexists
    simp only [decide_eq_true_eq]
    intro hmem
    obtain ⟨x, -, hnot, -⟩ := (hdead t).1 hmem
    exact hnot hneed

namespace Pruned

theorem kind (h : Pruned targets g g') {t : TensorId} (ht : (g'.tensor? t).isSome) :
    g'.kind? t = g.kind? t := by
  have hunwired : ∀ k : Graph, k.kind? t = ((k.tensor? t).map Tensor.unwired).map Tensor.kind := by
    intro k
    cases hx : k.tensor? t <;> simp [kind?, hx, Tensor.unwired]
  rw [hunwired, hunwired, h.tensor t ht]

/-- A wire that is left was there, and its op is needed. -/
theorem inputAt_eq_some (h : Pruned targets g g') {o : OpId} {i : Nat} {t : TensorId} :
    g'.inputAt o i = some t ↔ Part.op o ∈ g.required targets ∧ g.inputAt o i = some t := by
  unfold inputAt
  rw [h.op]
  split <;> simp [*]

theorem outputAt_eq_some (h : Pruned targets g g') {o : OpId} {i : Nat} {t : TensorId} :
    g'.outputAt o i = some t ↔ Part.op o ∈ g.required targets ∧ g.outputAt o i = some t := by
  unfold outputAt
  rw [h.op]
  split <;> simp [*]

/-- A producer is left exactly if it is needed. -/
theorem producer?_eq_some (h : Pruned targets g g') (hg : g.WellWired) {t : TensorId} {o : OpId} :
    g'.producer? t = some o ↔ Part.op o ∈ g.required targets ∧ g.producer? t = some o := by
  rw [h.wellWired.produces, hg.produces]
  simp only [h.outputAt_eq_some]
  exact ⟨fun ⟨i, hneed, hi⟩ => ⟨hneed, i, hi⟩, fun ⟨hneed, i, hi⟩ => ⟨i, hneed, hi⟩⟩

/-- Only variables are left without being needed: an op that is left needs all
    that is wired to it. -/
theorem var_of_left (h : Pruned targets g g') (hg : g.WellWired) {t : TensorId}
    (hnot : Part.tensor t ∉ g.required targets) (ht : (g'.tensor? t).isSome) :
    g'.kind? t = some .var := by
  rcases h.left t hnot ht with hvar | ⟨r, i, hi⟩ | ⟨q, i, hi⟩
  · exact hvar
  · obtain ⟨hneed, hi⟩ := h.inputAt_eq_some.1 hi
    exact absurd (hg.required_step hneed (mem_needs_op.2 (.inl ⟨i, hi⟩))) hnot
  · obtain ⟨hneed, hi⟩ := h.outputAt_eq_some.1 hi
    exact absurd (hg.required_step hneed (mem_needs_op.2 (.inr ⟨i, hi⟩))) hnot

/-- The producer of a tensor that is left is needed. -/
theorem producer_needed (h : Pruned targets g g') (hg : g.WellWired) {t : TensorId} {o : OpId}
    (ht : (g'.tensor? t).isSome) (ho : g.producer? t = some o) :
    Part.op o ∈ g.required targets := by
  by_cases hmem : Part.tensor t ∈ g.required targets
  · exact hg.required_step hmem (producer_mem_needs ho)
  · have hvar := (h.kind ht).symm.trans (h.var_of_left hg hmem ht)
    rw [hg.computed t o ho] at hvar
    cases hvar

/-- Every computed tensor that is left has kept its producer. -/
theorem produced (h : Pruned targets g g') (hg : g.WellWired) (hp : g.Produced) : g'.Produced := by
  intro t ht
  have hexists := tensor_of_kind ht
  obtain ⟨o, ho⟩ := Option.isSome_iff_exists.1 (hp t ((h.kind hexists).symm.trans ht))
  rw [(h.producer?_eq_some hg).2 ⟨h.producer_needed hg hexists ho, ho⟩]
  rfl

end Pruned

/-- **Pruning keeps the layers**, the declared outputs, and the targets with
    their producers. -/
theorem Layered.prune {report : PruneReport} (h : g.Layered)
    (hrun : Graph.prune targets g = .ok report g') :
    g'.Layered ∧ (∀ t ∈ g.outputs, t ∈ g'.outputs) ∧
      ∀ t ∈ targets, (g.producer? t).isSome → (g'.producer? t).isSome := by
  have hg := h.wellWired
  have hpruned := hg.pruned hrun
  refine ⟨⟨hpruned.wellWired, hpruned.produced hg h.produced, ?_, ?_⟩, fun t ht => ?_,
    fun t ht hp => ?_⟩
  · intro o i t p hi hp
    obtain ⟨-, hi⟩ := hpruned.inputAt_eq_some.1 hi
    obtain ⟨-, hp⟩ := (hpruned.producer?_eq_some hg).1 hp
    exact h.forward o i t p hi hp
  · rw [List.eq_nil_iff_forall_not_mem]
    intro e he
    have hold := ((hpruned.constraints e).1 he).1
    rw [h.unconstrained] at hold
    cases hold
  · rw [hpruned.outputs]
    exact ht
  · obtain ⟨o, ho⟩ := Option.isSome_iff_exists.1 hp
    have hroot := hg.required_root (List.mem_append_right _ ht) (tensor_of_producer ho)
    have hneed := hg.required_step hroot (producer_mem_needs ho)
    rw [(hpruned.producer?_eq_some hg).2 ⟨hneed, ho⟩]
    rfl

end Graph

end Dataflow
