import Dataflow.Graph.Order
import Dataflow.Proofs.Editing

/-! # Rewiring keeps the wiring

    The edits that create and erase ops, move wires and add constraints, one
    after the other.  Each of the wire edits is first brought into the form of
    a function on graphs, whose look-ups are then compared with those that
    `WellWired.set_input` and `WellWired.set_output` ask for. -/

namespace Dataflow

namespace Graph

variable {g g' : Graph}

/-! ## Section 1: Look-ups after changes at one end of a wire -/

theorem readCount_dropReader (g : Graph) (tensor t : TensorId) (op o : OpId) :
    (g.dropReader tensor op).readCount t o =
      if o = op then g.readCount t o - (if tensor = t then 1 else 0) else g.readCount t o := by
  by_cases ht : t = tensor
  · subst ht
    cases hx : g.tensor? t <;> by_cases ho : o = op <;>
      simp [readCount, dropReader, hx, Readers.count_drop, ho]
  · have ht' : ¬ tensor = t := fun e => ht e.symm
    simp [readCount, dropReader, ht, ht']

theorem readCount_addReader {g : Graph} {tensor : TensorId} (hx : (g.tensor? tensor).isSome)
    (t : TensorId) (op o : OpId) :
    (g.addReader tensor op).readCount t o =
      if o = op then g.readCount t o + (if tensor = t then 1 else 0) else g.readCount t o := by
  obtain ⟨x, hx⟩ := Option.isSome_iff_exists.1 hx
  by_cases ht : t = tensor
  · subst ht
    by_cases ho : o = op <;> simp [readCount, addReader, hx, Readers.count_add, ho]
  · have ht' : ¬ tensor = t := fun e => ht e.symm
    simp [readCount, addReader, ht, ht']

@[simp] theorem producer?_addReader (g : Graph) (tensor t : TensorId) (op : OpId) :
    (g.addReader tensor op).producer? t = g.producer? t := by
  simp only [producer?, addReader, tensor?_modifyTensor]
  split <;> cases g.tensor? t <;> simp

@[simp] theorem producer?_dropReader (g : Graph) (tensor t : TensorId) (op : OpId) :
    (g.dropReader tensor op).producer? t = g.producer? t := by
  simp only [producer?, dropReader, tensor?_modifyTensor]
  split <;> cases g.tensor? t <;> simp

@[simp] theorem producer?_modifyOp (g : Graph) (op : OpId) (f : Op → Op) (t : TensorId) :
    (g.modifyOp op f).producer? t = g.producer? t := rfl

@[simp] theorem readCount_modifyOp (g : Graph) (op o : OpId) (f : Op → Op) (t : TensorId) :
    (g.modifyOp op f).readCount t o = g.readCount t o := rfl

theorem producer?_setProducer {g : Graph} {tensor : TensorId} (hx : (g.tensor? tensor).isSome)
    (producer? : Option OpId) (t : TensorId) :
    (g.setProducer tensor producer?).producer? t =
      if tensor = t then producer? else g.producer? t := by
  obtain ⟨x, hx⟩ := Option.isSome_iff_exists.1 hx
  by_cases ht : t = tensor
  · subst ht
    simp [Graph.producer?, setProducer, hx]
  · have ht' : ¬ tensor = t := fun e => ht e.symm
    simp [Graph.producer?, setProducer, ht, ht']

@[simp] theorem readCount_setProducer (g : Graph) (tensor t : TensorId)
    (producer? : Option OpId) (o : OpId) :
    (g.setProducer tensor producer?).readCount t o = g.readCount t o := by
  simp only [readCount, setProducer, tensor?_modifyTensor]
  split <;> cases g.tensor? t <;> simp

theorem sameParts_addReader (g : Graph) (tensor : TensorId) (op : OpId) :
    SameParts g (g.addReader tensor op) :=
  SameParts.modifyTensor g tensor _ fun _ => rfl

theorem sameParts_dropReader (g : Graph) (tensor : TensorId) (op : OpId) :
    SameParts g (g.dropReader tensor op) :=
  SameParts.modifyTensor g tensor _ fun _ => rfl

theorem sameParts_setProducer (g : Graph) (tensor : TensorId) (producer? : Option OpId) :
    SameParts g (g.setProducer tensor producer?) :=
  SameParts.modifyTensor g tensor _ fun _ => rfl

theorem inputAt_modifyOp (g : Graph) (op o : OpId) (f : Op → Op) (i : Nat) :
    (g.modifyOp op f).inputAt o i =
      if o = op then (g.op? o).bind fun x => (f x).inputs.get? i else g.inputAt o i := by
  simp only [inputAt, op?_modifyOp]
  split <;> cases g.op? o <;> simp

theorem outputAt_modifyOp (g : Graph) (op o : OpId) (f : Op → Op) (i : Nat) :
    (g.modifyOp op f).outputAt o i =
      if o = op then (g.op? o).bind fun x => (f x).outputs.get? i else g.outputAt o i := by
  simp only [outputAt, op?_modifyOp]
  split <;> cases g.op? o <;> simp

/-- A change of an op that leaves its ports alone changes no wire. -/
theorem WellWired.modifyOp (h : g.WellWired) (op : OpId) {f : Op → Op}
    (hin : ∀ x, (f x).inputs = x.inputs) (hout : ∀ x, (f x).outputs = x.outputs) :
    (g.modifyOp op f).WellWired := by
  have hs := SameParts.modifyOp g op f
  refine h.transfer ?_ ?_ (fun _ _ => rfl) (fun _ => rfl) h.computed (h.constrained_of_same hs)
    (h.declared_of_same hs) (h.fresh_of_same hs)
  · intro o i
    rw [inputAt_modifyOp]
    simp only [hin, inputAt, ite_self]
  · intro o i
    rw [outputAt_modifyOp]
    simp only [hout, outputAt, ite_self]

/-! ## Section 2: Ops without wires -/

/-- The graph with one more op, which has the next number and no wires. -/
def withOp (g : Graph) (operator : Operator) (settings : OpSettings) : Graph :=
  { g with
    ops := g.ops.insert g.nextOp { operator, settings }
    nextOp := g.nextOp + 1 }

@[simp] theorem op?_withOp (g : Graph) (operator : Operator) (settings : OpSettings) (o : OpId) :
    (g.withOp operator settings).op? o =
      if o = g.nextOp then some { operator, settings } else g.op? o := by
  by_cases h : o = g.nextOp
  · simp [op?, withOp, h]
  · have h' : ¬ g.nextOp = o := fun e => h e.symm
    simp [op?, withOp, Std.ExtTreeMap.getElem?_insert, h, h']

theorem inputAt_withOp (h : g.WellWired) (operator : Operator) (settings : OpSettings) (o : OpId)
    (i : Nat) : (g.withOp operator settings).inputAt o i = g.inputAt o i := by
  by_cases ho : o = g.nextOp
  · subst ho
    simp [inputAt, h.op?_nextOp]
  · simp [inputAt, ho]

theorem outputAt_withOp (h : g.WellWired) (operator : Operator) (settings : OpSettings) (o : OpId)
    (i : Nat) : (g.withOp operator settings).outputAt o i = g.outputAt o i := by
  by_cases ho : o = g.nextOp
  · subst ho
    simp [outputAt, h.op?_nextOp]
  · simp [outputAt, ho]

theorem WellWired.withOp (h : g.WellWired) (operator : Operator) (settings : OpSettings) :
    (g.withOp operator settings).WellWired := by
  have hold : ∀ o, (g.op? o).isSome → ((g.withOp operator settings).op? o).isSome := by
    intro o ho
    rw [op?_withOp]
    split
    · rfl
    · exact ho
  refine h.transfer (inputAt_withOp h operator settings) (outputAt_withOp h operator settings)
    (fun _ _ => rfl) (fun _ => rfl) h.computed ?_ h.declared ?_
  · intro e he
    obtain ⟨hb, ha⟩ := h.constrained e he
    exact ⟨hold _ hb, hold _ ha⟩
  · intro o ho
    change o < g.nextOp + 1
    rw [op?_withOp] at ho
    split at ho
    · rename_i heq
      rw [heq]
      exact Nat.lt_succ_self _
    · exact Nat.lt_succ_of_lt (h.fresh o ho)

/-- The graph without one of its ops and without the constraints on it. -/
def withoutOp (g : Graph) (op : OpId) : Graph :=
  { g with
    ops := g.ops.erase op
    constraints := g.constraints.erase op }

@[simp] theorem op?_withoutOp (g : Graph) (op o : OpId) :
    (g.withoutOp op).op? o = if o = op then none else g.op? o := by
  by_cases h : o = op
  · simp [op?, withoutOp, h]
  · have h' : ¬ op = o := fun e => h e.symm
    simp [op?, withoutOp, Std.ExtTreeMap.getElem?_erase, h, h']

theorem isDetached_iff {x : Op} :
    x.isDetached ↔ (∀ i, x.inputs.get? i = none) ∧ ∀ i, x.outputs.get? i = none := by
  simp [Op.isDetached, ← Ports.isEmpty_iff]

theorem WellWired.withoutOp (h : g.WellWired) {op : OpId} {x : Op} (hop : g.op? op = some x)
    (hx : x.isDetached) : (g.withoutOp op).WellWired := by
  obtain ⟨hin, hout⟩ := isDetached_iff.1 hx
  refine h.transfer ?_ ?_ (fun _ _ => rfl) (fun _ => rfl) h.computed ?_ h.declared ?_
  · intro o i
    by_cases ho : o = op
    · simp [inputAt, ho, hop, hin]
    · simp [inputAt, ho]
  · intro o i
    by_cases ho : o = op
    · simp [outputAt, ho, hop, hout]
    · simp [outputAt, ho]
  · intro e he
    obtain ⟨he, hb, ha⟩ := Constraints.mem_toList_erase.1 he
    simpa [hb, ha] using h.constrained e he
  · intro o ho
    rw [op?_withoutOp] at ho
    split at ho
    · cases ho
    · exact h.fresh o ho

/-! ## Section 3: Moving an input -/

/-- The graph with `tensor` wired at input `index` of `op`, where `previous?`
    was wired before. -/
def wireInput (g : Graph) (op : OpId) (index : Nat) (previous? : Option TensorId)
    (tensor : TensorId) : Graph :=
  let g := g.modifyOp op fun o => { o with inputs := o.inputs.insert index tensor }
  let g := match previous? with
    | some previous => g.dropReader previous op
    | none => g
  g.addReader tensor op

/-- The graph with nothing wired at input `index` of `op`, where `tensor` was. -/
def unwireInput (g : Graph) (op : OpId) (index : Nat) (tensor : TensorId) : Graph :=
  (g.modifyOp op fun o => { o with inputs := o.inputs.erase index }).dropReader tensor op

@[simp] theorem op?_wireInput (g : Graph) (op o : OpId) (index : Nat)
    (previous? : Option TensorId) (tensor : TensorId) :
    (g.wireInput op index previous? tensor).op? o =
      if o = op then (g.op? o).map fun x => { x with inputs := x.inputs.insert index tensor }
      else g.op? o := by
  cases previous? <;> simp [wireInput, addReader, dropReader]

theorem sameParts_wireInput (g : Graph) (op : OpId) (index : Nat) (previous? : Option TensorId)
    (tensor : TensorId) : SameParts g (g.wireInput op index previous? tensor) := by
  have hop := SameParts.modifyOp g op fun o => { o with inputs := o.inputs.insert index tensor }
  cases previous? with
  | none => exact hop.trans (sameParts_addReader ..)
  | some previous => exact (hop.trans (sameParts_dropReader ..)).trans (sameParts_addReader ..)

theorem outputAt_wireInput (g : Graph) (op o : OpId) (index i : Nat) (previous? : Option TensorId)
    (tensor : TensorId) :
    (g.wireInput op index previous? tensor).outputAt o i = g.outputAt o i := by
  simp only [outputAt, op?_wireInput]
  split <;> cases g.op? o <;> simp

theorem inputAt_wireInput {g : Graph} {op : OpId} (hop : (g.op? op).isSome) (o : OpId)
    (index i : Nat) (previous? : Option TensorId) (tensor : TensorId) :
    (g.wireInput op index previous? tensor).inputAt o i =
      if o = op ∧ i = index then some tensor else g.inputAt o i := by
  obtain ⟨x, hx⟩ := Option.isSome_iff_exists.1 hop
  by_cases ho : o = op
  · subst ho
    simp [inputAt, hx, Ports.get?_insert]
  · simp [inputAt, ho]

theorem producer?_wireInput (g : Graph) (op : OpId) (index : Nat) (previous? : Option TensorId)
    (tensor t : TensorId) :
    (g.wireInput op index previous? tensor).producer? t = g.producer? t := by
  cases previous? <;> simp [wireInput]

theorem readCount_wireInput {g : Graph} {tensor : TensorId} (hx : (g.tensor? tensor).isSome)
    (op o : OpId) (index : Nat) (previous? : Option TensorId) (t : TensorId) :
    (g.wireInput op index previous? tensor).readCount t o =
      if o = op then g.readCount t o - (if previous? = some t then 1 else 0)
        + (if some tensor = some t then 1 else 0)
      else g.readCount t o := by
  simp only [wireInput, Option.some.injEq]
  cases previous? with
  | none =>
    rw [readCount_addReader (by simpa using hx)]
    simp [readCount]
  | some previous =>
    rw [readCount_addReader, readCount_dropReader]
    · by_cases ho : o = op <;> simp [readCount, ho]
    · rw [(sameParts_dropReader ..).tensor]
      exact hx

theorem WellWired.wireInput (h : g.WellWired) {op : OpId} {x : Op} (hop : g.op? op = some x)
    (index : Nat) {tensor : TensorId} (ht : (g.tensor? tensor).isSome) :
    (g.wireInput op index (x.inputs.get? index) tensor).WellWired := by
  refine h.set_input (sameParts_wireInput ..) op index (some tensor)
    (inputAt_wireInput (by simp [hop]) · index · _ _) (outputAt_wireInput g op · index · _ _)
    ?_ (fun _ => producer?_wireInput ..)
  intro t o
  rw [readCount_wireInput ht, inputAt_eq hop]

theorem WellWired.unwireInput (h : g.WellWired) {op : OpId} {x : Op} (hop : g.op? op = some x)
    {index : Nat} {tensor : TensorId} (hi : x.inputs.get? index = some tensor) :
    (g.unwireInput op index tensor).WellWired := by
  have hs : SameParts g (g.unwireInput op index tensor) :=
    (SameParts.modifyOp ..).trans (sameParts_dropReader ..)
  refine h.set_input hs op index none ?_ ?_ ?_
    (fun _ => producer?_dropReader ..)
  · intro o i
    by_cases ho : o = op
    · subst ho
      simp [Graph.unwireInput, dropReader, inputAt, hop, Ports.get?_erase]
    · simp [Graph.unwireInput, dropReader, inputAt, ho]
  · intro o i
    simp only [Graph.unwireInput, dropReader, outputAt, op?_modifyTensor, op?_modifyOp]
    split <;> cases g.op? o <;> simp
  · intro t o
    rw [Graph.unwireInput, readCount_dropReader, inputAt_eq hop, hi]
    simp [readCount]

/-! ## Section 4: Moving an output -/

/-- The graph with `tensor` wired at output `index` of `op`, where `previous?`
    was wired before. -/
def wireOutput (g : Graph) (op : OpId) (index : Nat) (previous? : Option TensorId)
    (tensor : TensorId) : Graph :=
  let g := g.modifyOp op fun o => { o with outputs := o.outputs.insert index tensor }
  let g := match previous? with
    | some previous => g.setProducer previous none
    | none => g
  g.setProducer tensor (some op)

/-- The graph with nothing wired at output `index` of `op`, where `tensor` was. -/
def unwireOutput (g : Graph) (op : OpId) (index : Nat) (tensor : TensorId) : Graph :=
  (g.modifyOp op fun o => { o with outputs := o.outputs.erase index }).setProducer tensor none

@[simp] theorem op?_wireOutput (g : Graph) (op o : OpId) (index : Nat)
    (previous? : Option TensorId) (tensor : TensorId) :
    (g.wireOutput op index previous? tensor).op? o =
      if o = op then (g.op? o).map fun x => { x with outputs := x.outputs.insert index tensor }
      else g.op? o := by
  cases previous? <;> simp [wireOutput, setProducer]

theorem sameParts_wireOutput (g : Graph) (op : OpId) (index : Nat) (previous? : Option TensorId)
    (tensor : TensorId) : SameParts g (g.wireOutput op index previous? tensor) := by
  have hop := SameParts.modifyOp g op fun o => { o with outputs := o.outputs.insert index tensor }
  cases previous? with
  | none => exact hop.trans (sameParts_setProducer ..)
  | some previous => exact (hop.trans (sameParts_setProducer ..)).trans (sameParts_setProducer ..)

theorem inputAt_wireOutput (g : Graph) (op o : OpId) (index i : Nat) (previous? : Option TensorId)
    (tensor : TensorId) :
    (g.wireOutput op index previous? tensor).inputAt o i = g.inputAt o i := by
  simp only [inputAt, op?_wireOutput]
  split <;> cases g.op? o <;> simp

theorem outputAt_wireOutput {g : Graph} {op : OpId} (hop : (g.op? op).isSome) (o : OpId)
    (index i : Nat) (previous? : Option TensorId) (tensor : TensorId) :
    (g.wireOutput op index previous? tensor).outputAt o i =
      if o = op ∧ i = index then some tensor else g.outputAt o i := by
  obtain ⟨x, hx⟩ := Option.isSome_iff_exists.1 hop
  by_cases ho : o = op
  · subst ho
    simp [outputAt, hx, Ports.get?_insert]
  · simp [outputAt, ho]

theorem readCount_wireOutput (g : Graph) (op o : OpId) (index : Nat)
    (previous? : Option TensorId) (tensor t : TensorId) :
    (g.wireOutput op index previous? tensor).readCount t o = g.readCount t o := by
  cases previous? <;> simp [wireOutput]

theorem producer?_wireOutput {g : Graph} {tensor : TensorId} (ht : (g.tensor? tensor).isSome)
    {previous? : Option TensorId} (hp : ∀ p, previous? = some p → (g.tensor? p).isSome)
    (op : OpId) (index : Nat) (t : TensorId) :
    (g.wireOutput op index previous? tensor).producer? t =
      if some tensor = some t then some op
      else if previous? = some t then none else g.producer? t := by
  simp only [wireOutput, Option.some.injEq]
  cases previous? with
  | none =>
    rw [producer?_setProducer (by simpa using ht)]
    simp [producer?]
  | some previous =>
    have hprev := hp previous rfl
    rw [producer?_setProducer, producer?_setProducer (by simpa using hprev)]
    · simp [producer?]
    · rw [(sameParts_setProducer ..).tensor]
      exact ht

theorem WellWired.wireOutput (h : g.WellWired) {op : OpId} {x : Op} (hop : g.op? op = some x)
    (index : Nat) {tensor : TensorId} {y : Tensor} (ht : g.tensor? tensor = some y)
    (hfree : y.producer? = none) (hkind : y.kind = .computed) :
    (g.wireOutput op index (x.outputs.get? index) tensor).WellWired := by
  refine h.set_output (sameParts_wireOutput ..) op index (some tensor) ?_
    (inputAt_wireOutput g op · index · _ _) (outputAt_wireOutput (by simp [hop]) · index · _ _)
    (fun t o => readCount_wireOutput ..) ?_
  · rintro t ⟨rfl⟩
    simp [producer?, kind?, ht, hfree, hkind]
  · intro t
    rw [outputAt_eq hop]
    refine producer?_wireOutput (by simp [ht]) (fun p hp => ?_) op index t
    obtain ⟨z, hz, -⟩ := h.output_exists (outputAt_eq_some.2 ⟨x, hop, hp⟩)
    simp [hz]

theorem WellWired.unwireOutput (h : g.WellWired) {op : OpId} {x : Op} (hop : g.op? op = some x)
    {index : Nat} {tensor : TensorId} (hi : x.outputs.get? index = some tensor) :
    (g.unwireOutput op index tensor).WellWired := by
  have hs : SameParts g (g.unwireOutput op index tensor) :=
    (SameParts.modifyOp ..).trans (sameParts_setProducer ..)
  obtain ⟨y, hy, -⟩ := h.output_exists (outputAt_eq_some.2 ⟨x, hop, hi⟩)
  refine h.set_output hs op index none (fun _ hn => nomatch hn) ?_ ?_
    (fun _ _ => readCount_setProducer ..) ?_
  · intro o i
    simp only [Graph.unwireOutput, setProducer, inputAt, op?_modifyTensor, op?_modifyOp]
    split <;> cases g.op? o <;> simp
  · intro o i
    by_cases ho : o = op
    · subst ho
      simp [Graph.unwireOutput, setProducer, outputAt, hop, Ports.get?_erase]
    · simp [Graph.unwireOutput, setProducer, outputAt, ho]
  · intro t
    rw [Graph.unwireOutput, producer?_setProducer (by simp [hy]), outputAt_eq hop, hi]
    simp [producer?]

/-! ## Section 5: Taking a wire back -/

end Graph

theorem Readers.ext_count {r r' : Readers} (h : ∀ op, r.count op = r'.count op) : r = r' := by
  have hentry : ∀ (r : Readers) (op : OpId),
      r.counts[op]? = if r.count op = 0 then none else some (r.count op) := by
    intro r op
    rw [Readers.count, Std.ExtTreeMap.getD_eq_getD_getElem?]
    cases hop : r.counts[op]? with
    | none => rfl
    | some n => simp [Nat.ne_of_gt (r.count_pos op n hop)]
  obtain ⟨counts, hpos⟩ := r
  obtain ⟨counts', hpos'⟩ := r'
  congr 1
  refine Std.ExtTreeMap.ext_getElem? fun op => ?_
  rw [hentry ⟨counts, hpos⟩ op, hentry ⟨counts', hpos'⟩ op, h op]

theorem Readers.drop_add (r : Readers) (op : OpId) : (r.add op).drop op = r := by
  refine Readers.ext_count fun o => ?_
  rw [Readers.count_drop, Readers.count_add, Readers.count_add]
  by_cases ho : o = op <;> simp [ho]

theorem Readers.add_drop {r : Readers} {op : OpId} (h : 0 < r.count op) : (r.drop op).add op = r := by
  refine Readers.ext_count fun o => ?_
  rw [Readers.count_add, Readers.count_drop, Readers.count_drop]
  by_cases ho : o = op
  · subst ho
    simp only [if_true]
    omega
  · simp [ho]

theorem Ports.set_insert (p : Ports) (i : Nat) (t : TensorId) : (p.insert i t).set i (p.get? i) = p := by
  refine Ports.ext_get? fun j => ?_
  cases hi : p.get? i with
  | none =>
    rw [Ports.set, Ports.get?_erase, Ports.get?_insert]
    by_cases hj : j = i
    · rw [if_pos hj, hj, hi]
    · rw [if_neg hj, if_neg hj]
  | some t' =>
    rw [Ports.set, Ports.get?_insert, Ports.get?_insert]
    by_cases hj : j = i
    · rw [if_pos hj, hj, hi]
    · rw [if_neg hj, if_neg hj]

namespace Graph

variable {g : Graph} {op : OpId} {tensor : TensorId}

theorem dropReader_addReader (g : Graph) (tensor : TensorId) (op : OpId) :
    (g.addReader tensor op).dropReader tensor op = g := by
  rw [addReader, dropReader, modifyTensor_modifyTensor]
  refine modifyTensor_eq_self fun t _ => ?_
  simp only [Function.comp_apply, Readers.drop_add]

theorem addReader_dropReader (h : 0 < g.readCount tensor op) :
    (g.dropReader tensor op).addReader tensor op = g := by
  rw [addReader, dropReader, modifyTensor_modifyTensor]
  refine modifyTensor_eq_self fun t ht => ?_
  have hcount : 0 < t.readers.count op := by simpa [readCount, ht] using h
  simp only [Function.comp_apply, Readers.add_drop hcount]

/-- What has been set can be set back. -/
theorem setProducer_setProducer {producer? : Option OpId} (h : g.producer? tensor = producer?)
    (other? : Option OpId) :
    (g.setProducer tensor other?).setProducer tensor producer? = g := by
  rw [setProducer, setProducer, modifyTensor_modifyTensor]
  refine modifyTensor_eq_self fun t ht => ?_
  have hproducer : t.producer? = producer? := by simpa [Graph.producer?, ht] using h
  simp only [Function.comp_apply, ← hproducer]

/-- The graph with `previous?` put back at input `index` of `op`, in place of
    `tensor`. -/
def rewindInput (g : Graph) (op : OpId) (index : Nat) (previous? : Option TensorId)
    (tensor : TensorId) : Graph :=
  let g := g.modifyOp op fun o => { o with inputs := o.inputs.set index previous? }
  let g := g.dropReader tensor op
  match previous? with
  | some previous => g.addReader previous op
  | none => g

/-- The graph with `previous?` put back at output `index` of `op`, in place of
    `tensor`. -/
def rewindOutput (g : Graph) (op : OpId) (index : Nat) (previous? : Option TensorId)
    (tensor : TensorId) : Graph :=
  let g := g.modifyOp op fun o => { o with outputs := o.outputs.set index previous? }
  let g := g.setProducer tensor none
  match previous? with
  | some previous => g.setProducer previous (some op)
  | none => g

variable {o : Op}

/-- The op has its old inputs again, whatever its tensors count. -/
theorem ops_rewindInput (ho : g.op? op = some o) (index : Nat) (tensor : TensorId) :
    ((g.wireInput op index (o.inputs.get? index) tensor).rewindInput op index
      (o.inputs.get? index) tensor).ops = g.ops := by
  have hops := congrArg Graph.ops ((g.modifyOp_modifyOp op
    (fun o => { o with inputs := o.inputs.insert index tensor })
    fun z => { z with inputs := z.inputs.set index (o.inputs.get? index) }).trans
    (modifyOp_eq_self fun z hz => ?_))
  · refine Eq.trans ?_ hops
    cases o.inputs.get? index <;> rfl
  · rw [ho] at hz
    cases hz
    simp only [Function.comp_apply, Ports.set_insert]

theorem ops_rewindOutput (ho : g.op? op = some o) (index : Nat) (tensor : TensorId) :
    ((g.wireOutput op index (o.outputs.get? index) tensor).rewindOutput op index
      (o.outputs.get? index) tensor).ops = g.ops := by
  have hops := congrArg Graph.ops ((g.modifyOp_modifyOp op
    (fun o => { o with outputs := o.outputs.insert index tensor })
    fun z => { z with outputs := z.outputs.set index (o.outputs.get? index) }).trans
    (modifyOp_eq_self fun z hz => ?_))
  · refine Eq.trans ?_ hops
    cases o.outputs.get? index <;> rfl
  · rw [ho] at hz
    cases hz
    simp only [Function.comp_apply, Ports.set_insert]

/-- **An input that is wired and taken back** leaves no trace.  The old tensor
    counts the op, so it can be dropped and counted again. -/
theorem WellWired.rewindInput (h : g.WellWired) (ho : g.op? op = some o) (index : Nat)
    (tensor : TensorId) :
    (g.wireInput op index (o.inputs.get? index) tensor).rewindInput op index
      (o.inputs.get? index) tensor = g := by
  have hops := ops_rewindInput ho index tensor
  cases hi : o.inputs.get? index with
  | none =>
    have htensors := congrArg Graph.tensors (dropReader_addReader g tensor op)
    rw [hi] at hops
    exact congr (congrArg (fun ops tensors => { g with ops, tensors }) hops) htensors
  | some previous =>
    have hcount : 0 < g.readCount previous op := by
      rw [readCount_pos, h.reader_iff]
      exact ⟨index, inputAt_eq_some.2 ⟨o, ho, hi⟩⟩
    have htensors := congrArg (fun g => (g.addReader previous op).tensors)
      (dropReader_addReader (g.dropReader previous op) tensor op)
    rw [addReader_dropReader hcount] at htensors
    rw [hi] at hops
    exact congr (congrArg (fun ops tensors => { g with ops, tensors }) hops) htensors

/-- **An output that is wired and taken back** leaves no trace.  The tensor had
    no producer, and the producer of the old one was the op. -/
theorem WellWired.rewindOutput (h : g.WellWired) (ho : g.op? op = some o) (index : Nat)
    (hfree : g.producer? tensor = none) :
    (g.wireOutput op index (o.outputs.get? index) tensor).rewindOutput op index
      (o.outputs.get? index) tensor = g := by
  have hops := ops_rewindOutput ho index tensor
  cases hi : o.outputs.get? index with
  | none =>
    have htensors := congrArg Graph.tensors (setProducer_setProducer hfree (some op))
    rw [hi] at hops
    exact congr (congrArg (fun ops tensors => { g with ops, tensors }) hops) htensors
  | some previous =>
    have hprevious : g.producer? previous = some op :=
      (h.produces previous op).2 ⟨index, outputAt_eq_some.2 ⟨o, ho, hi⟩⟩
    have hfree' : (g.setProducer previous none).producer? tensor = none := by
      rw [producer?_setProducer (tensor_of_producer hprevious), hfree, ite_self]
    have htensors := congrArg (fun g => (g.setProducer previous (some op)).tensors)
      (setProducer_setProducer hfree' (some op))
    rw [setProducer_setProducer hprevious none] at htensors
    rw [hi] at hops
    exact congr (congrArg (fun ops tensors => { g with ops, tensors }) hops) htensors

end Graph

namespace Edit

open Dataflow.Graph

variable {g g' : Graph}

/-! ## Section 6: Edits of single ops -/

theorem createOp_run (operator : Operator) (settings : OpSettings) (g : Graph) :
    createOp operator settings g = .ok g.nextOp (g.withOp operator settings) := rfl

theorem createOp_wellWired (operator : Operator) (settings : OpSettings) :
    Keeps WellWired (createOp operator settings) :=
  fun _ hg => hg.withOp operator settings

theorem configure_wellWired (op : OpId) (f : OpSettings → OpSettings) :
    Keeps WellWired (configure op f) :=
  Keeps.bind (keeps_ask _) fun _ => keeps_change fun _ hg =>
    hg.modifyOp op (fun _ => rfl) (fun _ => rfl)

/-- No constraint is left on an op that is removed, so the check of it passes. -/
theorem eraseOp_eq (op : OpId) : eraseOp op = do
    let o ← ask (·.requireOp op)
    unless o.isDetached do throw (.opStillConnected (o.label op))
    change (·.withoutOp op)
    return o := by
  unfold eraseOp
  congr 1
  funext o g
  by_cases hd : o.isDetached <;>
    simp [hd, bind, EStateM.bind, change, ask, Graph.withoutOp]

theorem eraseOp_wellWired (op : OpId) : Keeps WellWired (eraseOp op) := by
  rw [eraseOp_eq]
  refine keeps_ask_bind fun x g hg hx => ?_
  have hop := requireOp_eq_ok.1 hx
  by_cases hd : x.isDetached
  · simp only [hd]
    exact hg.withoutOp hop hd
  · simp only [hd]
    exact hg

theorem rewireInput_run (op : OpId) (index : Nat) (previous? : Option TensorId)
    (tensor : TensorId) (g : Graph) :
    rewireInput op index previous? tensor g = .ok () (g.wireInput op index previous? tensor) := by
  cases previous? <;> rfl

theorem rewireOutput_run (op : OpId) (index : Nat) (previous? : Option TensorId)
    (tensor : TensorId) (g : Graph) :
    rewireOutput op index previous? tensor g =
      .ok () (g.wireOutput op index previous? tensor) := by
  cases previous? <;> rfl

theorem restoreInput_run (op : OpId) (index : Nat) (previous? : Option TensorId)
    (tensor : TensorId) (g : Graph) :
    restoreInput op index previous? tensor g
      = .ok () (g.rewindInput op index previous? tensor) := by
  cases previous? <;> rfl

theorem restoreOutput_run (op : OpId) (index : Nat) (previous? : Option TensorId)
    (tensor : TensorId) (g : Graph) :
    restoreOutput op index previous? tensor g
      = .ok () (g.rewindOutput op index previous? tensor) := by
  cases previous? <;> rfl

/-- An input is wired, and a settled op is then settled anew. -/
theorem connectInput_eq_ok {op : OpId} {index : Nat} {tensor : TensorId} {u : Unit}
    (h : connectInput op index tensor g = .ok u g') :
    ∃ o x, g.op? op = some o ∧ g.tensor? tensor = some x ∧
      let wired := g.wireInput op index (o.inputs.get? index) tensor
      if o.isSettled then wired.settle op = .ok g' else g' = wired := by
  obtain ⟨x, hx, h⟩ := ask_bind_eq_ok.1 h
  obtain ⟨o, ho, h⟩ := ask_bind_eq_ok.1 h
  refine ⟨o, x, requireOp_eq_ok.1 ho, requireTensor_eq_ok.1 hx, ?_⟩
  by_cases hs : o.isSettled
  · simp only [hs, if_true] at h ⊢
    obtain ⟨_, -, h⟩ := ask_bind_eq_ok.1 h
    obtain ⟨_, g₁, hwire, h⟩ := bind_eq_ok.1 h
    rw [rewireInput_run] at hwire
    cases hwire
    exact settle_eq_ok.1 (orUndo_eq_ok.1 h)
  · simp only [hs] at h ⊢
    obtain ⟨_, g₁, hwire, h⟩ := bind_eq_ok.1 h
    rw [rewireInput_run] at hwire
    cases hwire
    exact (pure_eq_ok.1 h).2.symm

/-- An output is wired to a computed tensor without a producer, and a settled
    op is then settled anew. -/
theorem connectOutput_eq_ok {op : OpId} {index : Nat} {tensor : TensorId} {u : Unit}
    (h : connectOutput op index tensor g = .ok u g') :
    ∃ o x, g.op? op = some o ∧ g.tensor? tensor = some x ∧
      x.producer? = none ∧ x.kind = .computed ∧
      let wired := g.wireOutput op index (o.outputs.get? index) tensor
      if o.isSettled then wired.settle op = .ok g' else g' = wired := by
  obtain ⟨x, hx, h⟩ := ask_bind_eq_ok.1 h
  cases hp : x.producer? with
  | some producer =>
    simp only [hp] at h
    obtain ⟨_, _, h, -⟩ := bind_eq_ok.1 h
    cases h
  | none =>
    simp only [hp] at h
    by_cases hk : x.kind = .computed
    · simp only [hk, if_true] at h
      obtain ⟨o, ho, h⟩ := ask_bind_eq_ok.1 h
      obtain ⟨_, g₁, hwire, h⟩ := bind_eq_ok.1 h
      rw [rewireOutput_run] at hwire
      cases hwire
      refine ⟨o, x, requireOp_eq_ok.1 ho, requireTensor_eq_ok.1 hx, hp, hk, ?_⟩
      by_cases hs : o.isSettled
      · simp only [hs, if_true] at h ⊢
        exact settle_eq_ok.1 (orUndo_eq_ok.1 h)
      · simp only [hs] at h ⊢
        exact (pure_eq_ok.1 h).2.symm
    · simp only [hk, if_false] at h
      obtain ⟨_, _, h, -⟩ := bind_eq_ok.1 h
      cases h

/-- A refused input is never wired, or it is taken back from a settled op. -/
theorem connectInput_eq_error {op : OpId} {index : Nat} {tensor : TensorId} {e : GraphError}
    (h : connectInput op index tensor g = .error e g') :
    g' = g ∨ ∃ o, g.op? op = some o ∧ o.isSettled ∧
      g' = (g.wireInput op index (o.inputs.get? index) tensor).rewindInput op index
        (o.inputs.get? index) tensor := by
  rcases bind_eq_error.1 h with hask | ⟨x, g₁, hask, h⟩
  · exact .inl (ask_eq_error hask)
  obtain ⟨-, rfl⟩ := ask_eq_ok.1 hask
  rcases bind_eq_error.1 h with hask | ⟨o, g₁, hask, h⟩
  · exact .inl (ask_eq_error hask)
  obtain ⟨ho, rfl⟩ := ask_eq_ok.1 hask
  by_cases hs : o.isSettled
  · simp only [hs, if_true] at h
    rcases bind_eq_error.1 h with hask | ⟨_, g₁, hask, h⟩
    · exact .inl (ask_eq_error hask)
    obtain ⟨-, rfl⟩ := ask_eq_ok.1 hask
    rcases bind_eq_error.1 h with hwire | ⟨_, g₁, hwire, h⟩
    · rw [rewireInput_run] at hwire
      cases hwire
    rw [rewireInput_run] at hwire
    cases hwire
    obtain ⟨_, g₂, hsettle, rfl⟩ := orUndo_eq_error h
    obtain ⟨-, rfl⟩ := settle_eq_error.1 hsettle
    exact .inr ⟨o, requireOp_eq_ok.1 ho, hs, by rw [restoreInput_run, stateOf_ok]⟩
  · -- without inference, nothing can go wrong
    simp only [hs] at h
    rcases bind_eq_error.1 h with hwire | ⟨_, g₁, hwire, h⟩
    · rw [rewireInput_run] at hwire
      cases hwire
    · cases h

/-- A refused output is never wired, or it is taken back from a settled op. -/
theorem connectOutput_eq_error {op : OpId} {index : Nat} {tensor : TensorId} {e : GraphError}
    (h : connectOutput op index tensor g = .error e g') :
    g' = g ∨ ∃ o, g.op? op = some o ∧ o.isSettled ∧ g.producer? tensor = none ∧
      g' = (g.wireOutput op index (o.outputs.get? index) tensor).rewindOutput op index
        (o.outputs.get? index) tensor := by
  rcases bind_eq_error.1 h with hask | ⟨x, g₁, hask, h⟩
  · exact .inl (ask_eq_error hask)
  obtain ⟨hx, rfl⟩ := ask_eq_ok.1 hask
  cases hp : x.producer? with
  | some producer =>
    simp only [hp] at h
    cases h
    exact .inl rfl
  | none =>
    simp only [hp] at h
    by_cases hk : x.kind = .computed
    · simp only [hk, if_true] at h
      rcases bind_eq_error.1 h with hask | ⟨o, g₁, hask, h⟩
      · exact .inl (ask_eq_error hask)
      obtain ⟨ho, rfl⟩ := ask_eq_ok.1 hask
      rcases bind_eq_error.1 h with hwire | ⟨_, g₁, hwire, h⟩
      · rw [rewireOutput_run] at hwire
        cases hwire
      rw [rewireOutput_run] at hwire
      cases hwire
      by_cases hs : o.isSettled
      · simp only [hs, if_true] at h
        obtain ⟨_, g₂, hsettle, rfl⟩ := orUndo_eq_error h
        obtain ⟨-, rfl⟩ := settle_eq_error.1 hsettle
        refine .inr ⟨o, requireOp_eq_ok.1 ho, hs, ?_, by rw [restoreOutput_run, stateOf_ok]⟩
        simp [producer?, requireTensor_eq_ok.1 hx, hp]
      · simp only [hs] at h
        cases h
    · simp only [hk, if_false] at h
      cases h
      exact .inl rfl

/-- **A refused input leaves no trace** in a graph whose wires agree. -/
theorem connectInput_refused (hg : g.WellWired) {op : OpId} {index : Nat} {tensor : TensorId}
    {e : GraphError} (h : connectInput op index tensor g = .error e g') : g' = g := by
  rcases connectInput_eq_error h with h | ⟨o, ho, -, h⟩
  · exact h
  · rw [h, hg.rewindInput ho index tensor]

/-- **A refused output leaves no trace** in a graph whose wires agree. -/
theorem connectOutput_refused (hg : g.WellWired) {op : OpId} {index : Nat} {tensor : TensorId}
    {e : GraphError} (h : connectOutput op index tensor g = .error e g') : g' = g := by
  rcases connectOutput_eq_error h with h | ⟨o, ho, -, hfree, h⟩
  · exact h
  · rw [h, hg.rewindOutput ho index hfree]

theorem connectInput_sameParts {op : OpId} {index : Nat} {tensor : TensorId} {u : Unit}
    (h : connectInput op index tensor g = .ok u g') : SameParts g g' := by
  obtain ⟨o, x, ho, hx, h⟩ := connectInput_eq_ok h
  have hwire := sameParts_wireInput g op index (o.inputs.get? index) tensor
  by_cases hs : o.isSettled
  · simp only [hs, if_true] at h
    exact hwire.trans (retyped_settle h).sameParts
  · simp only [hs] at h
    exact h ▸ hwire

theorem connectInput_wellWired (op : OpId) (index : Nat) (tensor : TensorId) :
    Keeps WellWired (connectInput op index tensor) := by
  refine Keeps.of_cases (fun g u g' hg h => ?_) fun g e g' hg h => connectInput_refused hg h ▸ hg
  obtain ⟨o, x, ho, hx, h⟩ := connectInput_eq_ok h
  have htensor : (g.tensor? tensor).isSome := by simp [hx]
  have hwire := hg.wireInput ho index htensor
  by_cases hs : o.isSettled
  · simp only [hs, if_true] at h
    exact hwire.of_retyped (retyped_settle h)
  · simp only [hs] at h
    exact h ▸ hwire

theorem connectOutput_wellWired (op : OpId) (index : Nat) (tensor : TensorId) :
    Keeps WellWired (connectOutput op index tensor) := by
  refine Keeps.of_cases (fun g u g' hg h => ?_) fun g e g' hg h => connectOutput_refused hg h ▸ hg
  obtain ⟨o, x, ho, hx, hp, hk, h⟩ := connectOutput_eq_ok h
  have hwire := hg.wireOutput ho index hx hp hk
  by_cases hs : o.isSettled
  · simp only [hs, if_true] at h
    exact hwire.of_retyped (retyped_settle h)
  · simp only [hs] at h
    exact h ▸ hwire

theorem createOutput_wellWired (op : OpId) (index : Nat) (tensor : TensorId) :
    Keeps WellWired (createOutput op index tensor) := by
  refine keeps_ask_bind fun _ g hg hq => ?_
  have hid : g.tensor? tensor = none := by
    split at hq
    · cases hq
    · rename_i hc
      simpa [contains_tensors] using hc
  cases hop : g.requireOp op with
  | error e =>
    simp only [bind, EStateM.bind, ask, hop]
    exact hg
  | ok o =>
    simp only [bind, EStateM.bind, ask, hop, change]
    exact connectOutput_wellWired op index tensor _
      (insertTensor_wellWired hg hid rfl Readers.count_empty)

theorem disconnectInput_wellWired (op : OpId) (index : Nat) :
    Keeps WellWired (disconnectInput op index) := by
  refine keeps_ask_bind fun o g hg ho => ?_
  have hop := requireOp_eq_ok.1 ho
  cases hi : o.inputs.get? index with
  | none => exact hg
  | some tensor =>
    obtain ⟨x, hx⟩ := hg.input_exists (inputAt_eq_some.2 ⟨o, hop, hi⟩)
    have hwire := hg.unwireInput hop hi
    -- the tensor counts the op, so the last test passes; the graph is the same either way
    have hx' : (g.modifyOp op fun o => { o with inputs := o.inputs.erase index }).requireTensor
        tensor = .ok x := requireTensor_eq_ok.2 (by simpa using hx)
    simp only [bind, EStateM.bind, ask, change, hx']
    split <;> exact hwire

theorem disconnectOutput_wellWired (op : OpId) (index : Nat) :
    Keeps WellWired (disconnectOutput op index) := by
  refine keeps_ask_bind fun o g hg ho => ?_
  have hop := requireOp_eq_ok.1 ho
  cases hi : o.outputs.get? index with
  | none => exact hg
  | some tensor =>
    obtain ⟨x, hx, -⟩ := hg.output_exists (outputAt_eq_some.2 ⟨o, hop, hi⟩)
    have hwire := hg.unwireOutput hop hi
    have hx' : (g.modifyOp op fun o => { o with outputs := o.outputs.erase index }).requireTensor
        tensor = .ok x := requireTensor_eq_ok.2 (by simpa using hx)
    simp only [bind, EStateM.bind, ask, change, hx']
    exact hwire

/-! ## Section 7: Edits made of others -/

theorem replaceTensor_wellWired (old new : TensorId) :
    Keeps WellWired (replaceTensor old new) := by
  refine keeps_ask_bind fun x g hg hx => ?_
  -- rewiring does not remove tensors, so `new` may be declared at the end
  let P : Graph → Prop := fun g => g.WellWired ∧ (g.tensor? new).isSome
  have hconnect : ∀ op index, Keeps P (connectInput op index new) := by
    rintro op index g ⟨hg, hn⟩
    refine ⟨connectInput_wellWired op index new g hg, ?_⟩
    cases h : connectInput op index new g with
    | ok u g' =>
      rw [stateOf_ok, (connectInput_sameParts h).tensor]
      exact hn
    | error e g' =>
      rw [stateOf_error, connectInput_refused hg h]
      exact hn
  have hkeep : Keeps P (do
      let _ ← ask (·.requireTensor old)
      let ports ← ask fun g => .ok (readingPorts old g)
      ports.forM fun port => connectInput port.1 port.2 new
      change fun g =>
        { g with outputs := g.outputs.map fun id => if id = old then new else id }) := by
    refine Keeps.bind (keeps_ask _) fun _ => Keeps.bind (keeps_ask _) fun ports =>
      Keeps.bind (Keeps.forM (fun _ => hconnect _ _) ports) fun _ => keeps_change ?_
    rintro g ⟨hg, hn⟩
    refine ⟨declare_wellWired hg fun t ht => ?_, hn⟩
    rcases List.mem_append.1 ht with ht | ht
    · exact hg.declared t (List.mem_append_left _ ht)
    · obtain ⟨id, hid, rfl⟩ := List.mem_map.1 ht
      split
      · exact hn
      · exact hg.declared id (List.mem_append_right _ hid)
  exact (hkeep g ⟨hg, by simp [requireTensor_eq_ok.1 hx]⟩).1

theorem connectInputs_wellWired (op : OpId) (inputs : List (Nat × TensorId)) :
    Keeps WellWired (connectInputs op inputs) :=
  Keeps.forM (fun _ => connectInput_wellWired op _ _) inputs

theorem createOutputs_wellWired (op : OpId) (outputs : List (Nat × TensorId)) :
    Keeps WellWired (createOutputs op outputs) :=
  Keeps.forM (fun _ => createOutput_wellWired op _ _) outputs

/-! ## Section 8: Constraints -/

/-- Constraints may change as long as they are on ops that exist. -/
theorem constrain_wellWired (h : g.WellWired) {constraints : Constraints}
    (hc : ∀ e ∈ constraints.toList, (g.op? e.before).isSome ∧ (g.op? e.after).isSome) :
    Graph.WellWired { g with constraints := constraints } :=
  h.transfer (fun _ _ => rfl) (fun _ _ => rfl) (fun _ _ => rfl) (fun _ => rfl) h.computed hc
    h.declared h.fresh

theorem addConstraint_wellWired (before after : OpId) :
    Keeps WellWired (addConstraint before after) := by
  refine keeps_ask_bind fun x g hg hx => ?_
  cases hy : g.requireOp after with
  | error e =>
    simp only [bind, EStateM.bind, ask, hy]
    exact hg
  | ok y =>
    simp only [bind, EStateM.bind, ask, hy, change]
    refine constrain_wellWired hg fun e he => ?_
    rcases Constraints.mem_toList_insert.1 he with ⟨-, rfl⟩ | he
    · simp [requireOp_eq_ok.1 hx, requireOp_eq_ok.1 hy]
    · exact hg.constrained e he

/-- Constraints on ops with a property, added to such constraints. -/
theorem constraints_foldl {P : OpId → Prop} {pairs : List (OpId × OpId)} {c : Constraints}
    (hc : ∀ e ∈ c.toList, P e.before ∧ P e.after) (hpairs : ∀ x ∈ pairs, P x.1 ∧ P x.2) :
    ∀ e ∈ (pairs.foldl (fun c x => c.insert x.1 x.2) c).toList, P e.before ∧ P e.after := by
  induction pairs generalizing c with
  | nil => exact hc
  | cons x rest ih =>
    rw [List.foldl_cons]
    refine ih (fun e he => ?_) fun y hy => hpairs y (List.mem_cons_of_mem x hy)
    rcases Constraints.mem_toList_insert.1 he with ⟨-, rfl⟩ | he
    · exact hpairs x List.mem_cons_self
    · exact hc e he

/-- Putting existing ops ahead of an existing one. -/
theorem putAhead_wellWired (h : g.WellWired) {readers : List OpId} {writer : OpId}
    (hr : ∀ r ∈ readers, (g.op? r).isSome) (hw : (g.op? writer).isSome) :
    (g.putAhead readers writer).WellWired := by
  have hfold : readers.foldl (fun c r => c.insert r writer) g.constraints
      = (readers.map fun r => (r, writer)).foldl (fun c x => c.insert x.1 x.2) g.constraints := by
    rw [List.foldl_map]
  refine constrain_wellWired h ?_
  rw [hfold]
  refine constraints_foldl (P := fun o => (g.op? o).isSome) h.constrained fun x hx => ?_
  obtain ⟨r, hmem, rfl⟩ := List.mem_map.1 hx
  exact ⟨hr r hmem, hw⟩

theorem mem_writes {op : OpId} {tensor : TensorId} (h : (op, tensor) ∈ g.writes) :
    ∃ o, g.op? op = some o ∧ o.modifies tensor := by
  obtain ⟨⟨op', o⟩, hmem, h⟩ := List.mem_flatMap.1 h
  obtain ⟨t, ht, heq⟩ := List.mem_map.1 h
  cases heq
  exact ⟨o, Std.ExtTreeMap.mem_toList_iff_getElem?_eq_some.1 hmem, (List.mem_filter.1 ht).2⟩

/-- What each writer keeps, ordering all writers keeps. -/
theorem orderWriters_induction {P : Graph → Prop} (hg : P g)
    (hstep : ∀ s writer tensor, (writer, tensor) ∈ g.writes → P s →
      P (s.putAhead (s.unorderedReaders writer tensor) writer)) : P g.orderWriters.2 := by
  have hloop : ∀ (writes : List (OpId × TensorId)) (n : Nat) (s : Graph),
      (∀ w ∈ writes, w ∈ g.writes) → P s →
      P (writes.foldl (fun found write =>
        let readers := found.2.unorderedReaders write.1 write.2
        (found.1 + readers.length, found.2.putAhead readers write.1)) (n, s)).2 := by
    intro writes
    induction writes with
    | nil => exact fun n s _ hs => hs
    | cons w rest ih =>
      intro n s hw hs
      rw [List.foldl_cons]
      exact ih _ _ (fun w' hw' => hw w' (List.mem_cons_of_mem w hw'))
        (hstep s w.1 w.2 (hw w List.mem_cons_self) hs)
  exact hloop g.writes 0 g (fun w hw => hw) hg

/-- The readers of one tensor go ahead of its writer. -/
theorem putAhead_unordered_wellWired (h : g.WellWired) {writer : OpId}
    (hw : (g.op? writer).isSome) (tensor : TensorId) :
    (g.putAhead (g.unorderedReaders writer tensor) writer).WellWired := by
  refine putAhead_wellWired h (fun r hr => ?_) hw
  obtain ⟨x, hx⟩ := h.reader_exists (List.mem_filter.1 hr).1
  simp [hx]

theorem orderWriters_wellWired : Keeps WellWired orderWriters := by
  intro g hg
  -- no step removes an op, so each writer is there when its turn comes
  have hend := orderWriters_induction (g := g)
    (P := fun s => s.WellWired ∧ ∀ o, s.op? o = g.op? o) ⟨hg, fun _ => rfl⟩ ?_
  · exact hend.1
  · rintro s writer tensor hmem ⟨hs, hop⟩
    obtain ⟨o, ho, -⟩ := mem_writes hmem
    exact ⟨putAhead_unordered_wellWired hs (by simp [hop, ho]) tensor, hop⟩

end Edit

end Dataflow
