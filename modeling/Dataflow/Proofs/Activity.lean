import Mathlib.Data.List.Nodup
import Dataflow.Proofs.Closure
import Dataflow.Proofs.GradientGrowth
import Dataflow.Proofs.Ledgers

/-! # What a loss depends on

    A tensor is active if the gradient of the loss reaches it: through an op
    with an active output, along an input that one of the gradient ops of the
    op covers.  Active tensors are what differentiation is about, and nothing
    here refers to how it goes about it.

    The ops upstream of the loss are those with a data path to it.  They are
    what the ledgers start from. -/

namespace Dataflow

open Relation

namespace Graph

/-! ## Section 1: Active tensors -/

/-- The gradient ops that op number `op` asks for. -/
def specsOf (g : Graph) (op : OpId) : List (GradSpec Operator) :=
  match g.op? op with
  | some o =>
    match o.operator.gradSpecs (g.view op o) with
    | .ok specs => specs
    | .error _ => []
  | none => []

/-- A gradient op of `op` has the gradient of input `index` among its outputs. -/
def Covers (g : Graph) (op : OpId) (index : Nat) : Prop :=
  ∃ spec ∈ g.specsOf op, ∃ output : Nat, spec.targets[output]? = some index

theorem covers_of_mem {g : Graph} {op : OpId} {x : Nat × Nat}
    (h : x ∈ (g.specsOf op).flatMap fun spec => spec.targets.toList) : g.Covers op x.2 := by
  obtain ⟨spec, hspec, hx⟩ := List.mem_flatMap.1 h
  exact ⟨spec, hspec, x.1, Std.ExtTreeMap.mem_toList_iff_getElem?_eq_some.1 hx⟩

/-- The tensors that the gradient of `loss` reaches. -/
inductive Active (g : Graph) (loss : TensorId) : TensorId → Prop where
  | loss : Active g loss loss
  | input {op : OpId} {output index : Nat} {u t : TensorId} (hout : g.outputAt op output = some u)
      (hu : Active g loss u) (hcover : g.Covers op index) (hin : g.inputAt op index = some t) :
      Active g loss t

/-- Some output of the op is active. -/
def HasActiveOutput (g : Graph) (loss : TensorId) (op : OpId) : Prop :=
  ∃ output u, g.outputAt op output = some u ∧ g.Active loss u

/-- Op number `v` reads a tensor that op number `u` produces. -/
def Feeds (g : Graph) (u v : OpId) : Prop :=
  ∃ index t, g.inputAt v index = some t ∧ g.producer? t = some u

/-- Whether a tensor is one whose partial gradients are to be summed. -/
def Wants (g : Graph) (options : GradientOptions) (t : TensorId) : Prop :=
  g.kind? t = some .computed ∨
  g.kind? t = some .var ∧ t ∉ options.doNotUpdate ∨
  g.kind? t = some .stream ∧ t ∈ options.streamGradients

theorem wants_iff {g : Graph} {options : GradientOptions} {t : TensorId} {x : Tensor}
    (hx : g.tensor? t = some x) : g.Wants options t ↔ Growth.isWanted options x.kind t := by
  have hkind : g.kind? t = some x.kind := by simp [kind?, hx]
  unfold Wants Growth.isWanted
  rw [hkind]
  cases x.kind <;> simp [← Std.ExtTreeSet.contains_iff_mem]

end Graph

/-- The gradient ops of op number `op` depend on nothing but its own wiring and
    the types of its own tensors. -/
def Op.HasLocalGradients (o : Op) (op : OpId) : Prop :=
  ∀ g g' : Graph,
    (∀ i t, o.inputs.get? i = some t ∨ o.outputs.get? i = some t → g.typeOf t = g'.typeOf t) →
    o.operator.gradSpecs (g.view op o) = o.operator.gradSpecs (g'.view op o)

namespace Graph

/-! ## Section 2: Upstream of the loss -/

/-- Every reading by one of `ops`. -/
def readings (g : Graph) (ops : List OpId) : List Reading :=
  ops.flatMap fun op => (g.inputsOf op).toList.map fun x => ⟨op, x.1, x.2⟩

theorem mem_readings {g : Graph} {ops : List OpId} {r : Reading} :
    r ∈ g.readings ops ↔ r.op ∈ ops ∧ g.inputAt r.op r.index = some r.tensor := by
  unfold readings
  rw [List.mem_flatMap]
  constructor
  · rintro ⟨op, hop, hmem⟩
    obtain ⟨⟨i, t⟩, hx, rfl⟩ := List.mem_map.1 hmem
    refine ⟨hop, ?_⟩
    rw [← get?_inputsOf]
    exact Ports.mem_toList.1 hx
  · rintro ⟨hop, hin⟩
    refine ⟨r.op, hop, List.mem_map.2 ⟨(r.index, r.tensor), ?_, rfl⟩⟩
    rw [Ports.mem_toList, get?_inputsOf]
    exact hin

theorem readings_of_mem {g : Graph} {ops : List OpId} {op : OpId} {i : Nat} {t : TensorId}
    (hop : op ∈ ops) (hin : g.inputAt op i = some t) : (⟨op, i, t⟩ : Reading) ∈ g.readings ops :=
  mem_readings.2 ⟨hop, hin⟩

/-- One of `ops` reads the tensor. -/
def ReadBy (g : Graph) (ops : List OpId) (t : TensorId) : Prop :=
  ∃ op ∈ ops, ∃ i, g.inputAt op i = some t

theorem readBy_iff {g : Graph} {ops : List OpId} {t : TensorId} :
    g.ReadBy ops t ↔ readsOf (g.readings ops) t ≠ [] := by
  constructor
  · rintro ⟨op, hop, i, hi⟩
    exact List.ne_nil_of_mem (mem_readsOf.2 ⟨readings_of_mem hop hi, rfl⟩)
  · intro hne
    obtain ⟨r, hr⟩ := List.exists_mem_of_ne_nil _ hne
    obtain ⟨hmem, rfl⟩ := mem_readsOf.1 hr
    obtain ⟨hop, hi⟩ := mem_readings.1 hmem
    exact ⟨r.op, hop, r.index, hi⟩

/-- The output is the loss, or one of `ops` reads it. -/
def Needed (g : Graph) (loss : TensorId) (ops : List OpId) (op : OpId) (index : Nat) : Prop :=
  op ∈ ops ∧ ∃ t, g.outputAt op index = some t ∧ (t = loss ∨ g.ReadBy ops t)

/-- `ops` are the ops with a data path to the loss. -/
structure Upstream (g : Graph) (loss : TensorId) (ops : List OpId) : Prop where
  nodup : ops.Nodup
  exist : ∀ op ∈ ops, (g.op? op).isSome
  producer : ∃ op ∈ ops, g.producer? loss = some op
  closed : ∀ u v, v ∈ ops → g.Feeds u v → u ∈ ops
  /-- None of the ops reads the loss: it would be upstream of itself. -/
  unread : ¬ g.ReadBy ops loss
  needed : ∀ op ∈ ops, ∃ index, g.Needed loss ops op index

/-- The ops that feed op number `v`. -/
def feeders (g : Graph) (v : OpId) : List OpId :=
  match g.op? v with
  | some o => o.inputs.toList.filterMap fun (_, tensor) => g.producer? tensor
  | none => []

theorem mem_feeders {g : Graph} {u v : OpId} : u ∈ g.feeders v ↔ g.Feeds u v := by
  unfold feeders
  cases ho : g.op? v with
  | none => simp [Feeds, inputAt, ho]
  | some o =>
    simp only [List.mem_filterMap, Feeds, inputAt_eq ho]
    constructor
    · rintro ⟨⟨i, t⟩, hmem, hp⟩
      exact ⟨i, t, Ports.mem_toList.1 hmem, hp⟩
    · rintro ⟨i, t, hi, hp⟩
      exact ⟨(i, t), Ports.mem_toList.2 hi, hp⟩

/-- The ops toward an op are those with a chain of wires to it. -/
theorem WellWired.mem_opsToward {g : Graph} (hg : g.WellWired) {p v : OpId}
    (hp : (g.op? p).isSome) : v ∈ g.opsToward p ↔ ReflTransGen g.Feeds v p := by
  have hstep : ∀ u ∈ g.opIds, ∀ v ∈ g.feeders u, v ∈ g.opIds := by
    intro u _ v hv
    obtain ⟨i, t, -, hproducer⟩ := mem_feeders.1 hv
    obtain ⟨x, hx⟩ := hg.producer_exists hproducer
    exact mem_opIds.2 (by simp [hx])
  have hstart : ∀ u ∈ [p], u ∈ g.opIds := by
    intro u hu
    rw [List.mem_singleton.1 hu]
    exact mem_opIds.2 hp
  show v ∈ closure g.feeders (g.opCount + 1) [p] ↔ _
  rw [mem_closure hstep hstart (by simp [opIds, opCount])]
  simp only [Reaches, mem_feeders, List.mem_singleton, exists_eq_left]
  exact reflTransGen_swap (r := g.Feeds)

theorem WellWired.opsToward_exist {g : Graph} (hg : g.WellWired) {p v : OpId}
    (hp : (g.op? p).isSome) (hv : v ∈ g.opsToward p) : (g.op? v).isSome := by
  rcases ReflTransGen.cases_head ((hg.mem_opsToward hp).1 hv) with rfl | ⟨w, ⟨i, t, -, hproducer⟩, -⟩
  · exact hp
  · obtain ⟨y, hy⟩ := hg.producer_exists hproducer
    simp [hy]

/-- In a graph without data cycles, the ops toward the producer of the loss
    are upstream of the loss. -/
theorem WellWired.upstream {g : Graph} (hg : g.WellWired) (hacyclic : Acyclic g.Feeds)
    {loss : TensorId} {p : OpId} (hp : g.producer? loss = some p) :
    g.Upstream loss (g.opsToward p) := by
  obtain ⟨x, hx⟩ := hg.producer_exists hp
  have hmem : ∀ {v}, v ∈ g.opsToward p ↔ ReflTransGen g.Feeds v p :=
    hg.mem_opsToward (by simp [hx])
  refine ⟨closure_nodup _ _ _, fun op hop => hg.opsToward_exist (by simp [hx]) hop,
    ⟨p, hmem.2 .refl, hp⟩, fun u v hv hfeed => ?_, ?_, fun op hop => ?_⟩
  · exact hmem.2 (.head hfeed (hmem.1 hv))
  · rintro ⟨op, hop, i, hi⟩
    exact hacyclic p (.head' ⟨i, loss, hi, hp⟩ (hmem.1 hop))
  · rcases ReflTransGen.cases_head (hmem.1 hop) with rfl | ⟨v, ⟨i, t, hi, hproducer⟩, hv⟩
    · obtain ⟨j, hj⟩ := (hg.produces _ _).1 hp
      exact ⟨j, hop, loss, hj, .inl rfl⟩
    · obtain ⟨j, hj⟩ := (hg.produces _ _).1 hproducer
      exact ⟨j, hop, t, hj, .inr ⟨v, hmem.2 hv, i, hi⟩⟩

end Graph

/-! ## Section 3: The ledgers before anything has happened -/

namespace Backward

open Dataflow.Graph

variable {g : Graph} {loss : TensorId} {ops : List OpId}

/-- Counting the members of a list. -/
theorem getElem?_count (xs : List TensorId) (m : Std.ExtTreeMap TensorId Nat) (t : TensorId) :
    (xs.foldl (fun counts x => counts.insert x (counts.getD x 0 + 1)) m)[t]? =
      if t ∈ xs then some (m.getD t 0 + xs.count t) else m[t]? := by
  induction xs generalizing m with
  | nil => simp
  | cons x rest ih =>
    rw [List.foldl_cons, ih]
    by_cases hx : x = t
    · subst hx
      by_cases hrest : x ∈ rest
      · simp [hrest]
        omega
      · simp [hrest, List.count_eq_zero_of_not_mem hrest]
    · have hxt : ¬ t = x := fun h => hx h.symm
      by_cases hrest : t ∈ rest
      · simp [hrest, hx, Std.ExtTreeMap.getD_insert]
      · simp [hrest, hxt, hx, Std.ExtTreeMap.getElem?_insert]

/-- A tensor that is read is counted once for each reading. -/
theorem getElem?_readCounts (g : Graph) (ops : List OpId) (t : TensorId) :
    (readCounts g ops)[t]? = if readsOf (g.readings ops) t = [] then none
      else some (readsOf (g.readings ops) t).length := by
  have hcount : readCounts g ops = ((g.readings ops).map Reading.tensor).foldl
      (fun counts x => counts.insert x (counts.getD x 0 + 1)) ∅ := by
    unfold readCounts readings
    rw [List.map_flatMap]
    refine congrArg (fun f => List.foldl _ ∅ (List.flatMap f ops)) (funext fun op => ?_)
    cases ho : g.op? op with
    | none => rw [inputsOf, ho]; rfl
    | some o => simp [inputsOf, ho]
  have hlength : (readsOf (g.readings ops) t).length =
      ((g.readings ops).map Reading.tensor).count t := by
    unfold readsOf
    rw [← List.countP_eq_length_filter, List.count, List.countP_map]
    exact List.countP_congr fun r _ => by simp
  rw [hcount, getElem?_count]
  by_cases hmem : t ∈ (g.readings ops).map Reading.tensor
  · have hne : readsOf (g.readings ops) t ≠ [] := by
      obtain ⟨r, hr, hrt⟩ := List.mem_map.1 hmem
      exact List.ne_nil_of_mem (mem_readsOf.2 ⟨hr, hrt⟩)
    rw [if_pos hmem, if_neg hne, hlength]
    simp
  · have hnil : readsOf (g.readings ops) t = [] := by
      rw [List.eq_nil_iff_forall_not_mem]
      intro r hr
      obtain ⟨hr, hrt⟩ := mem_readsOf.1 hr
      exact hmem (List.mem_map.2 ⟨r, hr, hrt⟩)
    rw [if_neg hmem, if_pos hnil]
    exact Std.ExtTreeMap.getElem?_empty

theorem start_partials (g : Graph) (loss : TensorId) (ops : List OpId) :
    (start g loss ops).partials.Tracks (g.readings ops) [] [] [] :=
  PartialGradients.tracks_start (getElem?_readCounts g ops)

theorem mem_neededOutputs {o : Op} {i : Nat} :
    i ∈ neededOutputs (readCounts g ops) loss o ↔
      ∃ t, o.outputs.get? i = some t ∧ (t = loss ∨ g.ReadBy ops t) := by
  have hneeds : ∀ t, ((readCounts g ops).contains t || decide (t = loss)) = true ↔
      t = loss ∨ g.ReadBy ops t := by
    intro t
    rw [readBy_iff, Bool.or_eq_true, decide_eq_true_eq, or_comm,
      Std.ExtTreeMap.contains_eq_isSome_getElem?, getElem?_readCounts]
    split
    · simp [*]
    · simp [*]
  unfold neededOutputs
  rw [Std.ExtTreeSet.mem_ofList, List.contains_iff_mem, List.mem_filterMap]
  constructor
  · rintro ⟨⟨j, t⟩, hmem, hcond⟩
    simp only at hcond
    split at hcond
    · rename_i hneeded
      cases hcond
      exact ⟨t, Ports.mem_toList.1 hmem, (hneeds t).1 hneeded⟩
    · cases hcond
  · rintro ⟨t, hi, hneeded⟩
    refine ⟨(i, t), Ports.mem_toList.2 hi, ?_⟩
    simp only
    rw [if_pos ((hneeds t).2 hneeded)]

theorem requireAll_eq (g : Graph) (loss : TensorId) (ops : List OpId) {todo : List OpId}
    (htodo : ∀ op ∈ todo, (g.op? op).isSome) (l : OutputGradients) :
    ∃ required, requireAll g (readCounts g ops) loss todo l = { l with required } ∧
      ∀ op i, i ∈ required.getD op ∅ ↔
        (op ∈ todo ∧ ∃ t, g.outputAt op i = some t ∧ (t = loss ∨ g.ReadBy ops t)) ∨
        (op ∉ todo ∧ i ∈ l.required.getD op ∅) := by
  induction todo generalizing l with
  | nil => exact ⟨l.required, rfl, fun op i => by simp⟩
  | cons p rest ih =>
    obtain ⟨o, ho⟩ := Option.isSome_iff_exists.1 (htodo p List.mem_cons_self)
    obtain ⟨required, heq, hmem⟩ := ih (fun op hop => htodo op (List.mem_cons_of_mem p hop))
      (l.require p (neededOutputs (readCounts g ops) loss o))
    refine ⟨required, ?_, fun op i => ?_⟩
    · have hstep : requireAll g (readCounts g ops) loss (p :: rest) l =
          requireAll g (readCounts g ops) loss rest
            (l.require p (neededOutputs (readCounts g ops) loss o)) := by
        simp [requireAll, ho]
      rw [hstep, heq]
      rfl
    · rw [hmem]
      by_cases hop : op = p
      · subst hop
        simp only [OutputGradients.require, Std.ExtTreeMap.getD_insert_self, mem_neededOutputs,
          outputAt_eq ho, List.mem_cons_self, not_true_eq_false, false_and, true_and, or_false]
        by_cases hrest : op ∈ rest <;> simp [hrest]
      · have hpo : ¬ p = op := fun h => hop h.symm
        simp [hop, hpo, OutputGradients.require, Std.ExtTreeMap.getD_insert]

theorem start_outputs (hops : ∀ op ∈ ops, (g.op? op).isSome) :
    (start g loss ops).outputs.Tracks (g.Needed loss ops) [] [] [] [] := by
  obtain ⟨required, heq, hmem⟩ := requireAll_eq g loss ops hops {}
  show (requireAll g (readCounts g ops) loss ops {}).Tracks _ _ _ _ _
  rw [heq]
  refine OutputGradients.tracks_start fun op i => ?_
  rw [hmem]
  simp [Needed]

end Backward

end Dataflow
