import Dataflow.Proofs.Growing
import Dataflow.Proofs.Histories
import Dataflow.Proofs.Rules

/-! # Descriptions of gradient ops

    An operator describes its gradient ops by wires and targets.  A description
    suits the types of an op if inference accepts what the wires carry and gives
    the target its own type, taking for granted that the gradient of a tensor
    has the type of the tensor (`GradSpec.Suits`).

    What the builtin operators describe suits every op that their own inference
    accepts, so it passes all checks (`Builtin.suits`). -/

namespace Dataflow

/-! ## Section 1: What inference sees of wires -/

namespace Ports

variable {p : Ports}

/-- Whatever is wired lies within the extent. -/
theorem lt_extent {i : Nat} {t : TensorId} (h : p.get? i = some t) : i < p.extent := by
  have hmem := mem_toList.2 h
  have hne : p.toList ≠ [] := List.ne_nil_of_mem hmem
  have hordered : p.toList.Pairwise fun x y => compare x.1 y.1 = .lt :=
    Std.ExtTreeMap.ordered_keys_toList
  unfold extent
  rw [List.getLast?_eq_some_getLast hne]
  simp only
  rw [← List.dropLast_append_getLast hne, List.mem_append, List.mem_singleton] at hmem
  rcases hmem with hmem | hlast
  · rw [← List.dropLast_append_getLast hne, List.pairwise_append] at hordered
    have hlt := hordered.2.2 _ hmem _ (List.mem_singleton.2 rfl)
    rw [Std.compare_eq_lt] at hlt
    exact Nat.lt_succ_of_lt hlt
  · rw [← hlast]
    exact Nat.lt_succ_self i

/-- The extent ends where something is wired. -/
theorem extent_le {n : Nat} (h : ∀ i t, p.get? i = some t → i < n) : p.extent ≤ n := by
  unfold extent
  split
  · rename_i top t hlast
    exact h top t (mem_toList.1 (List.mem_of_getLast? hlast))
  · exact Nat.zero_le n

end Ports

namespace Graph

theorem getElem?_inputTypes (g : Graph) (p : Ports) (i : Nat) :
    ((g.inputTypes p)[i]?).join = (p.get? i).bind g.type? := by
  unfold inputTypes
  by_cases hi : i < p.extent
  · simp [List.getElem?_range hi]
  · cases hx : p.get? i with
    | none => simp [hi]
    | some t => exact absurd (Ports.lt_extent hx) hi

/-- Wires to the slots from zero on, in order. -/
theorem inputTypes_insertAll (g : Graph) {wires : List (Nat × TensorId)}
    (h : wires.map Prod.fst = List.range wires.length) :
    g.inputTypes ((∅ : Ports).insertAll wires) = wires.map fun w => g.type? w.2 := by
  have hnodup : (wires.map Prod.fst).Nodup := h ▸ List.nodup_range
  have hget : ∀ i (hi : i < wires.length),
      ((∅ : Ports).insertAll wires).get? i = some (wires[i]).2 := by
    intro i hi
    have hslot : (wires[i]).1 = i := by
      have hfst := congrArg (·[i]?) h
      simpa [hi] using hfst
    have hpair : (i, (wires[i]).2) = wires[i] := Prod.ext hslot.symm rfl
    refine (Ports.get?_insertAll_empty hnodup).2 ?_
    rw [hpair]
    exact List.getElem_mem hi
  have hextent : ((∅ : Ports).insertAll wires).extent = wires.length := by
    refine Nat.le_antisymm (Ports.extent_le fun i t hi => ?_) ?_
    · have hmem := List.mem_map_of_mem (f := Prod.fst) ((Ports.get?_insertAll_empty hnodup).1 hi)
      rw [h] at hmem
      exact List.mem_range.1 hmem
    · cases hn : wires.length with
      | zero => exact Nat.zero_le _
      | succ n => exact Ports.lt_extent (hget n (by omega))
  unfold inputTypes
  rw [hextent]
  refine List.ext_getElem (by simp) fun i hi _ => ?_
  simp only [List.length_map, List.length_range] at hi
  simp [hget i hi]

end Graph

/-! ## Section 2: Descriptions that suit -/

/-- The type of what a wire carries to a gradient op of an op with the types
    `inputs` and `outputs`, if each gradient has the type of its tensor. -/
def GradWire.carried (inputs : Rule.Inputs) (outputs : List TensorType) (w : GradWire) :
    Option TensorType :=
  match w.source with
  | .input => (inputs[w.index]?).join
  | .output | .outputGrad => outputs[w.index]?

/-- The slots are numbered from zero, every wire carries something, and what
    inference makes of it is the type of the only target. -/
structure GradSpec.Suits (inputs : Rule.Inputs) (outputs : List TensorType)
    (spec : GradSpec Operator) : Prop where
  slots : spec.wires.map GradWire.slot = List.range spec.wires.length
  typed : ∃ (types : List TensorType) (type : TensorType) (i : Nat),
    spec.wires.map (GradWire.carried inputs outputs) = types.map some ∧
    spec.operator.infer (types.map some) = .ok [type] ∧
    spec.targets.toList = [(0, i)] ∧ (inputs[i]?).join = some type

/-- What an operator is shown of the wiring agrees with the types `inputs`. -/
structure OpView.Shows (inputs : Rule.Inputs) (view : OpView) : Prop where
  typed : ∀ i x, view.inputs.get? i = some x →
    ∃ type, view.typeOf x = .ok type ∧ (inputs[i]?).join = some type
  wired : ∀ i type, (inputs[i]?).join = some type → (view.inputs.get? i).isSome

namespace Builtin

variable {inputs : Rule.Inputs} {outputs : List TensorType}

/-- A gradient op with one target, from the types that its wires carry. -/
theorem suits_gradOp {k : GradBuiltin} {wires : List GradWire} {i : Nat} {type : TensorType}
    (types : List TensorType) (hslots : wires.map GradWire.slot = List.range wires.length)
    (hcarried : wires.map (GradWire.carried inputs outputs) = types.map some)
    (hinfer : k.infer (types.map some) = .ok [type]) (htarget : (inputs[i]?).join = some type) :
    (gradOp k wires i).Suits inputs outputs :=
  ⟨hslots, types, type, i, hcarried, hinfer, rfl, htarget⟩

theorem suits_passThrough {i : Nat} {x : TensorType} (hout : outputs[0]? = some x)
    (hin : (inputs[i]?).join = some x) : (passThrough i).Suits inputs outputs :=
  suits_gradOp [x] rfl (by simp [GradWire.carried, hout]) rfl hin

/-- **The builtin operators describe suitable gradient ops**, one for each
    input that they cover. -/
theorem suits {b : Builtin} (h : b.infer inputs = .ok outputs) {view : OpView}
    (hview : view.Shows inputs) :
    outputs.length = 1 ∧ ∃ specs, b.gradSpecs view = .ok specs ∧
      (Growth.coveredInputs specs).Nodup ∧ ∀ spec ∈ specs, spec.Suits inputs outputs := by
  cases b with
  | identity | print =>
    obtain ⟨x, hx, rfl⟩ := Rule.unary_eq_ok h
    exact ⟨rfl, _, rfl, by decide, List.forall_mem_singleton.2 (suits_passThrough rfl hx)⟩
  | add | accumulateInplace =>
    obtain ⟨x, hx, hy, rfl⟩ := Rule.binary_eq_ok h
    exact ⟨rfl, _, rfl, by decide, List.forall_mem_cons.2 ⟨suits_passThrough rfl hx,
      List.forall_mem_singleton.2 (suits_passThrough rfl hy)⟩⟩
  | sub =>
    obtain ⟨x, hx, hy, rfl⟩ := Rule.binary_eq_ok h
    exact ⟨rfl, _, rfl, by decide, List.forall_mem_cons.2 ⟨suits_passThrough rfl hx,
      List.forall_mem_singleton.2 (suits_gradOp [x] rfl rfl rfl hy)⟩⟩
  | mul =>
    obtain ⟨x, hx, hy, rfl⟩ := Rule.binary_eq_ok h
    refine ⟨rfl, _, rfl, by decide, List.forall_mem_cons.2 ⟨?_, List.forall_mem_singleton.2 ?_⟩⟩
    · exact suits_gradOp [x, x] rfl (by simp [GradWire.carried, hy]) (Rule.binary_pair _ x) hx
    · exact suits_gradOp [x, x] rfl (by simp [GradWire.carried, hx]) (Rule.binary_pair _ x) hy
  | matMul =>
    obtain ⟨e, m, k, n, hx, hy, rfl⟩ := Rule.matrixProduct_eq_ok h
    refine ⟨rfl, _, rfl, by decide, List.forall_mem_cons.2 ⟨?_, List.forall_mem_singleton.2 ?_⟩⟩
    · exact suits_gradOp [⟨e, [m, n]⟩, ⟨e, [k, n]⟩] rfl (by simp [GradWire.carried, hy])
        (Rule.leftFactor_pair _ e m n k) hx
    · exact suits_gradOp [⟨e, [m, k]⟩, ⟨e, [m, n]⟩] rfl (by simp [GradWire.carried, hx])
        (Rule.rightFactor_pair _ e m n k) hy
  | relu =>
    obtain ⟨x, hx, rfl⟩ := Rule.unaryFloat_eq_ok h
    exact ⟨rfl, _, rfl, List.nodup_singleton 0, List.forall_mem_singleton.2
      (suits_gradOp [x, x] rfl rfl (Rule.binary_pair _ x) hx)⟩
  | scale factor =>
    obtain ⟨x, hx, rfl⟩ := Rule.unaryFloat_eq_ok h
    exact ⟨rfl, _, rfl, List.nodup_singleton 0,
      List.forall_mem_singleton.2 (suits_gradOp [x] rfl rfl rfl hx)⟩
  | reduceSum =>
    obtain ⟨x, hx, rfl⟩ := Rule.reduction_eq_ok h
    -- the shape that the sum is spread over is that of the input
    obtain ⟨t, ht⟩ := Option.isSome_iff_exists.1 (hview.wired 0 x hx)
    obtain ⟨type, htype, hx'⟩ := hview.typed 0 t ht
    cases hx'.symm.trans hx
    refine ⟨rfl, [gradOp (.reduceSum x.shape) [⟨0, .outputGrad, 0⟩] 0], ?_,
      List.nodup_singleton 0, List.forall_mem_singleton.2
        (suits_gradOp [TensorType.scalar x.element] rfl rfl rfl hx)⟩
    simp only [gradSpecs, ht]
    exact except_bind_eq_ok.2 ⟨x, htype, rfl⟩
  | sum =>
    obtain ⟨x, hall, rfl⟩ := Rule.variadic_eq_ok h
    refine ⟨rfl, _, rfl, ?_, fun spec hspec => ?_⟩
    · have hcovered : Growth.coveredInputs (view.inputs.toList.map fun y => passThrough y.1)
          = view.inputs.table.keys := by
        rw [Growth.coveredInputs, List.flatMap_map, ← Std.ExtTreeMap.map_fst_toList_eq_keys]
        exact List.map_eq_flatMap.symm
      exact hcovered ▸ Std.ExtTreeMap.nodup_keys
    · obtain ⟨⟨i, t⟩, hmem, rfl⟩ := List.mem_map.1 hspec
      obtain ⟨type, -, htype⟩ := hview.typed i t (Ports.mem_toList.1 hmem)
      have hi : i < inputs.length := by
        by_contra hbeyond
        simp [Nat.not_lt.1 hbeyond] at htype
      exact suits_passThrough rfl (hall i hi)
  | l1 lambda =>
    obtain ⟨x, hx, rfl⟩ := Rule.reduction_eq_ok h
    exact ⟨rfl, _, rfl, List.nodup_singleton 0, List.forall_mem_singleton.2
      (suits_gradOp [x, TensorType.scalar x.element] rfl (by simp [GradWire.carried, hx]) rfl hx)⟩
  | nll =>
    obtain ⟨p, l, hp, hl, rfl⟩ := Rule.likelihood_eq_ok h
    exact ⟨rfl, _, rfl, List.nodup_singleton 0, List.forall_mem_singleton.2
      (suits_gradOp [p, l, TensorType.scalar p.element] rfl
        (by simp [GradWire.carried, hp, hl]) rfl hp)⟩

end Builtin

/-! ## Section 3: Checks and wires -/

namespace Growth

variable {label : String} {o : Op}

theorem repeatedSlot?_eq_none {wires : List GradWire} {seen : List Nat}
    (hnodup : (wires.map GradWire.slot).Nodup) (hnew : ∀ w ∈ wires, w.slot ∉ seen) :
    repeatedSlot? wires seen = none := by
  induction wires generalizing seen with
  | nil => rfl
  | cons w rest ih =>
    obtain ⟨hfirst, hrest⟩ := List.nodup_cons.1 hnodup
    have hw : seen.contains w.slot = false := by simpa using hnew w List.mem_cons_self
    unfold repeatedSlot?
    rw [hw]
    refine ih hrest fun v hv => ?_
    rw [List.mem_cons, not_or]
    refine ⟨fun heq => hfirst ?_, hnew v (List.mem_cons_of_mem w hv)⟩
    exact heq ▸ List.mem_map_of_mem hv

/-- Targets that are wired and not covered yet pass the check. -/
theorem checkTargets_exists_ok {name : String} {pairs : List (Nat × Nat)} {covered : List Nat}
    (hwired : ∀ x ∈ pairs, (o.inputs.get? x.2).isSome) (hnodup : (pairs.map Prod.snd).Nodup)
    (hnew : ∀ i ∈ pairs.map Prod.snd, i ∉ covered) :
    ∃ covered', checkTargets label o name pairs covered = .ok covered' := by
  induction pairs generalizing covered with
  | nil => exact ⟨covered, rfl⟩
  | cons x rest ih =>
    obtain ⟨hfirst, hrest⟩ := List.nodup_cons.1 hnodup
    have hindex : o.inputs.hasIndex x.2 = true := by
      rw [Ports.hasIndex, Std.ExtTreeMap.contains_eq_isSome_getElem?]
      exact hwired x List.mem_cons_self
    have hx : covered.contains x.2 = false := by simpa using hnew x.2 List.mem_cons_self
    unfold checkTargets
    rw [hindex, hx]
    refine ih (fun y hy => hwired y (List.mem_cons_of_mem x hy)) hrest fun i hi => ?_
    rw [List.mem_cons, not_or]
    exact ⟨fun heq => hfirst (heq ▸ hi), hnew i (List.mem_cons_of_mem _ hi)⟩

/-- **Descriptions pass the check** if they cover wired inputs, each of them
    once, and wire no slot twice. -/
theorem checkSpecs_run {specs : List (GradSpec Operator)} {covered : List Nat}
    (hwired : ∀ i ∈ coveredInputs specs, (o.inputs.get? i).isSome)
    (hnodup : (coveredInputs specs).Nodup) (hnew : ∀ i ∈ coveredInputs specs, i ∉ covered)
    (hslots : ∀ spec ∈ specs, (spec.wires.map GradWire.slot).Nodup) :
    checkSpecs label o specs covered = .ok () := by
  induction specs generalizing covered with
  | nil => rfl
  | cons spec rest ih =>
    have hcons : coveredInputs (spec :: rest)
        = spec.targets.toList.map Prod.snd ++ coveredInputs rest := List.flatMap_cons
    rw [hcons] at hwired hnodup hnew
    obtain ⟨hown, hothers, hdisjoint⟩ := List.nodup_append.1 hnodup
    obtain ⟨covered', hcovered⟩ : ∃ covered', checkTargets label o spec.operator.typeName
        spec.targets.toList covered = .ok covered' :=
      checkTargets_exists_ok
        (fun x hx => hwired x.2 (List.mem_append_left _ (List.mem_map_of_mem hx))) hown
        fun i hi => hnew i (List.mem_append_left _ hi)
    refine except_bind_eq_ok.2 ⟨covered', hcovered, ?_⟩
    rw [repeatedSlot?_eq_none (hslots spec List.mem_cons_self) fun _ _ => List.not_mem_nil]
    refine ih (fun i hi => hwired i (List.mem_append_right _ hi)) hothers (fun i hi hin => ?_)
      fun s hs => hslots s (List.mem_cons_of_mem spec hs)
    rcases ((checkTargets_eq_ok hcovered).2.2.2 i).1 hin with hmine | hold
    · exact hdisjoint i hmine i hi rfl
    · exact hnew i (List.mem_append_right _ hi) hold

/-- **Descriptions that suit** the types of an op pass the check. -/
theorem checkSpecs_of_suits {specs : List (GradSpec Operator)} {inputs : Rule.Inputs}
    {outputs : List TensorType} (hnodup : (coveredInputs specs).Nodup)
    (hsuits : ∀ spec ∈ specs, spec.Suits inputs outputs)
    (hwired : ∀ i type, (inputs[i]?).join = some type → (o.inputs.get? i).isSome) :
    checkSpecs label o specs [] = .ok () := by
  refine checkSpecs_run (fun i hi => ?_) hnodup (fun _ _ => List.not_mem_nil) fun spec hspec => ?_
  · obtain ⟨spec, hspec, hi⟩ := List.mem_flatMap.1 hi
    obtain ⟨_, type, j, -, -, hpair, htype⟩ := (hsuits spec hspec).typed
    rw [hpair, List.map_singleton, List.mem_singleton] at hi
    exact hi ▸ hwired j type htype
  · rw [(hsuits spec hspec).slots]
    exact List.nodup_range

/-- The only target of a gradient op, which is wired. -/
theorem targetTensors_singleton {spec : GradSpec Operator} {output input : Nat} {t : TensorId}
    (htargets : spec.targets.toList = [(output, input)]) (ht : o.inputs.get? input = some t) :
    targetTensors label o spec = .ok [(output, input, t)] := by
  unfold targetTensors
  rw [htargets, List.mapM_cons]
  exact except_bind_eq_ok.2 ⟨(output, input, t), by simp only [ht], rfl⟩

/-- **The wires of a gradient op** are there and carry what they should, if
    the source of every wire does. -/
theorem wiring_typed {typeOf : TensorId → Option TensorType} {spec : GradSpec Operator}
    {gradOf : Std.ExtTreeMap TensorId TensorId} {carried : GradWire → Option TensorType}
    {types : List TensorType} (hcarried : spec.wires.map carried = types.map some)
    (hsource : ∀ w ∈ spec.wires, ∀ type, carried w = some type →
      ∃ t, sourceOf? gradOf o w = some t ∧ typeOf t = some type) :
    ∃ inputs, wiring label o spec gradOf = .ok inputs ∧
      inputs.map Prod.fst = spec.wires.map GradWire.slot ∧
      inputs.map (fun x => typeOf x.2) = types.map some := by
  unfold wiring
  generalize spec.wires = wires at hcarried hsource
  induction wires generalizing types with
  | nil =>
    cases types with
    | nil => exact ⟨[], rfl, rfl, rfl⟩
    | cons => cases hcarried
  | cons w rest ih =>
    cases types with
    | nil => cases hcarried
    | cons type types =>
      obtain ⟨hw, hrest⟩ := List.cons.inj hcarried
      obtain ⟨t, ht, htype⟩ := hsource w List.mem_cons_self type hw
      obtain ⟨inputs, hrun, hslots, htypes⟩ := ih hrest fun v hv =>
        hsource v (List.mem_cons_of_mem w hv)
      refine ⟨(w.slot, t) :: inputs, ?_, ?_, ?_⟩
      · rw [List.mapM_cons]
        refine except_bind_eq_ok.2 ⟨(w.slot, t), by rw [ht], ?_⟩
        exact except_bind_eq_ok.2 ⟨inputs, hrun, rfl⟩
      · rw [List.map_cons, List.map_cons, hslots]
      · rw [List.map_cons, List.map_cons, htypes, htype]

end Growth

end Dataflow
