import Dataflow.Proofs.Survivors

/-! # Removal runs through, and once is enough

    Pruning unwires ops one wire at a time, erases them, and then removes
    tensors.  Each of these edits can be refused, and a refusal would leave
    half of the work behind.  None of them is: a wire that an op lists is known
    to its tensor, an op without wires can be erased, and a tensor is removed
    only if it is detached.

    What is left needs the same ops and tensors as before.  So everything in it
    is needed, and pruning once more finds nothing to remove. -/

namespace Dataflow

open Dataflow.Graph

variable {g g' : Graph}

/-! ## Section 1: Unwiring an op -/

/-- `wires` lists what is wired, each index once. -/
structure Ports.Lists (p : Ports) (wires : List (Nat × TensorId)) : Prop where
  nodup : (wires.map Prod.fst).Nodup
  mem : ∀ i t, p.get? i = some t ↔ (i, t) ∈ wires

theorem Ports.lists_toList (p : Ports) : p.Lists p.toList :=
  ⟨p.nodup_toList_fst, fun _ _ => Ports.mem_toList.symm⟩

theorem Ports.Lists.erase {p : Ports} {index : Nat} {tensor : TensorId}
    {rest : List (Nat × TensorId)} (h : p.Lists ((index, tensor) :: rest)) :
    (p.erase index).Lists rest := by
  have hnodup := h.nodup
  rw [List.map_cons, List.nodup_cons] at hnodup
  refine ⟨hnodup.2, fun i t => ?_⟩
  rw [Ports.get?_erase]
  by_cases hi : i = index
  · -- the index is listed once, so it is not listed any more
    subst hi
    simp only [if_true, reduceCtorEq, false_iff]
    intro hmem
    exact hnodup.1 (List.mem_map.2 ⟨(i, t), hmem, rfl⟩)
  · simp [hi, h.mem]

theorem Ports.Lists.isEmpty {p : Ports} (h : p.Lists []) : p.isEmpty := by
  rw [Ports.isEmpty_iff]
  intro i
  cases hi : p.get? i with
  | none => rfl
  | some t => exact absurd ((h.mem i t).1 hi) List.not_mem_nil

/-- Op number `op` is there, and `ins` and `outs` are the wires that it has. -/
structure Graph.Unwiring (op : OpId) (ins outs : List (Nat × TensorId)) (g : Graph) : Prop where
  wellWired : g.WellWired
  wires : ∃ o, g.op? op = some o ∧ o.inputs.Lists ins ∧ o.outputs.Lists outs

namespace Edit

variable {op : OpId} {index : Nat} {tensor : TensorId} {o : Op}

/-- The tensor counts the op, so the wire can be taken off. -/
theorem disconnectInput_run (hg : g.WellWired) (ho : g.op? op = some o)
    (hi : o.inputs.get? index = some tensor) :
    disconnectInput op index g = .ok tensor (g.unwireInput op index tensor) := by
  have hat : g.inputAt op index = some tensor := inputAt_eq_some.2 ⟨o, ho, hi⟩
  obtain ⟨x, hx⟩ := hg.input_exists hat
  have hreads : x.readers.contains op = true := by
    have hmem : op ∈ g.readers tensor := hg.reader_iff.2 ⟨index, hat⟩
    rw [Readers.contains_iff]
    exact Readers.mem_ops.1 (by simpa [readers, hx] using hmem)
  have hx' : (g.modifyOp op fun o => { o with inputs := o.inputs.erase index }).requireTensor
      tensor = .ok x := requireTensor_eq_ok.2 (by simpa using hx)
  simp only [disconnectInput, bind, EStateM.bind, ask, requireOp, ho, hi, change, hx', hreads]
  rfl

theorem disconnectOutput_run (hg : g.WellWired) (ho : g.op? op = some o)
    (hi : o.outputs.get? index = some tensor) :
    disconnectOutput op index g = .ok tensor (g.unwireOutput op index tensor) := by
  obtain ⟨x, hx, -⟩ := hg.output_exists (outputAt_eq_some.2 ⟨o, ho, hi⟩)
  have hx' : (g.modifyOp op fun o => { o with outputs := o.outputs.erase index }).requireTensor
      tensor = .ok x := requireTensor_eq_ok.2 (by simpa using hx)
  simp only [disconnectOutput, bind, EStateM.bind, ask, requireOp, ho, hi, change, hx']
  rfl

variable {ins outs : List (Nat × TensorId)}

/-- **One input** is taken off, and the others are still there. -/
theorem ends_disconnectInput (h : Unwiring op ((index, tensor) :: ins) outs g) :
    Ends (fun _ _ => False) (disconnectInput op index) g fun _ g' => Unwiring op ins outs g' := by
  obtain ⟨o, ho, hins, houts⟩ := h.wires
  have hi := (hins.mem index tensor).2 List.mem_cons_self
  refine Ends.of_ok (disconnectInput_run h.wellWired ho hi) ⟨h.wellWired.unwireInput ho hi, ?_⟩
  refine ⟨{ o with inputs := o.inputs.erase index }, ?_, hins.erase, houts⟩
  simp [unwireInput, dropReader, ho]

/-- **One output** is taken off, and the others are still there. -/
theorem ends_disconnectOutput (h : Unwiring op ins ((index, tensor) :: outs) g) :
    Ends (fun _ _ => False) (disconnectOutput op index) g fun _ g' => Unwiring op ins outs g' := by
  obtain ⟨o, ho, hins, houts⟩ := h.wires
  have hi := (houts.mem index tensor).2 List.mem_cons_self
  refine Ends.of_ok (disconnectOutput_run h.wellWired ho hi) ⟨h.wellWired.unwireOutput ho hi, ?_⟩
  refine ⟨{ o with outputs := o.outputs.erase index }, ?_, hins, houts.erase⟩
  simp [unwireOutput, setProducer, ho]

/-- **All wires** of an op are taken off one by one. -/
theorem ends_disconnectAll (hg : g.WellWired) (ho : g.op? op = some o) :
    Ends (fun _ _ => False) (disconnectAll op) g fun _ g' => Unwiring op [] [] g' := by
  have hstart : Unwiring op o.inputs.toList o.outputs.toList g :=
    ⟨hg, o, ho, o.inputs.lists_toList, o.outputs.lists_toList⟩
  have hask : Ends (fun _ _ => False) (ask (·.requireOp op)) g fun x g' => x = o ∧ g' = g :=
    Ends.of_ok (ask_eq_ok.2 ⟨requireOp_eq_ok.2 ho, rfl⟩) ⟨rfl, rfl⟩
  refine hask.bind fun x g₁ ⟨hx, hg₁⟩ => ?_
  rw [hx, hg₁]
  refine (Ends.forM (I := fun rest s => Unwiring op rest o.outputs.toList s) ?_ hstart).bind
    fun _ g₂ hins => Ends.forM (I := fun rest s => Unwiring op [] rest s) ?_ hins
  · intro ⟨index, tensor⟩ rest s hs
    exact (ends_disconnectInput hs).bind fun _ _ hs' => Ends.pure hs'
  · intro ⟨index, tensor⟩ rest s hs
    exact (ends_disconnectOutput hs).bind fun _ _ hs' => Ends.pure hs'

theorem eraseOp_run (h : Unwiring op [] [] g) : ∃ o, eraseOp op g = .ok o (g.withoutOp op) := by
  obtain ⟨o, ho, hins, houts⟩ := h.wires
  have hdetached : o.isDetached := by
    simp [Op.isDetached, hins.isEmpty, houts.isEmpty]
  refine ⟨o, ?_⟩
  simp only [eraseOp_eq, bind, EStateM.bind, ask, requireOp, ho, hdetached]
  rfl

/-! ## Section 2: Removing ops and tensors -/

/-- **Ops are removed** without a refusal, as long as they are there and named
    once. -/
theorem ends_eraseOps {ops : List OpId} (hg : g.WellWired) (hnodup : ops.Nodup)
    (hexist : ∀ o ∈ ops, (g.op? o).isSome) :
    Ends (fun _ _ => False) (eraseOps ops) g fun _ g' => g'.WellWired := by
  refine (Ends.forM (I := fun rest (s : Graph) => s.WellWired ∧ rest.Nodup ∧
    ∀ o ∈ rest, (s.op? o).isSome) ?_ ⟨hg, hnodup, hexist⟩).mono fun _ _ h => h.1
  intro op rest s ⟨hs, hnodup, hexist⟩
  obtain ⟨hnew, hrest⟩ := List.nodup_cons.1 hnodup
  obtain ⟨o, ho⟩ := Option.isSome_iff_exists.1 (hexist op List.mem_cons_self)
  obtain ⟨_, s₁, hall, hunwired⟩ := (ends_disconnectAll hs ho).exists_ok
  obtain ⟨x, herase⟩ := eraseOp_run hunwired
  refine Ends.of_ok (bind_eq_ok.2 ⟨_, s₁, hall, bind_eq_ok.2 ⟨x, _, herase, rfl⟩⟩) ?_
  refine ⟨(eraseOp_wellWired op).ok hunwired.wellWired herase, hrest, fun o' ho' => ?_⟩
  -- the other ops are not touched
  have hne : o' ≠ op := fun heq => hnew (heq ▸ ho')
  rw [op?_withoutOp, if_neg hne, (disconnectAll_spares hall).op o' (by simpa using hne)]
  exact hexist o' (List.mem_cons_of_mem op ho')

/-- **Tensors are removed** without a refusal, as long as they are detached and
    named once. -/
theorem ends_removeTensors {ids : List TensorId} (hnodup : ids.Nodup)
    (hdetached : ∀ t ∈ ids, ∃ x, g.tensor? t = some x ∧ x.isDetached) :
    Ends (fun _ _ => False) (removeTensors ids) g fun _ _ => True := by
  refine (Ends.forM (I := fun rest (s : Graph) => rest.Nodup ∧ ∀ t ∈ rest, ∃ x,
    s.tensor? t = some x ∧ x.isDetached) ?_ ⟨hnodup, hdetached⟩).mono fun _ _ _ => trivial
  intro id rest s ⟨hnodup, hdetached⟩
  obtain ⟨hnew, hrest⟩ := List.nodup_cons.1 hnodup
  obtain ⟨x, hx, hd⟩ := hdetached id List.mem_cons_self
  refine Ends.of_ok (bind_eq_ok.2 ⟨x, _, removeTensor_eq_ok.2 ⟨hx, hd, rfl⟩, rfl⟩) ?_
  refine ⟨hrest, fun t ht => ?_⟩
  have hne : t ≠ id := fun heq => hnew (heq ▸ ht)
  rw [tensor?_without, if_neg hne]
  exact hdetached t (List.mem_cons_of_mem id ht)

end Edit

namespace Graph

variable {targets : List TensorId}

theorem nodup_deadTensors (g : Graph) (kept : List Part) : (g.deadTensors kept).Nodup := by
  have hsub : ∀ xs : List (TensorId × Tensor), (xs.filterMap fun x =>
      if !kept.contains (.tensor x.1) && x.2.kind ≠ .var && x.2.isDetached then some x.1
      else none).Sublist (xs.map Prod.fst) := by
    intro xs
    induction xs with
    | nil => exact List.Sublist.refl _
    | cons x rest ih =>
      obtain ⟨id, t⟩ := x
      rw [List.filterMap_cons, List.map_cons]
      simp only
      split
      · exact ih.cons _
      · rename_i id' hid
        split at hid
        · cases hid
          exact ih.cons_cons _
        · cases hid
  refine (hsub g.tensors.toList).nodup ?_
  rw [Std.ExtTreeMap.map_fst_toList_eq_keys]
  exact Std.ExtTreeMap.nodup_keys

/-- **Pruning runs through** once it has been decided which ops have to go. -/
theorem WellWired.ends_pruneOps (hg : g.WellWired) {doomed : List OpId} (hnodup : doomed.Nodup)
    (hexist : ∀ o ∈ doomed, (g.op? o).isSome) (kept : List Part) :
    Ends (fun _ _ => False) (Edit.pruneOps doomed kept) g fun _ _ => True := by
  refine (Edit.ends_eraseOps hg hnodup hexist).bind fun _ g₁ _ => ?_
  refine (Ends.get (Q := fun k g₂ => k = g₁ ∧ g₂ = g₁) ⟨rfl, rfl⟩).bind fun k g₂ ⟨hk, hg₂⟩ => ?_
  rw [hk, hg₂]
  refine (Edit.ends_removeTensors (g₁.nodup_deadTensors kept) fun t ht => ?_).bind
    fun _ _ _ => Ends.pure trivial
  obtain ⟨x, hx, -, -, hd⟩ := mem_deadTensors.1 ht
  exact ⟨x, hx, hd⟩

/-! ## Section 3: When nothing is required -/

/-- All ops have to go exactly if none is needed. -/
theorem WellWired.length_doomed (hg : g.WellWired) :
    (g.opIds.filter fun op => !(g.required targets).contains (.op op)).length = g.opCount ↔
      g.requiredOps targets = ∅ := by
  have hcount : g.opCount = g.opIds.length := Std.ExtTreeMap.length_keys.symm
  rw [hcount, List.length_filter_eq_length_iff, Set.eq_empty_iff_forall_notMem]
  constructor
  · intro hall o ho
    have hexists : o ∈ g.opIds := mem_opIds.2 (mem_parts_op.1 (hg.parts_of_required ho))
    have hnot := hall o hexists
    simp only [Bool.not_eq_true', List.contains_eq_mem, decide_eq_false_iff_not] at hnot
    exact hnot ho
  · intro hnone o _
    simpa [requiredOps] using hnone o

/-- **How pruning ends**: it refuses to remove all ops there are, and nothing
    else keeps it from succeeding. -/
theorem WellWired.prune_cases (hg : g.WellWired) (targets : List TensorId) :
    (0 < g.opCount ∧ g.requiredOps targets = ∅) ∧
      Graph.prune targets g = .error .nothingRequired g ∨
    ¬ (0 < g.opCount ∧ g.requiredOps targets = ∅) ∧
      ∃ report g', Graph.prune targets g = .ok report g' := by
  unfold Graph.prune
  simp only [Bool.and_eq_true, decide_eq_true_eq, hg.length_doomed]
  split
  · rename_i hnone
    exact .inl ⟨hnone, rfl⟩
  · rename_i hsome
    have hexist : ∀ o ∈ g.opIds.filter (fun op => !(g.required targets).contains (.op op)),
        (g.op? o).isSome := fun o ho => (mem_doomed.1 ho).1
    have hends := hg.ends_pruneOps (g.nodup_opIds.filter _) hexist (g.required targets)
    obtain ⟨report, g', hrun, -⟩ := hends.exists_ok
    exact .inr ⟨hsome, report, g', by rw [hrun]⟩

/-- What is reached backwards from the declared outputs and the targets that
    exist: producers, ops that write in place, and what is wired to these. -/
inductive ReachedBack (g : Graph) (targets : List TensorId) : Part → Prop where
  | root {t : TensorId} (h : t ∈ g.outputs ∨ t ∈ targets) (ht : (g.tensor? t).isSome) :
      ReachedBack g targets (.tensor t)
  | producer {t : TensorId} {o : OpId} (ht : ReachedBack g targets (.tensor t))
      (h : g.producer? t = some o) : ReachedBack g targets (.op o)
  | writer {t : TensorId} {o : OpId} (ht : ReachedBack g targets (.tensor t))
      (h : g.WritesInPlace o t) : ReachedBack g targets (.op o)
  | input {o : OpId} {i : Nat} {t : TensorId} (ho : ReachedBack g targets (.op o))
      (h : g.inputAt o i = some t) : ReachedBack g targets (.tensor t)
  | output {o : OpId} {i : Nat} {t : TensorId} (ho : ReachedBack g targets (.op o))
      (h : g.outputAt o i = some t) : ReachedBack g targets (.tensor t)

/-- There are ops, but none is pinned, has a side effect or is reached from a
    target. -/
structure NothingRequired (g : Graph) (targets : List TensorId) : Prop where
  nonempty : 0 < g.opCount
  unpinned : ∀ o x, g.op? o = some x → x.settings.pruneable = true
  effectless : ∀ o x, g.op? o = some x → x.operator.hasSideEffect = false
  unreached : ∀ o, ¬ g.ReachedBack targets (.op o)

/-- What is reached from the targets is in every closed choice. -/
theorem ReachedBack.in_closed {ops : Set OpId} {tensors : Set TensorId} {x : Part}
    (h : g.ReachedBack targets x) (hc : g.ClosedUnderNeed targets ops tensors) :
    x.In ops tensors := by
  induction h with
  | root h ht =>
    rcases h with h | h
    · exact hc.outputs _ h
    · exact hc.targets _ h ht
  | producer _ h ih => exact hc.producers _ ih _ h
  | writer _ h ih => exact hc.writers _ ih _ h
  | input _ h ih => exact hc.reads _ ih _ _ h
  | output _ h ih => exact hc.makes _ ih _ _ h

theorem WellWired.nothingRequired_iff (hg : g.WellWired) :
    g.NothingRequired targets ↔ 0 < g.opCount ∧ g.requiredOps targets = ∅ := by
  constructor
  · intro h
    -- the tensors that are reached make a closed choice without any op
    have hclosed : g.ClosedUnderNeed targets ∅ { t | g.ReachedBack targets (.tensor t) } := {
      outputs := fun t ht => .root (.inl ht) (hg.declared t (List.mem_append_right _ ht))
      targets := fun t ht hx => .root (.inr ht) hx
      pinned := fun o x hx hpinned => by simp [h.unpinned o x hx] at hpinned
      effects := fun o x hx heffect => by simp [h.effectless o x hx] at heffect
      reads := fun o ho => ho.elim
      makes := fun o ho => ho.elim
      producers := fun t ht o hp => h.unreached o (.producer ht hp)
      writers := fun t ht o hw => h.unreached o (.writer ht hw) }
    exact ⟨h.nonempty, Set.eq_empty_of_forall_notMem fun o ho => hclosed.required hg ho⟩
  · intro ⟨hpos, hnone⟩
    have hc := hg.closedUnderNeed targets
    rw [hnone] at hc
    exact {
      nonempty := hpos
      unpinned := fun o x hx => by
        cases hpinned : x.settings.pruneable with
        | true => rfl
        | false => exact (hc.pinned o x hx hpinned).elim
      effectless := fun o x hx => by
        cases heffect : x.operator.hasSideEffect with
        | true => exact (hc.effects o x hx heffect).elim
        | false => rfl
      unreached := fun o ho => ho.in_closed hc }

/-! ## Section 4: Pruning what has been pruned -/

namespace Pruned

/-- An op that is left is needed, and the other way round. -/
theorem op_isSome (h : Pruned targets g g') (hg : g.WellWired) (o : OpId) :
    (g'.op? o).isSome ↔ Part.op o ∈ g.required targets :=
  (h.prunedTo hg).op o

/-- What was needed is still enough for all that is left. -/
theorem closed_after (h : Pruned targets g g') (hg : g.WellWired) :
    g'.ClosedUnderNeed targets (g.requiredOps targets) (g.requiredTensors targets) := by
  have hc := hg.closedUnderNeed targets
  have hleft : ∀ o, (g'.op? o).isSome → o ∈ g.requiredOps targets := fun o ho =>
    (h.op_isSome hg o).1 ho
  exact {
    outputs := fun t ht => hc.outputs t (h.outputs ▸ ht)
    targets := fun t ht hx => hc.targets t ht (((h.prunedTo hg).tensor t).1 hx).1
    pinned := fun o x hx _ => hleft o (by simp [hx])
    effects := fun o x hx _ => hleft o (by simp [hx])
    reads := fun o ho i t hi => hc.reads o ho i t (h.inputAt_eq_some.1 hi).2
    makes := fun o ho i t hi => hc.makes o ho i t (h.outputAt_eq_some.1 hi).2
    producers := fun t ht o hp => ((h.producer?_eq_some hg).1 hp).1
    writers := fun t ht o ⟨x, i, hx, _, _⟩ => hleft o (by simp [hx]) }

/-- What is needed now is enough for all that was there before. -/
theorem closed_before (h : Pruned targets g g') (hg : g.WellWired) :
    g.ClosedUnderNeed targets (g'.requiredOps targets) (g'.requiredTensors targets) := by
  have hc := hg.closedUnderNeed targets
  have hc' := h.wellWired.closedUnderNeed targets
  -- what is needed now was needed before
  have hops : ∀ o ∈ g'.requiredOps targets, Part.op o ∈ g.required targets := fun o ho =>
    (h.closed_after hg).required h.wellWired (x := .op o) ho
  have htensors : ∀ t ∈ g'.requiredTensors targets, Part.tensor t ∈ g.required targets :=
    fun t ht => (h.closed_after hg).required h.wellWired (x := .tensor t) ht
  have hsame : ∀ o x, g.op? o = some x → Part.op o ∈ g.required targets → g'.op? o = some x := by
    intro o x hx ho
    rw [h.op, if_pos ho, hx]
  exact {
    outputs := fun t ht => hc'.outputs t (h.outputs ▸ ht)
    targets := fun t ht hx => hc'.targets t ht (h.kept t (.inl (hc.targets t ht hx)) hx)
    pinned := fun o x hx hp => hc'.pinned o x (hsame o x hx (hc.pinned o x hx hp)) hp
    effects := fun o x hx he => hc'.effects o x (hsame o x hx (hc.effects o x hx he)) he
    reads := fun o ho i t hi => hc'.reads o ho i t (h.inputAt_eq_some.2 ⟨hops o ho, hi⟩)
    makes := fun o ho i t hi => hc'.makes o ho i t (h.outputAt_eq_some.2 ⟨hops o ho, hi⟩)
    producers := fun t ht o hp => hc'.producers t ht o
      ((h.producer?_eq_some hg).2 ⟨hc.producers t (htensors t ht) o hp, hp⟩)
    writers := fun t ht o hw => by
      obtain ⟨x, i, hx, hi, hm⟩ := hw
      have ho := hc.writers t (htensors t ht) o ⟨x, i, hx, hi, hm⟩
      exact hc'.writers t ht o ⟨x, i, hsame o x hx ho, hi, hm⟩ }

/-- **The same is needed** before and after pruning. -/
theorem required_iff (h : Pruned targets g g') (hg : g.WellWired) (x : Part) :
    x ∈ g'.required targets ↔ x ∈ g.required targets := by
  constructor
  · intro hx
    have hin := (h.closed_after hg).required h.wellWired hx
    cases x <;> exact hin
  · intro hx
    have hin := (h.closed_before hg).required hg hx
    cases x <;> exact hin

/-- **Once is enough**: a second pruning finds nothing to remove. -/
theorem prune_again (h : Pruned targets g g') (hg : g.WellWired) :
    Graph.prune targets g' = .ok ⟨0, 0⟩ g' := by
  have hdoomed : (g'.opIds.filter fun op => !(g'.required targets).contains (.op op)) = [] := by
    rw [List.filter_eq_nil_iff]
    intro o ho
    have hneed := (h.required_iff hg (.op o)).2 ((h.op_isSome hg o).1 (mem_opIds.1 ho))
    simpa using hneed
  have hdead : g'.deadTensors (g'.required targets) = [] := by
    rw [List.eq_nil_iff_forall_not_mem]
    intro t ht
    obtain ⟨x, hx, hnot, hkind, -⟩ := mem_deadTensors.1 ht
    -- only variables are left without being needed
    have hvar := h.var_of_left hg (mt (h.required_iff hg (.tensor t)).2 hnot) (by simp [hx])
    exact hkind (by simpa [kind?, hx] using hvar)
  have hrun : Edit.pruneOps [] (g'.required targets) g' = .ok ⟨0, 0⟩ g' := by
    show (do Edit.removeTensors (g'.deadTensors (g'.required targets))
             return ⟨0, (g'.deadTensors (g'.required targets)).length⟩ : Edit PruneReport) g' = _
    rw [hdead]
    rfl
  have hcount : ¬ (0 < g'.opCount ∧ 0 = g'.opCount) := by omega
  unfold Graph.prune
  simp only [hdoomed, hrun, List.length_nil, Bool.and_eq_true, decide_eq_true_eq]
  rw [if_neg hcount]

/-- A check that has passed before pruning passes afterwards. -/
theorem check_ok (h : Pruned targets g g') (hg : g.WellWired) (hcheck : g.check = .ok ()) :
    g'.check = .ok () := by
  cases hafter : g'.check with
  | ok u => rfl
  | error e =>
    obtain ⟨t, x, -, hx, hkind, hp, hnot⟩ := h.wellWired.check_error hafter
    have hexists : (g'.tensor? t).isSome := by simp [hx]
    -- the tensor was computed and without a producer before, so it was a declared input
    have hsame := (h.prunedTo hg).tensor_same t hexists
    rw [hx, Option.map_some] at hsame
    obtain ⟨y, hy, hunread⟩ := Option.map_eq_some_iff.1 hsame.symm
    have hy_kind : y.kind = .computed := (congrArg Tensor.kind hunread).trans hkind
    have hy_producer : y.producer? = none := (congrArg Tensor.producer? hunread).trans hp
    have hdeclared := mem_inputs_of_check hcheck hy hy_kind hy_producer
    rw [h.inputs] at hnot
    exact absurd (List.mem_filter.2 ⟨hdeclared, hexists⟩) hnot

end Pruned

end Graph

/-! ## Section 5: All states that can be reached -/

namespace Workspace

/-- **Pruning is clean, and once is enough.**  In every state that can be
    reached and for all targets, pruning is never stopped by an edit that is
    refused.  It refuses itself exactly if there are ops and none of them is
    required, and then nothing has changed.  When it succeeds, a graph that
    has passed the check passes it again, and pruning once more changes
    nothing. -/
theorem cleanlyPruned_of_reachable {w : Workspace} (h : w.Reachable) (targets : List TensorId) :
    (∀ e g', Graph.prune targets w.graph ≠ .error (.graph e) g') ∧
    (∀ g', Graph.prune targets w.graph = .error .nothingRequired g' ↔
      w.graph.NothingRequired targets ∧ g' = w.graph) ∧
    ∀ report g', Graph.prune targets w.graph = .ok report g' →
      (w.graph.check = .ok () → g'.check = .ok ()) ∧
      Graph.prune targets g' = .ok ⟨0, 0⟩ g' := by
  have hg := h.sound.wellWired
  refine ⟨fun e g' hrun => ?_, fun g' => ?_, fun report g' hrun => ?_⟩
  · rcases hg.prune_cases targets with ⟨-, hrefused⟩ | ⟨-, _, _, hok⟩
    · cases hrefused.symm.trans hrun
    · cases hok.symm.trans hrun
  · rw [hg.nothingRequired_iff]
    rcases hg.prune_cases targets with ⟨hnone, hrefused⟩ | ⟨hsome, _, _, hok⟩
    · rw [hrefused]
      constructor
      · intro hrun
        cases hrun
        exact ⟨hnone, rfl⟩
      · intro ⟨_, heq⟩
        rw [heq]
    · rw [hok]
      exact ⟨nofun, fun hnone => absurd hnone.1 hsome⟩
  · have hpruned := hg.pruned hrun
    exact ⟨hpruned.check_ok hg, hpruned.prune_again hg⟩

/-- The variable that is added to in place is read for the output.  Without the
    output nothing is required. -/
theorem accumulator_cleanlyPruned :
    (∃ g', Graph.prune [] accumulator.graph = .ok ⟨2, 4⟩ g' ∧ g'.check = .ok () ∧
      Graph.prune [] g' = .ok ⟨0, 0⟩ g') ∧
    let idle := (Call.removeOutput "y").run accumulator
    idle.graph.NothingRequired [] ∧
      Graph.prune [] idle.graph = .error .nothingRequired idle.graph := by
  have hreachable : accumulator.Reachable := Reachable.run (.start "") _
  have hreport : (match Graph.prune [] accumulator.graph with
      | .ok report _ => some report
      | .error _ _ => none) = some ⟨2, 4⟩ := by
    decide +kernel
  have hcheck : accumulator.graph.check = .ok () := by decide +kernel
  constructor
  · cases hrun : Graph.prune [] accumulator.graph with
    | error e g' =>
      rw [hrun] at hreport
      cases hreport
    | ok report g' =>
      rw [hrun] at hreport
      cases hreport
      obtain ⟨hafter, hagain⟩ := (cleanlyPruned_of_reachable hreachable []).2.2 _ _ hrun
      exact ⟨g', rfl, hafter hcheck, hagain⟩
  · intro idle
    have hidle := cleanlyPruned_of_reachable (hreachable.call (.removeOutput "y")) []
    have hrefused : (match Graph.prune [] idle.graph with
        | .error .nothingRequired _ => true
        | _ => false) = true := by
      decide +kernel
    cases hrun : Graph.prune [] idle.graph with
    | ok report g' =>
      rw [hrun] at hrefused
      cases hrefused
    | error e g' =>
      cases e with
      | graph e => exact absurd hrun (hidle.1 e g')
      | nothingRequired =>
        obtain ⟨hnone, heq⟩ := (hidle.2.1 g').1 hrun
        exact ⟨hnone, by rw [heq]⟩

end Workspace

end Dataflow
