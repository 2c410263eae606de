import Dataflow.Proofs.Rewiring

/-! # What inference sees and what it does

    Inference sees the types of the inputs of an op.  Settling an op stores
    what inference gives at the outputs of the op, marks the op, and reports
    the settled readers of every tensor whose type it has changed.  The
    structure `Graph.Settles` says this once and for all, so that nothing
    below has to look into the two loops again. -/

namespace Dataflow.Graph

variable {g g' : Graph}

/-! ## Section 1: The types of tensors -/

/-- The type of a tensor, if it exists and has one. -/
def type? (g : Graph) (t : TensorId) : Option TensorType := (g.tensor? t).bind Tensor.type?

/-- A change of a tensor that is not a change of its type. -/
theorem type?_modifyTensor (g : Graph) (id t : TensorId) {f : Tensor → Tensor}
    (hf : ∀ x, (f x).type? = x.type?) : (g.modifyTensor id f).type? t = g.type? t := by
  unfold type?
  rw [tensor?_modifyTensor]
  split
  · cases g.tensor? t with
    | none => rfl
    | some x => exact hf x
  · rfl

theorem type?_addReader (g : Graph) (id : TensorId) (op : OpId) (t : TensorId) :
    (g.addReader id op).type? t = g.type? t :=
  type?_modifyTensor g id t fun _ => rfl

theorem type?_dropReader (g : Graph) (id : TensorId) (op : OpId) (t : TensorId) :
    (g.dropReader id op).type? t = g.type? t :=
  type?_modifyTensor g id t fun _ => rfl

theorem type?_wireInput (g : Graph) (op : OpId) (index : Nat) (previous? : Option TensorId)
    (tensor t : TensorId) : (g.wireInput op index previous? tensor).type? t = g.type? t := by
  unfold wireInput
  rw [type?_addReader]
  cases previous? with
  | none => rfl
  | some previous => exact type?_dropReader ..

theorem type?_setProducer (g : Graph) (id : TensorId) (producer? : Option OpId) (t : TensorId) :
    (g.setProducer id producer?).type? t = g.type? t :=
  type?_modifyTensor g id t fun _ => rfl

theorem type?_wireOutput (g : Graph) (op : OpId) (index : Nat) (previous? : Option TensorId)
    (tensor t : TensorId) : (g.wireOutput op index previous? tensor).type? t = g.type? t := by
  unfold wireOutput
  rw [type?_setProducer]
  cases previous? with
  | none => rfl
  | some previous => exact type?_setProducer ..

/-- The types at the ports of an op, absent where nothing is wired. -/
def inputTypes (g : Graph) (inputs : Ports) : List (Option TensorType) :=
  (List.range inputs.extent).map fun i => (inputs.get? i).bind g.type?

/-! ## Section 2: What inference sees -/

theorem inputType_eq_ok {label : String} {t : TensorId} {type : TensorType} :
    g.inputType label t = .ok type ↔ g.type? t = some type := by
  cases ht : g.tensor? t with
  | none => simp [inputType, type?, requireTensor, ht, bind, Except.bind]
  | some x =>
    cases hx : x.type? <;>
      simp [inputType, type?, requireTensor, ht, hx, bind, Except.bind, throw, throwThe,
        MonadExceptOf.throw, pure, Except.pure]

/-- What is known after the types of all inputs have been looked up. -/
theorem getElem?_typed {label : String} {inputs : Ports} {typed : List (Nat × TensorType)}
    (h : (inputs.toList.mapM fun (index, tensor) => do
      return (index, ← g.inputType label tensor)) = .ok typed) (i : Nat) :
    (Std.ExtTreeMap.ofList typed)[i]? = (inputs.get? i).bind g.type? := by
  have hall := mapM_eq_ok h
  have hkeys : typed.map Prod.fst = inputs.toList.map Prod.fst := by
    clear h
    generalize inputs.toList = xs at hall
    induction hall with
    | nil => rfl
    | cons hx _ ih =>
      obtain ⟨type, -, hx⟩ := except_bind_eq_ok.1 hx
      cases hx
      rw [List.map_cons, List.map_cons, ih]
  have hdistinct : typed.Pairwise fun a b => ¬ compare a.1 b.1 = .eq := by
    have hnodup := inputs.nodup_toList_fst
    rw [← hkeys, List.Nodup, List.pairwise_map] at hnodup
    exact hnodup.imp fun hne heq => hne (Std.LawfulEqCmp.compare_eq_iff_eq.1 heq)
  cases hi : inputs.get? i with
  | none =>
    have hnot : (typed.map Prod.fst).contains i = false := by
      rw [hkeys, ← Bool.not_eq_true, List.contains_iff_mem, List.mem_map]
      rintro ⟨⟨j, t⟩, hmem, rfl⟩
      rw [Ports.mem_toList, hi] at hmem
      cases hmem
    exact Std.ExtTreeMap.getElem?_ofList_of_contains_eq_false hnot
  | some t =>
    obtain ⟨y, hy, hx⟩ := forall₂_mem_left hall (Ports.mem_toList.2 hi)
    obtain ⟨type, htype, hx⟩ := except_bind_eq_ok.1 hx
    cases hx
    rw [Option.bind_some, inputType_eq_ok.1 htype]
    exact Std.ExtTreeMap.getElem?_ofList_of_mem (Std.LawfulEqCmp.compare_eq_iff_eq.2 rfl)
      hdistinct hy

/-- **Inference succeeds** when all inputs have a type and the operator accepts
    these types. -/
theorem inferOp_none_eq_ok {op : OpId} {types : List TensorType} :
    g.inferOp op none = .ok types ↔ ∃ o, g.op? op = some o ∧
      (∀ i t, o.inputs.get? i = some t → (g.type? t).isSome) ∧
      o.operator.infer (g.inputTypes o.inputs) = .ok types := by
  have hsees : ∀ (o : Op) typed, (o.inputs.toList.mapM fun (index, tensor) => do
      return (index, ← g.inputType (o.label op) tensor)) = Except.ok typed →
      (List.range o.inputs.extent).map ((Std.ExtTreeMap.ofList typed)[·]?)
        = g.inputTypes o.inputs := by
    intro o typed htyped
    exact List.map_congr_left fun i _ => getElem?_typed htyped i
  unfold inferOp
  simp only [Option.toList_none, List.append_nil]
  constructor
  · intro h
    obtain ⟨o, ho, h⟩ := except_bind_eq_ok.1 h
    obtain ⟨typed, htyped, h⟩ := except_bind_eq_ok.1 h
    refine ⟨o, requireOp_eq_ok.1 ho, fun i t hi => ?_, ?_⟩
    · obtain ⟨y, -, hy⟩ := forall₂_mem_left (mapM_eq_ok htyped) (Ports.mem_toList.2 hi)
      obtain ⟨type, htype, -⟩ := except_bind_eq_ok.1 hy
      rw [inputType_eq_ok.1 htype]
      rfl
    · rw [← hsees o typed htyped]
      exact mapError_eq_ok.1 h
  · rintro ⟨o, ho, htypes, hinfer⟩
    obtain ⟨typed, htyped⟩ := mapM_exists_ok (fun (index, tensor) => do
      return (index, ← g.inputType (o.label op) tensor)) o.inputs.toList (by
        rintro ⟨i, t⟩ hmem
        obtain ⟨type, htype⟩ := Option.isSome_iff_exists.1 (htypes i t (Ports.mem_toList.1 hmem))
        exact ⟨(i, type), except_bind_eq_ok.2 ⟨type, inputType_eq_ok.2 htype, rfl⟩⟩)
    refine except_bind_eq_ok.2 ⟨o, requireOp_eq_ok.2 ho, except_bind_eq_ok.2 ⟨typed, htyped, ?_⟩⟩
    rw [← hsees o typed htyped] at hinfer
    exact mapError_eq_ok.2 hinfer

/-! ## Section 3: What settling does -/

/-- The types that go to the outputs of an op, in order of the outputs. -/
theorem forall₂_outputs {outputs : List (Nat × TensorId)} {types : List TensorType}
    {typed : List (TensorId × TensorType)}
    (h : (outputs.mapM fun (index, id) => (types[index]?).map fun type => (id, type))
      = some typed) :
    List.Forall₂ (fun x y => x.2 = y.1 ∧ types[x.1]? = some y.2) outputs typed := by
  induction outputs generalizing typed with
  | nil =>
    cases h
    exact .nil
  | cons head rest ih =>
    simp only [List.mapM_cons, Option.bind_eq_bind, Option.bind_eq_some_iff] at h
    obtain ⟨x, hx, later, hlater, h⟩ := h
    cases h
    obtain ⟨type, htype, rfl⟩ := Option.map_eq_some_iff.1 hx
    exact .cons ⟨rfl, htype⟩ (ih hlater)

theorem mapM_outputs {outputs : List (Nat × TensorId)} {types : List TensorType}
    {typed : List (TensorId × TensorType)}
    (h : (outputs.mapM fun (index, id) => (types[index]?).map fun type => (id, type))
      = some typed) : typed.map Prod.fst = outputs.map Prod.snd := by
  have hsame := (forall₂_outputs h).imp fun x y hxy => hxy.1
  rw [← List.forall₂_map_right_iff, ← List.forall₂_map_left_iff, List.forall₂_eq_eq_eq] at hsame
  exact hsame.symm

@[simp] theorem type?_setType (g : Graph) (id t : TensorId) (type : TensorType) :
    (g.modifyTensor id fun x => { x with type? := some type }).type? t =
      if t = id then (g.tensor? t).bind fun _ => some type else g.type? t := by
  unfold type?
  rw [tensor?_modifyTensor]
  split
  · cases g.tensor? t <;> rfl
  · rfl

theorem ops_writeTypes {types : List (TensorId × TensorType)} {ops : List OpId}
    (h : g.writeTypes types = .ok (ops, g')) : g'.ops = g.ops := by
  induction types generalizing g ops with
  | nil =>
    cases h
    rfl
  | cons head rest ih =>
    obtain ⟨id, type⟩ := head
    simp only [writeTypes] at h
    obtain ⟨t, -, h⟩ := except_bind_eq_ok.1 h
    split at h
    · exact ih h
    · obtain ⟨⟨later, g₁⟩, hrest, h⟩ := except_bind_eq_ok.1 h
      cases h
      have hops := ih hrest
      exact hops

/-- Only the tensors of the list get another type. -/
theorem type?_writeTypes {types : List (TensorId × TensorType)} {ops : List OpId}
    (h : g.writeTypes types = .ok (ops, g')) {t : TensorId} (ht : t ∉ types.map Prod.fst) :
    g'.type? t = g.type? t := by
  induction types generalizing g ops with
  | nil =>
    cases h
    rfl
  | cons head rest ih =>
    obtain ⟨id, type⟩ := head
    obtain ⟨hne, hrest⟩ := not_or.1 (mt List.mem_cons.2 ht)
    simp only [writeTypes] at h
    obtain ⟨x, -, h⟩ := except_bind_eq_ok.1 h
    split at h
    · exact ih h hrest
    · obtain ⟨⟨later, g₁⟩, hwrite, h⟩ := except_bind_eq_ok.1 h
      cases h
      rw [ih hwrite hrest, type?_setType, if_neg hne]

/-- The tensors of the list get the types of the list, if none is named twice. -/
theorem type?_writeTypes_of_mem {types : List (TensorId × TensorType)} {ops : List OpId}
    (h : g.writeTypes types = .ok (ops, g')) (hnodup : (types.map Prod.fst).Nodup)
    {t : TensorId} {type : TensorType} (ht : (t, type) ∈ types) : g'.type? t = some type := by
  induction types generalizing g ops with
  | nil => cases ht
  | cons head rest ih =>
    obtain ⟨id, first⟩ := head
    obtain ⟨hnot, hnodup⟩ := List.nodup_cons.1 hnodup
    simp only [writeTypes] at h
    obtain ⟨x, hx, h⟩ := except_bind_eq_ok.1 h
    have hx := requireTensor_eq_ok.1 hx
    rcases List.mem_cons.1 ht with heq | hrest
    · cases heq
      split at h
      · rename_i hsame
        rw [type?_writeTypes h hnot, type?, hx, Option.bind_some, hsame]
      · obtain ⟨⟨later, g₁⟩, hwrite, h⟩ := except_bind_eq_ok.1 h
        cases h
        rw [type?_writeTypes hwrite hnot, type?_setType, if_pos rfl, hx]
        rfl
    · split at h
      · exact ih h hnodup hrest
      · obtain ⟨⟨later, g₁⟩, hwrite, h⟩ := except_bind_eq_ok.1 h
        cases h
        exact ih hwrite hnodup hrest

/-- What `writeTypes` reports: settled readers of tensors of the list, and all
    those whose tensor has got another type. -/
theorem affected_writeTypes {types : List (TensorId × TensorType)} {ops : List OpId}
    (h : g.writeTypes types = .ok (ops, g')) :
    (∀ p ∈ ops, g.isSettled p ∧ ∃ t ∈ types.map Prod.fst, p ∈ g.readers t) ∧
    ∀ t p, g'.type? t ≠ g.type? t → p ∈ g.readers t → g.isSettled p → p ∈ ops := by
  induction types generalizing g ops with
  | nil =>
    cases h
    exact ⟨nofun, fun t p hne => absurd rfl hne⟩
  | cons head rest ih =>
    obtain ⟨id, type⟩ := head
    simp only [writeTypes] at h
    obtain ⟨x, hx, h⟩ := except_bind_eq_ok.1 h
    have hx := requireTensor_eq_ok.1 hx
    split at h
    · obtain ⟨hreport, hcover⟩ := ih h
      refine ⟨fun p hp => ?_, hcover⟩
      obtain ⟨hs, t, ht, hread⟩ := hreport p hp
      exact ⟨hs, t, List.mem_cons_of_mem _ ht, hread⟩
    · obtain ⟨⟨later, g₁⟩, hwrite, h⟩ := except_bind_eq_ok.1 h
      cases h
      obtain ⟨hreport, hcover⟩ := ih hwrite
      have hreaders : ∀ t, (g.modifyTensor id fun x => { x with type? := some type }).readers t
          = g.readers t := by
        intro t
        by_cases ht : t = id
        · subst ht
          simp [readers, hx]
        · simp [readers, ht]
      have hid : g.readers id = x.readers.ops := by simp [readers, hx]
      constructor
      · intro p hp
        rcases List.mem_append.1 hp with hp | hp
        · obtain ⟨hp, hs⟩ := List.mem_filter.1 hp
          exact ⟨hs, id, List.mem_cons_self, hid ▸ hp⟩
        · obtain ⟨hs, t, ht, hread⟩ := hreport p hp
          exact ⟨hs, t, List.mem_cons_of_mem _ ht, hreaders t ▸ hread⟩
      · intro t p hne hp hs
        by_cases ht : t = id
        · subst ht
          exact List.mem_append_left _ (List.mem_filter.2 ⟨hid ▸ hp, hs⟩)
        · refine List.mem_append_right _ (hcover t p ?_ ((hreaders t).symm ▸ hp) hs)
          rwa [type?_setType, if_neg ht]

/-- Op number `op` has been settled, and the settled ops of `affected` have to
    be worked out anew. -/
structure Settles (g : Graph) (op : OpId) (affected : List OpId) (g' : Graph) : Prop where
  retyped : Retyped g g'
  /-- The op is marked and the others are left alone. -/
  op? : ∀ p, g'.op? p =
    if p = op then (g.op? p).map fun o => { o with isSettled := true } else g.op? p
  /-- The outputs have the types that inference gives. -/
  inferred : ∃ types, g.inferOp op none = .ok types ∧
    ∀ i t, g.outputAt op i = some t → ∃ type, types[i]? = some type ∧ g'.type? t = some type
  /-- All other tensors have the types they had. -/
  unwritten : ∀ t, (∀ i, g.outputAt op i ≠ some t) → g'.type? t = g.type? t
  /-- Only settled readers of the op are affected. -/
  affected_reads : ∀ p ∈ affected,
    g.isSettled p ∧ ∃ i t, g.outputAt op i = some t ∧ p ∈ g.readers t
  /-- No settled reader of a tensor with another type is left out. -/
  changed : ∀ t p, g'.type? t ≠ g.type? t → p ∈ g.readers t → g.isSettled p → p ∈ affected

/-- **Settling one op** stores what inference gives. -/
theorem WellWired.settles (hg : g.WellWired) {op : OpId} {affected : List OpId}
    (h : g.settleOne op = .ok (affected, g')) : Settles g op affected g' := by
  have hretyped := retyped_settleOne h
  simp only [settleOne] at h
  obtain ⟨types, htypes, h⟩ := except_bind_eq_ok.1 h
  obtain ⟨o, ho, h⟩ := except_bind_eq_ok.1 h
  have ho := requireOp_eq_ok.1 ho
  split at h
  · cases h
  rename_i typed htyped
  obtain ⟨⟨ops, g₁⟩, hwrite, h⟩ := except_bind_eq_ok.1 h
  cases h
  have hall := forall₂_outputs htyped
  have hnames : ∀ t, t ∈ typed.map Prod.fst ↔ ∃ i, g.outputAt op i = some t := by
    intro t
    simp only [mapM_outputs htyped, List.mem_map, outputAt_eq ho, ← Ports.mem_toList, Prod.exists,
      exists_eq_right]
  -- a tensor is at one output only, so each is written once
  have hnodup : (typed.map Prod.fst).Nodup := by
    have hfst := o.outputs.nodup_toList_fst
    rw [mapM_outputs htyped]
    rw [List.Nodup, List.pairwise_map] at hfst ⊢
    refine hfst.imp_of_mem fun {x y} hx hy hne hsnd => hne ?_
    refine hg.output_unique op x.1 y.1 x.2 ?_ ?_
    · rw [outputAt_eq ho]
      exact Ports.mem_toList.1 hx
    · rw [outputAt_eq ho, hsnd]
      exact Ports.mem_toList.1 hy
  obtain ⟨hreport, hcover⟩ := affected_writeTypes hwrite
  refine ⟨hretyped, fun p => ?_, ⟨types, htypes, fun i t hi => ?_⟩, fun t ht => ?_, ?_, hcover⟩
  · rw [op?_modifyOp, Graph.op?, ops_writeTypes hwrite]
    rfl
  · rw [outputAt_eq ho] at hi
    obtain ⟨y, hy, heq, htype⟩ := forall₂_mem_left hall (Ports.mem_toList.2 hi)
    have heq : t = y.1 := heq
    exact ⟨y.2, htype, type?_writeTypes_of_mem hwrite hnodup (heq ▸ hy)⟩
  · exact type?_writeTypes hwrite fun hmem => by
      obtain ⟨i, hi⟩ := (hnames t).1 hmem
      exact ht i hi
  · intro p hp
    obtain ⟨hs, t, ht, hread⟩ := hreport p hp
    obtain ⟨i, hi⟩ := (hnames t).1 ht
    exact ⟨hs, i, t, hi, hread⟩

/-! ## Section 4: Marks of settled ops -/

theorem isSettled_iff {op : OpId} : g.isSettled op ↔ ∃ o, g.op? op = some o ∧ o.isSettled := by
  unfold isSettled
  cases g.op? op <;> simp

theorem mem_opIds_of_isSettled {op : OpId} (h : g.isSettled op) : op ∈ g.opIds := by
  obtain ⟨o, ho, -⟩ := isSettled_iff.1 h
  rw [mem_opIds, ho]
  rfl

theorem Settles.isSettled {op x : OpId} {affected : List OpId} (h : Settles g op affected g')
    (hx : x ≠ op) : g'.isSettled x = g.isSettled x := by
  unfold Graph.isSettled
  rw [h.op? x, if_neg hx]

theorem Settles.marks {op x : OpId} {affected : List OpId} (h : Settles g op affected g')
    (hx : g.isSettled x) : g'.isSettled x := by
  by_cases hop : x = op
  · subst hop
    obtain ⟨o, ho, -⟩ := isSettled_iff.1 hx
    refine isSettled_iff.2 ⟨{ o with isSettled := true }, ?_, rfl⟩
    rw [h.op? x, if_pos rfl, ho]
    rfl
  · rw [h.isSettled hop]
    exact hx

end Dataflow.Graph
