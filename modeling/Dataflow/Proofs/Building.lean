import Dataflow.Proofs.Activity
import Dataflow.Proofs.Propagation
import Dataflow.Proofs.Schedulable

/-! # The graph of a model

    A graph that has just been built has nothing in it that differentiation
    would leave there: no reserved names and no gradient ops.  Its operators
    come from the catalogue, and all its ops are settled, with the types that
    inference gives (`Graph.Pristine`). -/

namespace Dataflow

namespace Graph

variable {g s g' : Graph} {o : Op}

/-! ## Section 1: Types of new ops -/

/-- **A new op** that has been settled is up to date. -/
theorem Growing.upToDate (h : Growing g o s) (hs : s.WellWired)
    (hrun : s.settle g.nextOp = .ok g') : g'.UpToDate g.nextOp := by
  have hsettles := hs.settles (h.settleOne_of_settle hrun)
  obtain ⟨types, hinfer, htypes⟩ := hsettles.inferred
  have hop : g'.op? g.nextOp = some { o with isSettled := true } := by
    rw [hsettles.op?, if_pos rfl, h.op, if_pos rfl]
    rfl
  have hold : s.op? g.nextOp = some o := by rw [h.op, if_pos rfl]
  refine ⟨types, inferOp_congr hinfer ?_ fun i t hi => ?_, fun i t hi => ?_⟩
  · rw [hop, hold]
    rfl
  · -- the op does not read its own outputs, which are new
    refine hsettles.unwritten t fun j hj => ?_
    rw [inputAt_eq hold] at hi
    rw [outputAt_eq hold] at hj
    have hsome := h.inputs_old i t hi
    rw [(h.made j t hj).1] at hsome
    cases hsome
  · refine htypes i t ?_
    rw [outputAt_eq hop] at hi
    rw [outputAt_eq hold]
    exact hi

/-- An op stays up to date when another one is grown. -/
theorem Grown.upToDate (h : Grown g o g') (hg : g.WellWired) {p : OpId} (hp : (g.op? p).isSome)
    (hdate : g.UpToDate p) : g'.UpToDate p := by
  have hne : p ≠ g.nextOp := Nat.ne_of_lt (hg.fresh p hp)
  refine hdate.congr (by rw [h.op_old hne]) (fun i t hi => ?_) fun i t hi => ?_
  · obtain ⟨x, hx⟩ := hg.input_exists hi
    exact h.type?_old (by simp [hx])
  · exact h.type?_old (tensor_of_producer ((hg.produces t p).2 ⟨i, hi⟩))

/-! ## Section 2: Graphs without a trace of differentiation -/

/-- All names are free for users, all tensors have a type, and all ops are
    settled and belong to the forward graph. -/
structure Pristine (g : Graph) : Prop where
  names : ∀ t, (g.tensor? t).isSome → Naming.isReserved t = false
  typed : ∀ t, (g.tensor? t).isSome → (g.type? t).isSome
  settled : ∀ op o, g.op? op = some o → o.isSettled
  forward : ∀ op o, g.op? op = some o → o.isGradient = false
  upToDate : ∀ op, (g.op? op).isSome → g.UpToDate op

theorem Pristine.insertTensor (h : g.Pristine) (hg : g.WellWired) {id : TensorId} {x : Tensor}
    (hid : g.tensor? id = none) (hname : Naming.isReserved id = false) (hx : x.IsGiven) :
    (g.insertTensor id x).Pristine := by
  have htype : ∀ t, (g.tensor? t).isSome → (g.insertTensor id x).type? t = g.type? t := by
    intro t ht
    have hne : t ≠ id := by
      rintro rfl
      simp [hid] at ht
    simp [type?, hne]
  refine ⟨fun t ht => ?_, fun t ht => ?_, h.settled, h.forward, fun op hop => ?_⟩
  · rw [tensor?_insertTensor] at ht
    split at ht
    · rename_i heq
      rwa [heq]
    · exact h.names t ht
  · rw [tensor?_insertTensor] at ht
    split at ht
    · rename_i heq
      rw [heq]
      simpa [type?] using hx.type
    · rw [htype t ht]
      exact h.typed t ht
  · refine (h.upToDate op hop).congr rfl (fun i t hi => ?_) fun i t hi => ?_
    · obtain ⟨y, hy⟩ := hg.input_exists hi
      exact htype t (by simp [hy])
    · exact htype t (tensor_of_producer ((hg.produces t op).2 ⟨i, hi⟩))

theorem Pristine.grown (h : g.Pristine) (hg : g.WellWired) (hgrown : Grown g o g')
    (hnames : ∀ i t, o.outputs.get? i = some t → Naming.isReserved t = false)
    (horigin : o.origin? = none) (hdate : g'.UpToDate g.nextOp) : g'.Pristine where
  names t ht := by
    rcases hgrown.old_or_new ht with hold | ⟨i, hi⟩
    · exact h.names t hold
    · exact hnames i t hi
  typed t ht := by
    rcases hgrown.old_or_new ht with hold | ⟨i, hi⟩
    · rw [hgrown.type?_old hold]
      exact h.typed t hold
    · obtain ⟨-, type, hx⟩ := hgrown.made i t hi
      simp [type?, hx]
  settled op x hx := by
    rw [hgrown.op] at hx
    split at hx
    · cases hx
      exact hgrown.settled
    · exact h.settled op x hx
  forward op x hx := by
    rw [hgrown.op] at hx
    split at hx
    · cases hx
      simp [Op.isGradient, horigin]
    · exact h.forward op x hx
  upToDate op hop := by
    by_cases heq : op = g.nextOp
    · rw [heq]
      exact hdate
    · rw [hgrown.op_old heq] at hop
      exact hgrown.upToDate hg hop (h.upToDate op hop)

end Graph

/-- Data that flows to higher numbers only does not flow in a circle. -/
theorem Graph.Layered.acyclic_feeds {g : Graph} (h : g.Layered) : Acyclic g.Feeds := by
  refine acyclic_of_lt fun u v ⟨i, t, hin, hp⟩ => ?_
  exact h.forward v i t u hin hp

/-! ## Section 3: Building -/

namespace Model

open Dataflow.Graph

variable {catalogue : Catalogue} {g : Graph}

/-- **Whatever is built is pristine.** -/
theorem Builds.pristine (h : Builds catalogue g) : g.Pristine := by
  induction h with
  | empty scope =>
    refine ⟨fun t ht => ?_, fun t ht => ?_, fun op o ho => ?_, fun op o ho => ?_, fun op ho => ?_⟩
    · simp [tensor?] at ht
    · simp [tensor?] at ht
    · simp [op?] at ho
    · simp [op?] at ho
    · simp [op?] at ho
  | tensor h hid hname hx ih => exact ih.insertTensor h.layered.wellWired hid hname hx
  | declare _ _ ih => exact { ih with }
  | node h _ hnames horigin hgrowing hs hsettle ih =>
    have hg := h.layered.wellWired
    exact ih.grown hg (hgrowing.settle hsettle) hnames horigin (hgrowing.upToDate (hs hg) hsettle)

/-- The operators come from the catalogue. -/
theorem Builds.operator (h : Builds catalogue g) {op : OpId} {o : Op} (ho : g.op? op = some o) :
    ∃ d : NodeDescription,
      catalogue.create d.opType d.attributes d.inputs.length = .ok o.operator := by
  induction h with
  | empty scope => simp [op?] at ho
  | tensor _ _ _ _ ih => exact ih ho
  | declare _ _ ih => exact ih ho
  | @node g s g' d o' _ hoperator _ _ hgrowing _ hsettle ih =>
    rw [(hgrowing.settle hsettle).op] at ho
    split at ho
    · cases ho
      exact ⟨d, hoperator⟩
    · exact ih ho

end Model

namespace Catalogue

theorem mem_builtinSignatures {opType : String} {signature : Signature}
    (h : builtin.find? opType = some signature) : signature ∈ builtinSignatures := by
  have hdistinct : (builtinSignatures.map fun s => (s.name, s)).Pairwise
      fun a b => ¬ compare a.1 b.1 = .eq := by
    rw [List.pairwise_map]
    have hnodup : (builtinSignatures.map Signature.name).Nodup := by decide
    exact (List.pairwise_map.1 hnodup).imp fun hne heq => hne (Std.LawfulEqCmp.eq_of_compare heq)
  have hname : opType ∈ builtin.entries :=
    Std.ExtTreeMap.mem_iff_isSome_getElem?.2 (Option.isSome_of_eq_some h)
  rw [builtin, Std.ExtTreeMap.mem_ofList, List.contains_iff_mem, List.map_map] at hname
  obtain ⟨s, hs, rfl⟩ := List.mem_map.1 hname
  have hfound : builtin.find? s.name = some s :=
    Std.ExtTreeMap.getElem?_ofList_of_mem (Std.LawfulEqCmp.compare_eq_iff_eq.2 rfl) hdistinct
      (List.mem_map_of_mem hs)
  cases hfound.symm.trans h
  exact hs

/-- The catalogue of the builtin operators offers nothing else. -/
theorem create_builtin {opType : String} {attributes : Attributes} {count : Nat}
    {operator : Operator} (h : builtin.create opType attributes count = .ok operator) :
    ∃ b : Builtin, operator = b.operator := by
  unfold create at h
  split at h
  · cases h
  · rename_i signature hfind
    split at h
    · have hmem := mem_builtinSignatures hfind
      simp only [builtinSignatures, List.mem_cons, List.not_mem_nil, or_false] at hmem
      rcases hmem with rfl | rfl | rfl | rfl | rfl | rfl | rfl | rfl | rfl | rfl | rfl | rfl | rfl
      all_goals try
        cases h
        exact ⟨_, rfl⟩
      -- the factor of a scale may be missing
      simp only at h
      split at h
      · cases h
        exact ⟨_, rfl⟩
      · cases h
    · cases h

end Catalogue

end Dataflow
