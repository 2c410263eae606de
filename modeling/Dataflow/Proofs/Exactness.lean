import Mathlib.Data.List.Nodup
import Dataflow.Proofs.Flow
import Dataflow.Proofs.Reachability

/-! # Exactness of differentiation

    Differentiation never stalls, so in the end every op upstream has been
    requested or given up, and what has been grown is read off from the
    history: the gradient ops of the ops with an active output, and one sum
    for each active tensor that is wanted. -/

namespace Dataflow

open Dataflow.Graph Relation

namespace Flow

variable {g : Graph} {options : GradientOptions} {ops : List OpId} {h : History} {b : Backward}

/-! ## Section 1: The seed -/

/-- **The seed**: the op that the loss comes from has been told of it. -/
theorem seed (hs : Stage g options.loss ops) {type : TensorType} {u : Unit}
    (hrun : Growth.seed options.loss type ops (Backward.start g options.loss ops) = .ok u b) :
    ∃ h, Flow g options ops h [] [] b ∧ h.requested = [] ∧ h.settled = [] := by
  obtain ⟨hext, hpartials, hgradients, output, hloss, houtputs⟩ := hs.toSetting.seed hrun
  refine ⟨{ told := [output] },
    ⟨hext, ?_, houtputs, History.Sound.start hloss, nofun, ?_⟩, rfl, rfl⟩
  · rw [hpartials]
    exact Backward.start_partials g options.loss ops
  · intro t d
    simp [hgradients]

/-! ## Section 2: What is active is what has been grown -/

/-- What holds when differentiation has come to its end. -/
structure Finished (g : Graph) (options : GradientOptions) (ops : List OpId) (h : History)
    (b : Backward) : Prop extends Flow g options ops h [] [] b where
  done : ∀ op ∈ ops, op ∈ h.requested ∨ op ∈ h.retired
  settled : ∀ t, g.ReadBy ops t → t ∈ h.settled

namespace Finished

/-- An op that has been told of an output has been requested. -/
theorem requested_of_told (hf : Finished g options ops h b) {op : OpId} {i : Nat}
    (ht : (op, i) ∈ h.told) : op ∈ h.requested := by
  rcases hf.done op (hf.sound.active_of_told ht).1 with hreq | hret
  · exact hreq
  · exact absurd ht ((hf.outputs.tracksAt op).retired_untold hret i)

theorem mem_ops (hf : Finished g options ops h b) {op : OpId} (hop : op ∈ h.requested) :
    op ∈ ops := by
  obtain ⟨i, hi⟩ := (hf.outputs.tracksAt op).requested_told (by simpa using hop)
  exact (hf.sound.active_of_told hi).1

theorem readBy_of_arrivals (hf : Finished g options ops h b) {t : TensorId}
    (ht : h.arrivals t ≠ []) : g.ReadBy ops t := by
  have hne : readsOf h.delivered t ≠ [] := fun hnil => ht (by simp [History.arrivals, hnil])
  obtain ⟨r, hr⟩ := List.exists_mem_of_ne_nil _ hne
  obtain ⟨hmem, rfl⟩ := mem_readsOf.1 hr
  obtain ⟨hop, hin⟩ := mem_readings.1 ((hf.sound.delivered r).1 hmem).1
  exact ⟨r.op, hop, r.index, hin⟩

/-- An op is told of the loss, and of each output at which partial gradients
    arrive. -/
theorem told_of_output (hs : Stage g options.loss ops) (hf : Finished g options ops h b)
    {op : OpId} {i : Nat} {t : TensorId} (hout : g.outputAt op i = some t)
    (hwhy : t = options.loss ∨ h.arrivals t ≠ []) : (op, i) ∈ h.told := by
  have hproducer : g.producer? t = some op := (hs.wellWired.produces t op).2 ⟨i, hout⟩
  rw [hf.sound.told]
  rcases hwhy with rfl | harrived
  · obtain ⟨p, hp, hloss⟩ := hs.upstream.producer
    rw [hproducer] at hloss
    cases hloss
    exact ⟨hp, _, hout, .inl rfl⟩
  · have hread := hf.readBy_of_arrivals harrived
    obtain ⟨v, hv, j, hj⟩ := hread
    exact ⟨hs.upstream.closed op v hv ⟨j, t, hj, hproducer⟩, t, hout,
      .inr ⟨hf.settled t ⟨v, hv, j, hj⟩, harrived⟩⟩

theorem mem_arrivals (hf : Finished g options ops h b) {t e : TensorId} :
    e ∈ h.arrivals t ↔ ∃ op i, op ∈ h.requested ∧ g.Covers op i ∧
      g.inputAt op i = some t ∧ e = Naming.edgeGrad t op i := by
  unfold History.arrivals
  rw [List.mem_map]
  constructor
  · rintro ⟨r, hr, rfl⟩
    obtain ⟨hmem, rfl⟩ := mem_readsOf.1 hr
    obtain ⟨hread, hreq, hcover⟩ := (hf.sound.delivered r).1 hmem
    obtain ⟨-, hin⟩ := mem_readings.1 hread
    exact ⟨r.op, r.index, hreq, hcover, hin, rfl⟩
  · rintro ⟨op, i, hreq, hcover, hin, rfl⟩
    refine ⟨⟨op, i, t⟩, mem_readsOf.2 ⟨(hf.sound.delivered _).2 ⟨?_, hreq, hcover⟩, rfl⟩, rfl⟩
    exact readings_of_mem (hf.mem_ops hreq) hin

/-- **Completeness**: partial gradients arrive at every active tensor. -/
theorem arrivals_of_active (hs : Stage g options.loss ops) (hf : Finished g options ops h b)
    {t : TensorId} (ha : g.Active options.loss t) : t = options.loss ∨ h.arrivals t ≠ [] := by
  induction ha with
  | loss => exact .inl rfl
  | @input op output index u t hout _ hcover hin ih =>
    have htold := hf.told_of_output hs hout ih
    refine .inr (List.ne_nil_of_mem (hf.mem_arrivals.2
      ⟨op, index, hf.requested_of_told htold, hcover, hin, rfl⟩))

/-- **The requested ops** are those with an active output. -/
theorem requested_iff (hs : Stage g options.loss ops) (hf : Finished g options ops h b)
    {op : OpId} : op ∈ h.requested ↔ g.HasActiveOutput options.loss op := by
  constructor
  · exact hf.sound.active op
  · rintro ⟨i, u, hout, hu⟩
    exact hf.requested_of_told (hf.told_of_output hs hout (hf.arrivals_of_active hs hu))

/-- **The tensors with partial gradients** are the active ones but the loss. -/
theorem arrivals_ne_nil (hs : Stage g options.loss ops) (hf : Finished g options ops h b)
    {t : TensorId} : h.arrivals t ≠ [] ↔ g.Active options.loss t ∧ t ≠ options.loss := by
  constructor
  · intro harrived
    refine ⟨hf.sound.active_of_arrivals harrived, ?_⟩
    rintro rfl
    exact hs.upstream.unread (hf.readBy_of_arrivals harrived)
  · rintro ⟨hactive, hne⟩
    exact (hf.arrivals_of_active hs hactive).resolve_left hne

/-- **The sums** are those of the active tensors, but for the loss, that are
    wanted. -/
theorem sum_mem (hs : Stage g options.loss ops) (hf : Finished g options ops h b)
    {t : TensorId} {xs : List TensorId} :
    .sum t xs ∈ h.pieces ↔
      (g.Active options.loss t ∧ t ≠ options.loss ∧ g.Wants options t) ∧ xs = h.arrivals t := by
  rw [hf.sound.sums, hf.arrivals_ne_nil hs]
  constructor
  · rintro ⟨-, hwants, ⟨hactive, hne⟩, rfl⟩
    exact ⟨⟨hactive, hne, hwants⟩, rfl⟩
  · rintro ⟨⟨hactive, hne, hwants⟩, rfl⟩
    have hread := hf.readBy_of_arrivals ((hf.arrivals_ne_nil hs).2 ⟨hactive, hne⟩)
    exact ⟨hf.settled t hread, hwants, ⟨hactive, hne⟩, rfl⟩

end Finished

/-- **The end of differentiation**: a history that explains all of it. -/
theorem finished (hs : Stage g options.loss ops) (hacyclic : Acyclic g.Feeds) {type : TensorType}
    {b₁ : Backward}
    (hseed : Growth.seed options.loss type ops (Backward.start g options.loss ops) = .ok () b₁)
    (hrun : Growth.propagate options ops
      (ops.length + (Backward.start g options.loss ops).partials.expected.size + 1) b₁ = .ok () b) :
    ∃ h, Finished g options ops h b := by
  obtain ⟨h₁, hf₁, hreq, hset⟩ := seed hs hseed
  obtain ⟨h, hf, hops, hts⟩ := hf₁.propagate hs
    (fun _ => Backward.mem_expected g options.loss ops) (by
    rw [hreq, hset, Std.ExtTreeMap.length_keys, List.length_nil]
    omega) hrun
  have hdone := hf.books.done hs.toSetting hacyclic hops hts
  exact ⟨h, hf, hdone, fun t hread => hf.books.settled_of_readers hs.toSetting hts hread
    fun op hop _ _ => hdone op hop⟩

end Flow

/-! ## Section 3: The backward graph -/

/-- The op that op number `p` was grown for, if it is a gradient op. -/
def Graph.forward? (g : Graph) (p : OpId) : Option OpId :=
  ((g.op? p).bind Op.origin?).map GradOrigin.forward

/-- Op number `p` is the sum of `partials` that is the gradient of `t`. -/
def Graph.SumsAt (g : Graph) (p : OpId) (t : TensorId) (partials : List TensorId) : Prop :=
  ∃ o, g.op? p = some o ∧ IsGradSum t partials o

/-- `g'` is `g` with the backward graph of the loss, and nothing else. -/
structure Graph.ExactGradients (g : Graph) (options : GradientOptions) (report : GradientReport)
    (g' : Graph) : Prop where
  old : ∀ p, (g.op? p).isSome → g'.op? p = g.op? p
  new : ∀ p, p ∈ report.grown ↔ g.op? p = none ∧ (g'.op? p).isSome
  nodup : report.grown.Nodup
  /-- An op with an active output has its gradient ops, one for each
      description and in this order. -/
  requested : ∀ op, g.HasActiveOutput options.loss op → ∃ x, g.op? op = some x ∧
    x.operator.gradSpecs (g.view op x) = .ok (g.specsOf op) ∧
    List.Forall₂ (fun spec p => ∃ o, g'.op? p = some o ∧ IsGradOp x op spec o) (g.specsOf op)
      (report.grown.filter (g'.forward? · = some op))
  unrequested : ∀ p ∈ report.grown, ∀ op, g'.forward? p = some op →
    g.HasActiveOutput options.loss op
  /-- The other new ops are sums. -/
  sums : ∀ p ∈ report.grown, g'.forward? p = none → ∃ t partials, g'.SumsAt p t partials
  /-- There are sums for exactly the active tensors that are wanted, the loss
      apart. -/
  summed : ∀ t, (∃ p partials, g'.SumsAt p t partials) ↔
    g.Active options.loss t ∧ t ≠ options.loss ∧ g.Wants options t
  one_sum : ∀ t p p' partials partials', g'.SumsAt p t partials → g'.SumsAt p' t partials' →
    p = p'
  /-- A sum adds up exactly the edge gradients of its tensor, sorted by name. -/
  partials : ∀ p t partials, g'.SumsAt p t partials → partials.Pairwise (· < ·) ∧
    ∀ e, e ∈ partials ↔ ∃ op index, g.HasActiveOutput options.loss op ∧ g.Covers op index ∧
      g.inputAt op index = some t ∧ e = Naming.edgeGrad t op index
  /-- The gradients of leaves are reported. -/
  gradients : ∀ t d : TensorId, report.gradients[t]? = some d ↔
    (∃ p partials, g'.SumsAt p t partials) ∧ g.kind? t ≠ some .computed ∧ d = Naming.grad t

namespace Growth

theorem pairwise_byName (ids : List TensorId) : (byName ids).Pairwise (· < ·) := by
  have hordered : (byName ids).Pairwise fun a b => compare a b = .lt :=
    Std.ExtTreeSet.ordered_toList
  refine hordered.imp fun {a b} hab => ?_
  replace hab : compareOfLessAndEq a b = .lt := hab
  exact compareOfLessAndEq_eq_lt.1 hab

end Growth

namespace Flow.Finished

variable {g : Graph} {options : GradientOptions} {ops : List OpId} {h : History} {b : Backward}

theorem forward?_eq {p : OpId} {piece : Piece} (hp : ∃ o, b.graph.op? p = some o ∧ piece.IsOp g o) :
    piece.forward? = b.graph.forward? p := by
  obtain ⟨o, ho, hop⟩ := hp
  cases piece with
  | gradient forward spec =>
    obtain ⟨x, -, hgrad⟩ := hop
    simp [Piece.forward?, Graph.forward?, ho, hgrad.origin]
  | sum t xs =>
    have hsum : IsGradSum t _ o := hop
    simp [Piece.forward?, Graph.forward?, ho, hsum.origin]

/-- Of all pieces, the gradient ops of a requested op are those it asked for. -/
theorem filter_pieces (hf : Finished g options ops h b) {op : OpId} (hop : op ∈ h.requested) :
    h.pieces.filter (·.forward? = some op) = (g.specsOf op).map (.gradient op) := by
  have hnodup := hf.outputs.requested_nodup
  rw [List.append_nil] at hnodup
  have hsub : h.pieces.filter (·.forward? = some op) =
      (h.pieces.filter (·.forward?.isSome)).filter (·.forward? = some op) := by
    rw [List.filter_filter]
    refine List.filter_congr fun piece _ => ?_
    cases hpiece : piece.forward? <;> simp
  have hself : ∀ p, ((g.specsOf p).map (Piece.gradient p)).filter (·.forward? = some op) =
      if p = op then (g.specsOf p).map (.gradient p) else [] := by
    intro p
    split
    · rename_i heq
      refine List.filter_eq_self.2 fun piece hpiece => ?_
      obtain ⟨spec, -, rfl⟩ := List.mem_map.1 hpiece
      simp [Piece.forward?, heq]
    · rename_i hne
      refine List.filter_eq_nil_iff.2 fun piece hpiece => ?_
      obtain ⟨spec, -, rfl⟩ := List.mem_map.1 hpiece
      simp [Piece.forward?, hne]
  rw [hsub, hf.sound.gradOps, List.filter_flatMap]
  simp only [hself]
  have hother : ∀ ps : List OpId, op ∉ ps →
      (ps.flatMap fun p => if p = op then (g.specsOf p).map (Piece.gradient p) else []) = [] := by
    intro ps hps
    refine List.flatMap_eq_nil_iff.2 fun p hp => if_neg ?_
    rintro rfl
    exact hps hp
  -- the op stands once among the requested ones
  obtain ⟨before, after, hsplit⟩ := List.append_of_mem hop
  rw [hsplit, List.nodup_append] at hnodup
  have hbefore : op ∉ before := fun hin => hnodup.2.2 op hin op List.mem_cons_self rfl
  have hafter : op ∉ after := (List.nodup_cons.1 hnodup.2.1).1
  rw [hsplit, List.flatMap_append, List.flatMap_cons, hother before hbefore, hother after hafter,
    if_pos rfl, List.append_nil, List.nil_append]

/-- Every op that has been grown is one of the pieces. -/
theorem piece_of_grown (hf : Finished g options ops h b) {p : OpId} (hp : p ∈ b.grown) :
    ∃ piece ∈ h.pieces, ∃ o, b.graph.op? p = some o ∧ piece.IsOp g o :=
  forall₂_mem_right hf.ext.new hp

theorem mem_grown (hg : g.WellWired) (hf : Finished g options ops h b) {p : OpId} :
    p ∈ b.grown ↔ g.op? p = none ∧ (b.graph.op? p).isSome := by
  constructor
  · intro hp
    obtain ⟨-, -, o, ho, -⟩ := hf.piece_of_grown hp
    refine ⟨?_, by simp [ho]⟩
    rw [hf.ext.grown, List.mem_range'_1] at hp
    cases hx : g.op? p with
    | none => rfl
    | some x => exact absurd (hg.fresh p (by simp [hx])) (Nat.not_lt.2 hp.1)
  · rintro ⟨hnone, hsome⟩
    have hlt := hf.ext.wellWired.fresh p hsome
    rw [hf.ext.nextOp] at hlt
    rw [hf.ext.grown, List.mem_range'_1]
    refine ⟨Nat.not_lt.1 fun hold => ?_, hlt⟩
    rw [hf.ext.old p hold, hnone] at hsome
    cases hsome

/-- **The sums in the graph** are those among the pieces. -/
theorem sumsAt_iff (hg : g.WellWired)
    (hreserved : ∀ t, (g.tensor? t).isSome → Naming.isReserved t = false)
    (hf : Finished g options ops h b) {t : TensorId} {partials : List TensorId} :
    (∃ p, b.graph.SumsAt p t partials) ↔ ∃ xs, .sum t xs ∈ h.pieces ∧
      partials = Growth.byName xs := by
  constructor
  · rintro ⟨p, o, ho, hsum⟩
    -- no op that was there before has the gradient of a tensor as its output
    have hnew : g.op? p = none := by
      cases hx : g.op? p with
      | none => rfl
      | some x =>
        rw [hf.ext.op_old hg (by simp [hx]), hx] at ho
        cases ho
        have hout : g.outputAt p 0 = some (Naming.grad t) := by
          rw [outputAt_eq hx]
          exact (hsum.outputs 0 _).2 ⟨rfl, rfl⟩
        obtain ⟨y, hy, -⟩ := hg.output_exists hout
        have hnot := hreserved (Naming.grad t) (by simp [hy])
        rw [Naming.isReserved_grad] at hnot
        cases hnot
    obtain ⟨piece, hpiece, o', ho', hop⟩ :=
      hf.piece_of_grown ((hf.mem_grown hg).2 ⟨hnew, by simp [ho]⟩)
    rw [ho] at ho'
    cases ho'
    cases piece with
    | gradient forward spec =>
      obtain ⟨x, -, hgrad⟩ := hop
      have horigin := hsum.origin.symm.trans hgrad.origin
      cases horigin
    | sum u xs =>
      have hsum' : IsGradSum u (Growth.byName xs) o := hop
      obtain ⟨-, hname⟩ := (hsum'.outputs 0 _).1 ((hsum.outputs 0 _).2 ⟨rfl, rfl⟩)
      cases Naming.grad_inj hname
      refine ⟨xs, hpiece, List.ext_getElem? fun i => ?_⟩
      rw [← hsum.inputs, hsum'.inputs]
  · rintro ⟨xs, hpiece, rfl⟩
    obtain ⟨p, -, o, ho, hop⟩ := forall₂_mem_left hf.ext.new hpiece
    exact ⟨p, o, ho, hop⟩

theorem exists_sumsAt (hg : g.WellWired)
    (hreserved : ∀ t, (g.tensor? t).isSome → Naming.isReserved t = false)
    (hf : Finished g options ops h b) {t : TensorId} :
    (∃ p partials, b.graph.SumsAt p t partials) ↔ ∃ xs, .sum t xs ∈ h.pieces := by
  constructor
  · rintro ⟨p, partials, hp⟩
    obtain ⟨xs, hxs, -⟩ := (hf.sumsAt_iff hg hreserved).1 ⟨p, hp⟩
    exact ⟨xs, hxs⟩
  · rintro ⟨xs, hxs⟩
    obtain ⟨p, hp⟩ := (hf.sumsAt_iff hg hreserved).2 ⟨xs, hxs, rfl⟩
    exact ⟨p, _, hp⟩

/-- **Exactness**, from the history. -/
theorem exactGradients (hs : Stage g options.loss ops)
    (hreserved : ∀ t, (g.tensor? t).isSome → Naming.isReserved t = false)
    (hf : Finished g options ops h b) : g.ExactGradients options (b.report options) b.graph where
  old p hp := hf.ext.op_old hs.wellWired hp
  new p := hf.mem_grown hs.wellWired
  nodup := by
    show b.grown.Nodup
    rw [hf.ext.grown]
    exact List.nodup_range'
  requested op hactive := by
    have hop := (hf.requested_iff hs).2 hactive
    obtain ⟨x, hx, hspecs⟩ := hf.sound.described op hop
    refine ⟨x, hx, hspecs, ?_⟩
    have hall := List.rel_filter (p := (·.forward? = some op))
      (q := fun p => b.graph.forward? p = some op) ?_ hf.ext.new
    · rw [hf.filter_pieces hop, List.forall₂_map_left_iff] at hall
      refine hall.imp fun spec p hp => ?_
      obtain ⟨o, ho, x', hx', hgrad⟩ := hp
      rw [hx] at hx'
      cases hx'
      exact ⟨o, ho, hgrad⟩
    · intro piece p hp
      simp [forward?_eq hp]
  unrequested p hp op hforward := by
    obtain ⟨piece, hpiece, hop⟩ := hf.piece_of_grown hp
    rw [← forward?_eq hop] at hforward
    have hmem : piece ∈ h.pieces.filter (·.forward?.isSome) :=
      List.mem_filter.2 ⟨hpiece, by simp [hforward]⟩
    rw [hf.sound.gradOps, List.mem_flatMap] at hmem
    obtain ⟨q, hq, hmem⟩ := hmem
    obtain ⟨spec, -, rfl⟩ := List.mem_map.1 hmem
    cases hforward
    exact hf.sound.active _ hq
  sums p hp hforward := by
    obtain ⟨piece, -, hop⟩ := hf.piece_of_grown hp
    rw [← forward?_eq hop] at hforward
    obtain ⟨o, ho, hsum⟩ := hop
    cases piece with
    | gradient forward spec => cases hforward
    | sum t xs => exact ⟨t, _, o, ho, hsum⟩
  summed t := by
    rw [hf.exists_sumsAt hs.wellWired hreserved]
    simp only [hf.sum_mem hs, exists_and_left, exists_eq, and_true]
  one_sum t p p' partials partials' hp hp' := by
    obtain ⟨o, ho, hsum⟩ := hp
    obtain ⟨o', ho', hsum'⟩ := hp'
    have hout : b.graph.outputAt p 0 = some (Naming.grad t) := by
      rw [outputAt_eq ho]
      exact (hsum.outputs 0 _).2 ⟨rfl, rfl⟩
    have hout' : b.graph.outputAt p' 0 = some (Naming.grad t) := by
      rw [outputAt_eq ho']
      exact (hsum'.outputs 0 _).2 ⟨rfl, rfl⟩
    exact (hf.ext.wellWired.output_inj hout hout').1
  partials p t partials hp := by
    obtain ⟨xs, hxs, rfl⟩ := (hf.sumsAt_iff hs.wellWired hreserved).1 ⟨p, hp⟩
    obtain ⟨-, rfl⟩ := (hf.sum_mem hs).1 hxs
    refine ⟨Growth.pairwise_byName _, fun e => ?_⟩
    rw [Growth.mem_byName, hf.mem_arrivals]
    refine exists_congr fun op => exists_congr fun index => ?_
    rw [← hf.requested_iff hs]
  gradients t d := by
    rw [hf.exists_sumsAt hs.wellWired hreserved]
    exact hf.gradients t d

end Flow.Finished

/-! ## Section 4: Whole runs -/

/-- The builtin operators only look at the types of their own inputs. -/
theorem Builtin.hasLocalGradients {o : Op} {b : Builtin} (h : o.operator = b.operator)
    (op : OpId) : o.HasLocalGradients op := by
  intro g g' hsame
  rw [h]
  show b.gradSpecs _ = b.gradSpecs _
  cases b with
  | reduceSum =>
    have hinputs : ∀ k : Graph, (k.view op o).inputs.get? 0 = o.inputs.get? 0 := fun _ => rfl
    unfold Builtin.gradSpecs
    simp only [hinputs]
    cases hx : o.inputs.get? 0 with
    | none => rfl
    | some x =>
      have htype : (g.view op o).typeOf x = (g'.view op o).typeOf x := hsame 0 x (.inl hx)
      simp only [htype]
  | _ => rfl

namespace Workspace

/-- **Exactness of differentiation.**  Whatever calls have led to a graph
    without data cycles whose ops are settled, each one waiting for the
    gradients of all required outputs or of its only output and describing its
    gradient ops from what it is wired to: if differentiation succeeds, it has
    grown the backward graph of the loss, and nothing else. -/
theorem exactGradients_of_reachable {w : Workspace} (h : w.Reachable)
    (hacyclic : Acyclic w.graph.Feeds)
    (hsettled : ∀ op o, w.graph.op? op = some o → o.isSettled)
    (hwaits : ∀ op o, w.graph.op? op = some o →
      o.operator.WaitsForAll ∨ o.operator.WaitsForOnly)
    (hlocal : ∀ op o, w.graph.op? op = some o → o.HasLocalGradients op)
    {options : GradientOptions} {report : GradientReport} {g' : Graph}
    (hrun : Graph.differentiate options w.graph = .ok report g') :
    w.graph.ExactGradients options report g' := by
  obtain ⟨type, producer, ops, b₁, b, hloss, hops, hseed, hpropagate, rfl, rfl⟩ :=
    Graph.differentiate_eq_ok hrun
  obtain ⟨hproducer, hreserved⟩ := Graph.lossProducer_eq_ok hloss
  have hstage : Stage w.graph options.loss ops := {
    wellWired := h.sound.wellWired
    upstream := hops ▸ h.sound.wellWired.upstream hacyclic hproducer
    prompt := fun op o ho => (h.sound.fitted op o ho).prompt (hsettled op o ho) (hwaits op o ho)
    isLocal := hlocal }
  obtain ⟨history, hfinished⟩ := Flow.finished hstage hacyclic hseed hpropagate
  exact hfinished.exactGradients hstage hreserved

/-- Training of a variable that is squared, by the likelihood of labels.  An op
    on the side does not lead to the loss. -/
def squaredWeights : Workspace :=
  let calls : List Call := [
    .addVar "w" ⟨.f32, [2, 3]⟩ (Payload.zeros 24),
    .addInput "labels" ⟨.i64, [2]⟩,
    .createOp Builtin.mul.operator {},
    .connectInput 0 0 "w",
    .connectInput 0 1 "w",
    .createOutput 0 0 "y",
    .settle 0,
    .createOp Builtin.nll.operator {},
    .connectInput 1 0 "y",
    .connectInput 1 1 "labels",
    .createOutput 1 0 "loss",
    .settle 1,
    .createOp Builtin.relu.operator {},
    .connectInput 2 0 "w",
    .createOutput 2 0 "z",
    .settle 2]
  calls.foldl (fun w c => c.run w) {}

set_option maxRecDepth 100000 in
theorem squaredWeights_operators : squaredWeights.graph.ops.toList.map (fun x => x.2.operator) =
    [Builtin.mul, Builtin.nll, Builtin.relu].map Builtin.operator := rfl

/-- The variable is read twice by one op and once on the side: five ops are
    grown, two of them sums. -/
theorem squaredWeights_exactGradients : ∃ report g',
    Graph.differentiate { loss := "loss" } squaredWeights.graph = .ok report g' ∧
    squaredWeights.graph.ExactGradients { loss := "loss" } report g' ∧
    report.grown.map g'.forward? = [some 1, none, some 0, some 0, none] ∧
    report.gradients.toList = [("w", Naming.grad "w")] := by
  have hreachable : squaredWeights.Reachable := Reachable.run (.start "") _
  have hsettled : ∀ x ∈ squaredWeights.graph.ops.toList, x.2.isSettled := by decide +kernel
  have hacyclic : Acyclic squaredWeights.graph.Feeds := acyclic_of_feeders (by decide +kernel)
  have hgrown : (success? (Graph.differentiate { loss := "loss" } squaredWeights.graph)).map
      (fun x => (x.1.grown.map x.2.forward?, x.1.gradients.toList)) =
        some ([some 1, none, some 0, some 0, none], [("w", Naming.grad "w")]) := by
    decide +kernel
  obtain ⟨x, hrun, hgrown⟩ := Option.map_eq_some_iff.1 hgrown
  rw [success?_eq_some] at hrun
  refine ⟨x.1, x.2, hrun, ?_, (Prod.mk.inj hgrown).1, (Prod.mk.inj hgrown).2⟩
  refine exactGradients_of_reachable hreachable hacyclic (fun op o ho => ?_) (fun op o ho => ?_)
    (fun op o ho => ?_) hrun
  · exact hsettled (op, o) (Std.ExtTreeMap.mem_toList_iff_getElem?_eq_some.2 ho)
  · obtain ⟨b, hb⟩ := builtin_of_operators squaredWeights_operators ho
    exact hb ▸ b.waits
  · obtain ⟨b, hb⟩ := builtin_of_operators squaredWeights_operators ho
    exact b.hasLocalGradients hb op

/-- A variable that is copied, of which only the second copy leads to the loss. -/
def splitWeights : Workspace :=
  let calls : List Call := [
    .addVar "w" ⟨.f32, [2]⟩ (Payload.zeros 8),
    .createOp (.split 1) {},
    .connectInput 0 0 "w",
    .createOutput 0 0 "a",
    .createOutput 0 1 "b",
    .settle 0,
    .createOp Builtin.reduceSum.operator {},
    .connectInput 1 0 "b",
    .createOutput 1 0 "loss",
    .settle 1]
  calls.foldl (fun w c => c.run w) {}

set_option maxRecDepth 100000 in
theorem splitWeights_operators : splitWeights.graph.ops.toList.map (fun x => x.2.operator) =
    [.split 1, Builtin.reduceSum.operator] := rfl

/-- The only condition that fails is that an op which waits for output 0 has no
    other one.  The copies wait for a gradient that is not required, so the
    variable is active and has no gradient, although differentiation succeeds. -/
theorem splitWeights_inexact :
    (splitWeights.Reachable ∧ Acyclic splitWeights.graph.Feeds ∧
      ∀ op o, splitWeights.graph.op? op = some o → o.isSettled ∧
        (o.operator.WaitsForAll ∨ o.operator.WaitsForFirst) ∧ o.HasLocalGradients op) ∧
    ∃ report g', Graph.differentiate { loss := "loss" } splitWeights.graph = .ok report g' ∧
      report.gradients.toList = [] ∧ report.missing = ["w"] ∧
      splitWeights.graph.Active "loss" "w" ∧
      ¬ splitWeights.graph.ExactGradients { loss := "loss" } report g' := by
  have hsettled : ∀ x ∈ splitWeights.graph.ops.toList, x.2.isSettled := by decide +kernel
  have hactive : splitWeights.graph.Active "loss" "w" := by
    have hcovers : ∀ op ∈ [0, 1], splitWeights.graph.Covers op 0 := by
      have htargets : ∀ op ∈ [0, 1], (0, 0) ∈ (splitWeights.graph.specsOf op).flatMap
          fun spec => spec.targets.toList := by
        decide +kernel
      exact fun op hop => covers_of_mem (htargets op hop)
    have hsum : splitWeights.graph.outputAt 1 0 = some "loss" := by decide +kernel
    have hcopy : splitWeights.graph.outputAt 0 1 = some "b" := by decide +kernel
    have hb : splitWeights.graph.Active "loss" "b" :=
      .input hsum .loss (hcovers 1 (by simp)) (by decide +kernel)
    exact .input hcopy hb (hcovers 0 (by simp)) (by decide +kernel)
  refine ⟨⟨Reachable.run (.start "") _, acyclic_of_feeders (by decide +kernel),
    fun op o ho => ⟨?_, ?_⟩⟩, ?_⟩
  · exact hsettled (op, o) (Std.ExtTreeMap.mem_toList_iff_getElem?_eq_some.2 ho)
  · rcases List.mem_pair.1 (operator_mem splitWeights_operators ho) with hsplit | hsum
    · exact ⟨.inr (hsplit ▸ Operator.split_waitsForFirst 1), fun _ _ _ => by rw [hsplit]; rfl⟩
    · exact ⟨.inl (hsum ▸ fun _ _ => rfl), Builtin.hasLocalGradients hsum op⟩
  · have hvalue : (success? (Graph.differentiate { loss := "loss" } splitWeights.graph)).map
        (fun x => (x.1.gradients.toList, x.1.missing)) = some ([], ["w"]) := by
      decide +kernel
    obtain ⟨x, hrun, hvalue⟩ := Option.map_eq_some_iff.1 hvalue
    obtain ⟨hgradients, hmissing⟩ := Prod.mk.inj hvalue
    refine ⟨x.1, x.2, success?_eq_some.1 hrun, hgradients, hmissing, hactive, fun hexact => ?_⟩
    -- an active variable would have a sum, and the sum would be reported
    have hwants : splitWeights.graph.Wants { loss := "loss" } "w" :=
      .inr (.inl ⟨by decide +kernel, by simp⟩)
    have hsum := (hexact.summed "w").2 ⟨hactive, by decide, hwants⟩
    have hreported := (hexact.gradients "w" (Naming.grad "w")).2 ⟨hsum, by decide +kernel, rfl⟩
    have hmem := Std.ExtTreeMap.mem_toList_iff_getElem?_eq_some.2 hreported
    rw [hgradients] at hmem
    cases hmem

end Workspace

end Dataflow
