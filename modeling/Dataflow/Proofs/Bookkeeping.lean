import Mathlib.Data.List.Nodup
import Dataflow.Proofs.Histories

/-! # The books of differentiation

    What the two ledgers know and what has happened so far belong together:
    every reading by an op that is done with has been dealt with, and no other
    has (`Books.accounted`).  Nothing here depends on which gradient ops the
    operators ask for.

    From this alone it follows that differentiation never stalls: as long as an
    op upstream of the loss is not done with, some op or some tensor is
    complete (`Books.done`). -/

namespace Dataflow

open Dataflow.Graph Relation

/-- What differentiation can rely on: `ops` are the ops upstream of the loss,
    and each is content with the gradients that can be had. -/
structure Setting (g : Graph) (loss : TensorId) (ops : List OpId) : Prop where
  wellWired : g.WellWired
  upstream : g.Upstream loss ops
  prompt : ∀ op o, g.op? op = some o → o.Prompt

namespace Setting

variable {g : Graph} {loss : TensorId} {ops : List OpId} {b : Backward}

/-- If the tensor does not come from upstream, no output upstream is it. -/
theorem no_output (hs : Setting g loss ops) (hb : b.Carries g) {t : TensorId}
    (ht : (g.tensor? t).isSome) (hnone : ∀ op ∈ ops, b.graph.producer? t ≠ some op) :
    ∀ op ∈ ops, ∀ i, g.outputAt op i ≠ some t := by
  intro op hop i hi
  refine hnone op hop ?_
  rw [producer?_of_unread (hb.tensor t ht)]
  exact (hs.wellWired.produces t op).2 ⟨i, hi⟩

/-- Only computed tensors are outputs. -/
theorem kind_of_output (hs : Setting g loss ops) {op : OpId} {i : Nat} {t : TensorId}
    (hi : g.outputAt op i = some t) : g.kind? t = some .computed :=
  hs.wellWired.computed t op ((hs.wellWired.produces t op).2 ⟨i, hi⟩)

end Setting

theorem nodup_readings {g : Graph} {ops : List OpId} (hops : ops.Nodup) :
    (g.readings ops).Nodup := by
  unfold readings
  refine List.nodup_flatMap.2 ⟨fun op _ => ?_, ?_⟩
  · refine List.Nodup.of_map Reading.index ?_
    rw [List.map_map]
    exact Ports.nodup_toList_fst _
  · refine hops.imp fun hne r hr hr' => hne ?_
    obtain ⟨_, -, rfl⟩ := List.mem_map.1 hr
    obtain ⟨_, -, heq⟩ := List.mem_map.1 hr'
    exact (congrArg Reading.op heq).symm

/-- The ledgers agree with the history: `os` are the ops and `ts` the tensors
    that have been taken out and wait for their turn. -/
structure Books (g : Graph) (loss : TensorId) (ops : List OpId) (h : History) (os : List OpId)
    (ts : List TensorId) (b : Backward) : Prop where
  partials : b.partials.Tracks (g.readings ops) h.delivered h.waived (h.settled ++ ts)
  outputs : b.outputs.Tracks (g.Needed loss ops) h.told h.struck (h.requested ++ os) h.retired
  /-- Exactly the readings by ops that are done with have been dealt with. -/
  accounted : ∀ r, r ∈ h.delivered ∨ r ∈ h.waived ↔
    r ∈ g.readings ops ∧ (r.op ∈ h.requested ∨ r.op ∈ h.retired)
  reported : h.Reported g loss ops

namespace Books

variable {g : Graph} {loss : TensorId} {ops : List OpId} {h : History} {os : List OpId}
  {ts : List TensorId} {b : Backward}

/-! ## Section 1: What the ledgers speak of -/

/-- A tensor that has been taken out was there before anything was grown. -/
theorem taken_tensor (hs : Setting g loss ops) (hb : Books g loss ops h os ts b) {t : TensorId}
    (ht : t ∈ h.settled ++ ts) : (g.tensor? t).isSome := by
  obtain ⟨op, -, i, hi⟩ := readBy_iff.2 (hb.partials.taken_read t ht)
  obtain ⟨y, hy⟩ := hs.wellWired.input_exists hi
  simp [hy]

/-- What is needed of an op, and what it has been told of, are its outputs. -/
theorem wired (hb : Books g loss ops h os ts b) {op : OpId} {o : Op} (ho : g.op? op = some o) :
    (∀ i, g.Needed loss ops op i → (o.outputs.get? i).isSome) ∧
      ∀ i, (op, i) ∈ h.told → (o.outputs.get? i).isSome := by
  constructor
  · rintro i ⟨-, t, hi, -⟩
    rw [← outputAt_eq ho, hi]
    rfl
  · intro i hi
    obtain ⟨-, t, hout, -⟩ := (hb.reported.told op i).1 hi
    rw [← outputAt_eq ho, hout]
    rfl

theorem requested_mem (hb : Books g loss ops h os ts b) {op : OpId}
    (hop : op ∈ h.requested ++ os) : op ∈ ops := by
  obtain ⟨i, hi⟩ := (hb.outputs.tracksAt op).requested_told hop
  exact ((hb.reported.told op i).1 hi).1

/-- There are no more requests than ops, and no more settled tensors than
    tensors that are read. -/
theorem bounded (hb : Books g loss ops h [] [] b) {tensors : List TensorId}
    (htensors : ∀ t, g.ReadBy ops t → t ∈ tensors) :
    h.requested.length ≤ ops.length ∧ h.settled.length ≤ tensors.length := by
  have hrequested := hb.outputs.requested_nodup
  have hsettled := hb.partials.taken_nodup
  rw [List.append_nil] at hrequested hsettled
  constructor
  · refine (hrequested.subperm fun op hop => ?_).length_le
    exact hb.requested_mem (List.mem_append_left _ hop)
  · refine (hsettled.subperm fun t ht => htensors t ?_).length_le
    exact readBy_iff.2 (hb.partials.taken_read t (List.mem_append_left _ ht))

/-! ## Section 2: Nothing stalls -/

/-- Once the readers of a tensor are done with, the ledger counts all of its
    readings. -/
theorem finished_of_readers (hs : Setting g loss ops) (hb : Books g loss ops h os ts b)
    {t : TensorId}
    (hdone : ∀ op ∈ ops, ∀ i, g.inputAt op i = some t → op ∈ h.requested ∨ op ∈ h.retired) :
    (readsOf h.delivered t).length + (readsOf h.waived t).length
      = (readsOf (g.readings ops) t).length := by
  have hall : readsOf (g.readings ops) t ⊆ readsOf h.delivered t ++ readsOf h.waived t := by
    intro r hr
    obtain ⟨hmem, hrt⟩ := mem_readsOf.1 hr
    obtain ⟨hop, hin⟩ := mem_readings.1 hmem
    rw [List.mem_append, mem_readsOf, mem_readsOf]
    exact ((hb.accounted r).2 ⟨hmem, hdone r.op hop r.index (hrt ▸ hin)⟩).imp
      (fun hr => ⟨hr, hrt⟩) fun hr => ⟨hr, hrt⟩
  have hnodup : (readsOf (g.readings ops) t).Nodup := (nodup_readings hs.upstream.nodup).filter _
  have hlength := (hnodup.subperm hall).length_le
  rw [List.length_append] at hlength
  exact Nat.le_antisymm (hb.partials.tracksAt t).bounded hlength

/-- Once the readers of a tensor are done with and nothing is complete, the
    tensor has been dealt with. -/
theorem settled_of_readers (hs : Setting g loss ops) (hb : Books g loss ops h [] [] b)
    (hcomplete : b.partials.complete = ∅) {t : TensorId} (hread : g.ReadBy ops t)
    (hdone : ∀ op ∈ ops, ∀ i, g.inputAt op i = some t → op ∈ h.requested ∨ op ∈ h.retired) :
    t ∈ h.settled := by
  obtain ⟨-, hfinished⟩ := (hb.partials.tracksAt t).finished (hb.finished_of_readers hs hdone)
  by_contra hnot
  rw [if_pos ⟨readBy_iff.1 hread, by simpa using hnot⟩, hcomplete] at hfinished
  cases hfinished

/-- Once all that an op feeds is done with, each of its outputs that is needed
    has its gradient or will never have one. -/
theorem outcome (hs : Setting g loss ops) (hb : Books g loss ops h [] [] b)
    (hcomplete : b.partials.complete = ∅) {op : OpId} (hop : op ∈ ops)
    (hfed : ∀ v ∈ ops, g.Feeds op v → v ∈ h.requested ∨ v ∈ h.retired) (i : Nat)
    (hi : g.Needed loss ops op i) : (op, i) ∈ h.told ∨ (op, i) ∈ h.struck := by
  obtain ⟨-, t, hout, hwhy⟩ := hi
  have htold := hb.reported.told op i
  rcases hwhy with rfl | hread
  · exact .inl (htold.2 ⟨hop, _, hout, .inl rfl⟩)
  · have hproducer : g.producer? t = some op := (hs.wellWired.produces t op).2 ⟨i, hout⟩
    have hsettled : t ∈ h.settled := hb.settled_of_readers hs hcomplete hread
      fun v hv j hj => hfed v hv ⟨j, t, hj, hproducer⟩
    by_cases harrived : h.arrivals t = []
    · exact .inr (hb.reported.struck t hsettled harrived op hop i hout)
    · exact .inl (htold.2 ⟨hop, t, hout, .inr ⟨hsettled, harrived⟩⟩)

/-- **No stall**: when nothing is complete any more, every op upstream has been
    requested or given up. -/
theorem done (hs : Setting g loss ops) (hacyclic : Acyclic g.Feeds)
    (hb : Books g loss ops h [] [] b) (hops : b.outputs.complete = ∅)
    (htensors : b.partials.complete = ∅) :
    ∀ op ∈ ops, op ∈ h.requested ∨ op ∈ h.retired := by
  by_contra hsome
  -- an op that is not done with, but everything it feeds is
  have hne : ops.filter (fun op => op ∉ h.requested ∧ op ∉ h.retired) ≠ [] := by
    intro hnil
    refine hsome fun op hop => ?_
    have hnot := List.filter_eq_nil_iff.1 hnil op hop
    rw [decide_eq_true_eq, ← not_or, not_not] at hnot
    exact hnot
  have hswap : Acyclic (Function.swap g.Feeds) := fun x hx => hacyclic x (transGen_swap.1 hx)
  obtain ⟨op, hmem, hlast⟩ := hswap.exists_first hne
  obtain ⟨hop, hopen⟩ := List.mem_filter.1 hmem
  rw [decide_eq_true_eq] at hopen
  have hfed : ∀ v ∈ ops, g.Feeds op v → v ∈ h.requested ∨ v ∈ h.retired := by
    intro v hv hfeed
    by_contra hnot
    rw [not_or] at hnot
    exact hlast v (List.mem_filter.2 ⟨hv, decide_eq_true hnot⟩) (.single hfeed)
  have houtcome := hb.outcome hs htensors hop hfed
  -- then the op is complete itself
  have hat := hb.outputs.tracksAt op
  have hclosed : op ∉ b.outputs.closed := by
    rw [hat.closed, List.append_nil, not_or]
    exact hopen
  have hall : ∀ i, g.Needed loss ops op i → (op, i) ∉ h.struck → (op, i) ∈ h.told :=
    fun i hi hs => (houtcome i hi).resolve_right hs
  have htold : ∃ i, (op, i) ∈ h.told := by
    rcases hat.hope hclosed (hs.upstream.needed op hop) with htold | ⟨i, hi, hs⟩
    · exact htold
    · exact ⟨i, hall i hi hs⟩
  have hin := hat.complete.2 ⟨hclosed, htold, hall⟩
  rw [hops] at hin
  exact Std.ExtTreeSet.not_mem_empty hin

end Books

/-! ## Section 3: Start and end -/

/-- A new tensor changes nothing of what was there. -/
theorem Backward.extends_start {g g' : Graph} {loss : TensorId} {type : TensorType}
    (ops : List OpId) (hg : g.WellWired)
    (hadd : Edit.addInitialised (Naming.grad loss) .const type (Payload.one type.element) g
      = .ok () g') :
    Backward.Extends g [] { Backward.start g loss ops with
      graph := g'
      gradOf := (∅ : Std.ExtTreeMap TensorId TensorId).insert loss (Naming.grad loss) } := by
  have hwired : g'.WellWired := (Edit.addInitialised_wellWired _ _ _ _).ok hg hadd
  obtain ⟨hg', hfree⟩ := Edit.addInitialised_eq_ok hadd
  refine ⟨⟨hwired, ?_, fun p _ => ?_, fun t ht => ?_⟩, ?_, rfl, .nil, fun t d hd => ?_⟩
  · simp [hg', insertTensor]
  · simp [hg']
  · have hne : t ≠ Naming.grad loss := by
      rintro rfl
      simp [hfree] at ht
    simp [hg', hne]
  · simp [hg', insertTensor]
  · by_cases hs : loss = t
    · subst hs
      simpa using hd.symm
    · simp [hs] at hd

/-- **The seed**: the op that the loss comes from has been told of it. -/
theorem Setting.seed {g : Graph} {loss : TensorId} {ops : List OpId} (hs : Setting g loss ops)
    {type : TensorType} {b : Backward} {u : Unit}
    (hrun : Growth.seed loss type ops (Backward.start g loss ops) = .ok u b) :
    b.Extends g [] ∧ b.partials = (Backward.start g loss ops).partials ∧ b.gradients = ∅ ∧
      ∃ output, (∀ op i, (op, i) = output ↔ op ∈ ops ∧ g.outputAt op i = some loss) ∧
        b.outputs.Tracks (g.Needed loss ops) [output] [] [] [] := by
  obtain ⟨g', hadd, htell⟩ := Growth.seed_eq_ok hrun
  have hext := Backward.extends_start ops hs.wellWired hadd
  obtain ⟨p, hp, hproducer⟩ := hs.upstream.producer
  rcases Growth.tellProducer_eq_ok hext.wellWired htell with ⟨-, hnone⟩ |
    ⟨op, o, index, l, hsource, hinsert, rfl⟩
  · refine absurd ?_ (hnone p hp)
    rw [producer?_of_unread (hext.tensor loss (tensor_of_producer hproducer))]
    exact hproducer
  · obtain ⟨hop, ho, hindex⟩ := hext.isSource hs.wellWired hs.upstream.exist hsource
    refine ⟨{ hext with }, rfl, rfl, (op, index), fun q i => ?_, ?_⟩
    · rw [Prod.mk.injEq]
      constructor
      · rintro ⟨rfl, rfl⟩
        exact ⟨hop, hindex⟩
      · exact fun hi => hs.wellWired.output_inj hi.2 hindex
    · have hwired : (o.outputs.get? index).isSome := by
        rw [← outputAt_eq ho, hindex]
        rfl
      refine (Backward.start_outputs hs.upstream.exist).insert (hs.prompt op o ho) ?_ nofun hwired
        hinsert
      rintro i ⟨-, t, hi, -⟩
      rw [← outputAt_eq ho, hi]
      rfl

/-- There are enough rounds: one for each op upstream, one for each tensor that
    is read, and one more. -/
theorem Backward.mem_expected (g : Graph) (loss : TensorId) (ops : List OpId) {t : TensorId}
    (hread : g.ReadBy ops t) : t ∈ (Backward.start g loss ops).partials.expected.keys := by
  rw [Std.ExtTreeMap.mem_keys, Std.ExtTreeMap.mem_iff_isSome_getElem?]
  show ((Backward.readCounts g ops)[t]?).isSome
  rw [Backward.getElem?_readCounts, if_neg (readBy_iff.1 hread)]
  rfl

end Dataflow
