import Dataflow.Proofs.Bookkeeping

/-! # The flow of gradients

    Differentiation is followed from round to round.  The invariant `Flow`
    says how the history, the two ledgers and the ops that have been grown
    belong together.  It is kept when the gradient ops of one op are grown
    (`Flow.growGradOps`), when one tensor is dealt with (`Flow.growGradient`),
    and hence by whole rounds. -/

namespace Dataflow

open Dataflow.Graph

/-- A setting in which the ops describe their gradient ops from what they are
    wired to. -/
structure Stage (g : Graph) (loss : TensorId) (ops : List OpId) : Prop
    extends Setting g loss ops where
  isLocal : ∀ op o, g.op? op = some o → o.HasLocalGradients op

/-- The state of differentiation between two steps: `os` are the ops and `ts`
    the tensors that have been taken out of the ledgers and wait for their turn. -/
structure Flow (g : Graph) (options : GradientOptions) (ops : List OpId) (h : History)
    (os : List OpId) (ts : List (TensorId × List TensorId)) (b : Backward) : Prop where
  ext : b.Extends g h.pieces
  partials : b.partials.Tracks (g.readings ops) h.delivered h.waived
    (h.settled ++ ts.map Prod.fst)
  outputs : b.outputs.Tracks (g.Needed options.loss ops) h.told h.struck (h.requested ++ os)
    h.retired
  sound : h.Sound g options ops
  waiting : ∀ x ∈ ts, x.2 = h.arrivals x.1
  gradients : ∀ t d : TensorId, b.gradients[t]? = some d ↔
    (∃ xs, .sum t xs ∈ h.pieces) ∧ g.kind? t ≠ some .computed ∧ d = Naming.grad t

namespace Flow

variable {g : Graph} {options : GradientOptions} {ops : List OpId} {h : History}
  {os : List OpId} {ts : List (TensorId × List TensorId)} {b b' : Backward}

/-- The books agree with the flow. -/
theorem books (hf : Flow g options ops h os ts b) :
    Books g options.loss ops h os (ts.map Prod.fst) b where
  partials := hf.partials
  outputs := hf.outputs
  accounted r := by
    rw [hf.sound.delivered, hf.sound.waived]
    tauto
  reported := hf.sound.toReported

/-! ## Section 1: One op -/

/-- An op describes the same gradient ops as before anything was grown. -/
theorem gradSpecs_eq (hs : Stage g options.loss ops) (hf : Flow g options ops h os ts b)
    {op : OpId} {x : Op} (hx : g.op? op = some x) {specs : List (GradSpec Operator)}
    (hspecs : x.operator.gradSpecs (b.graph.view op x) = .ok specs) :
    x.operator.gradSpecs (g.view op x) = .ok specs ∧ g.specsOf op = specs := by
  have hlocal : x.operator.gradSpecs (b.graph.view op x) = x.operator.gradSpecs (g.view op x) := by
    refine hs.isLocal op x hx _ _ fun i t ht => typeOf_of_unread (hf.ext.tensor t ?_)
    rw [← inputAt_eq hx, ← outputAt_eq hx] at ht
    rcases ht with hin | hout
    · obtain ⟨y, hy⟩ := hs.wellWired.input_exists hin
      simp [hy]
    · obtain ⟨y, hy, -⟩ := hs.wellWired.output_exists hout
      simp [hy]
  rw [hlocal] at hspecs
  refine ⟨hspecs, ?_⟩
  simp [specsOf, hx, hspecs]

/-- The readings by an op that none of `specs` covers. -/
def uncoveredReadings (op : OpId) (x : Op) (specs : List (GradSpec Operator)) : List Reading :=
  (Growth.uncovered x specs).map fun y => ⟨op, y.1, y.2⟩

theorem mem_uncoveredReadings {op : OpId} {x : Op} (hx : g.op? op = some x) {r : Reading} :
    r ∈ uncoveredReadings op x (g.specsOf op) ↔
      r.op = op ∧ g.inputAt op r.index = some r.tensor ∧ ¬ g.Covers op r.index := by
  have hmem : ∀ i t, (i, t) ∈ Growth.uncovered x (g.specsOf op) ↔
      g.inputAt op i = some t ∧ ¬ g.Covers op i := by
    intro i t
    unfold Growth.uncovered Covers
    rw [List.mem_filter, Ports.mem_toList, inputAt_eq hx]
    refine and_congr_right fun _ => ?_
    simp [mem_values]
  unfold uncoveredReadings
  rw [List.mem_map]
  constructor
  · rintro ⟨y, hy, rfl⟩
    exact ⟨rfl, (hmem y.1 y.2).1 hy⟩
  · rintro ⟨hr, hun⟩
    exact ⟨(r.index, r.tensor), (hmem r.index r.tensor).2 hun, by rw [← hr]⟩

/-- **The gradient ops of one op**: it is requested. -/
theorem growGradOps (hs : Stage g options.loss ops) {op : OpId}
    (hf : Flow g options ops h (op :: os) ts b) {u : Unit}
    (hrun : Growth.growGradOps options op b = .ok u b') :
    ∃ h', Flow g options ops h' os ts b' ∧ h'.requested = h.requested ++ [op] ∧
      h'.settled = h.settled := by
  obtain ⟨i, htold⟩ := (hf.outputs.tracksAt op).requested_told (by simp)
  obtain ⟨hop, hactive⟩ := hf.sound.active_of_told htold
  obtain ⟨x, hx⟩ := Option.isSome_iff_exists.1 (hs.upstream.exist op hop)
  have hold : ∀ c : Backward, ∀ ps, c.Extends g ps → c.graph.op? op = some x := by
    intro c ps hc
    rw [hc.op_old hs.wellWired (by simp [hx]), hx]
  obtain ⟨o, specs, b₁, o', l, ho, -, hspecs, hcheck, hgrow, ho', hl, rfl⟩ :=
    Growth.growGradOps_eq_ok hrun
  rw [hold b _ hf.ext] at ho
  cases ho
  obtain ⟨hspecs, rfl⟩ := gradSpecs_eq hs hf hx hspecs
  obtain ⟨rs, hext, htracks, hrs, hframe⟩ := Growth.forM_growGradOp hf.ext hs.wellWired hx
    (Growth.checkSpecs_slots hcheck) hf.partials hgrow
  rw [hold b₁ _ hext] at ho'
  cases ho'
  -- the edges that no gradient op covers
  have hwaive : (uncoveredReadings op x (g.specsOf op)).forM
      (fun r => PartialGradients.waive r.tensor) b₁.partials = .ok () l := by
    unfold uncoveredReadings
    rw [List.forM_eq_forM, List.forM_map]
    exact hl
  have htracks' := htracks.waives hwaive
  have hfinal : ∀ t ∈ h.settled ++ ts.map Prod.fst,
      readsOf (h.delivered ++ rs) t = readsOf h.delivered t :=
    fun t ht => hf.partials.final ht htracks'
  refine ⟨{ h with
    delivered := h.delivered ++ rs
    waived := h.waived ++ uncoveredReadings op x (g.specsOf op)
    requested := h.requested ++ [op]
    pieces := h.pieces ++ (g.specsOf op).map (.gradient op) },
    ⟨?_, htracks', ?_, ?_, ?_, ?_⟩, rfl, rfl⟩
  · exact { hext with }
  · show b₁.outputs.Tracks _ _ _ (h.requested ++ [op] ++ os) _
    rw [hframe, List.append_assoc]
    exact hf.outputs
  · refine hf.sound.request hop hactive hx hspecs (fun r => ?_)
      (fun r => mem_uncoveredReadings hx) fun t ht => hfinal t (List.mem_append_left _ ht)
    rw [hrs, inputAt_eq hx]
    rfl
  · intro y hy
    show y.2 = (readsOf (h.delivered ++ rs) y.1).map Reading.grad
    rw [hfinal y.1 (List.mem_append_right _ (List.mem_map_of_mem hy))]
    exact hf.waiting y hy
  · intro t d
    show b₁.gradients[t]? = some d ↔ _
    rw [hframe]
    refine (hf.gradients t d).trans (and_congr_left fun _ => exists_congr fun xs => ?_)
    simp

/-! ## Section 2: One tensor -/

/-- A tensor that waits for its turn was there before anything was grown. -/
theorem waiting_tensor (hs : Stage g options.loss ops) {t : TensorId} {xs : List TensorId}
    (hf : Flow g options ops h os ((t, xs) :: ts) b) : (g.tensor? t).isSome :=
  hf.books.taken_tensor hs.toSetting (by simp)

/-- A tensor at which nothing arrives, once the ledgers know of it. -/
theorem giveUp {t : TensorId} (hf : Flow g options ops h os ((t, []) :: ts) b)
    (struck : List (OpId × Nat)) (retired : List OpId) (ws : List Reading)
    {l : OutputGradients} {ps : PartialGradients}
    (hstruck : ∀ op ∈ ops, ∀ i, g.outputAt op i = some t → (op, i) ∈ struck)
    (hws : ∀ r, r ∈ ws ↔ r ∈ g.readings ops ∧ r.op ∈ retired)
    (hl : l.Tracks (g.Needed options.loss ops) h.told (h.struck ++ struck) (h.requested ++ os)
      (h.retired ++ retired))
    (hps : ps.Tracks (g.readings ops) h.delivered (h.waived ++ ws)
      (h.settled ++ ((t, []) :: ts).map Prod.fst)) :
    ∃ h', Flow g options ops h' os ts { b with outputs := l, partials := ps } ∧
      h'.requested = h.requested ∧ h'.settled = h.settled ++ [t] := by
  have hnil : h.arrivals t = [] := (hf.waiting (t, []) List.mem_cons_self).symm
  refine ⟨{ h with
    settled := h.settled ++ [t]
    struck := h.struck ++ struck
    retired := h.retired ++ retired
    waived := h.waived ++ ws }, ⟨{ hf.ext with }, ?_, hl, hf.sound.giveUp hnil hstruck hws,
    fun x hx => hf.waiting x (List.mem_cons_of_mem _ hx), hf.gradients⟩, rfl, rfl⟩
  show ps.Tracks _ _ _ (h.settled ++ [t] ++ ts.map Prod.fst)
  rw [List.append_assoc]
  exact hps

/-- **A tensor without partial gradients**: its producer is given up. -/
theorem giveUpProducer (hs : Stage g options.loss ops) {t : TensorId}
    (hf : Flow g options ops h os ((t, []) :: ts) b) {u : Unit}
    (hrun : Growth.giveUpProducer ops t b = .ok u b') :
    ∃ h', Flow g options ops h' os ts b' ∧ h'.requested = h.requested ∧
      h'.settled = h.settled ++ [t] := by
  have ht := hf.waiting_tensor hs
  rcases Growth.giveUpProducer_eq_ok hf.ext.wellWired hrun with ⟨rfl, hnone⟩ |
    ⟨op, o, index, given, l, ps, hsource, hwaive, hps, rfl⟩
  · have hout := hs.no_output hf.ext.toCarries ht hnone
    exact hf.giveUp [] [] [] (fun op hop i hi => absurd hi (hout op hop i)) (by simp)
      (by simpa using hf.outputs) (by simpa using hf.partials)
  · obtain ⟨hop, ho, hindex⟩ := hf.ext.isSource hs.wellWired hs.upstream.exist hsource
    have hstruck : ∀ p ∈ ops, ∀ i, g.outputAt p i = some t → (p, i) ∈ [(op, index)] := by
      intro p _ i hi
      obtain ⟨rfl, rfl⟩ := hs.wellWired.output_inj hi hindex
      exact List.mem_singleton_self _
    obtain ⟨hl, -⟩ := hf.outputs.waive (hs.prompt op o ho) (hf.books.wired ho).1 (hf.books.wired ho).2 hwaive
    cases given with
    | false =>
      cases hps
      exact hf.giveUp _ [] [] hstruck (by simp) (by simpa using hl) (by simpa using hf.partials)
    | true =>
      -- all inputs of the op get nothing
      have hall : (g.readings [op]).forM (fun r => PartialGradients.waive r.tensor) b.partials
          = .ok () ps := by
        unfold readings
        rw [List.flatMap_singleton, List.forM_eq_forM, List.forM_map, inputsOf, ho]
        exact hps
      refine hf.giveUp _ _ _ hstruck (fun r => ?_) hl (hf.partials.waives hall)
      rw [mem_readings, mem_readings, List.mem_singleton]
      constructor
      · rintro ⟨rfl, hin⟩
        exact ⟨⟨hop, hin⟩, rfl⟩
      · rintro ⟨⟨-, hin⟩, rfl⟩
        exact ⟨rfl, hin⟩

/-- A tensor with partial gradients, once the ledgers and the graph know of it. -/
theorem complete {t : TensorId} {xs : List TensorId}
    (hf : Flow g options ops h os ((t, xs) :: ts) b) (hne : xs ≠ [])
    (told : List (OpId × Nat)) (pieces : List Piece)
    (htold : ∀ op i, (op, i) ∈ told ↔ op ∈ ops ∧ g.outputAt op i = some t)
    (hpieces : g.Wants options t ∧ pieces = [.sum t xs] ∨ ¬ g.Wants options t ∧ pieces = [])
    (hext : b'.Extends g (h.pieces ++ pieces)) (hpartials : b'.partials = b.partials)
    (houtputs : b'.outputs.Tracks (g.Needed options.loss ops) (h.told ++ told) h.struck
      (h.requested ++ os) h.retired)
    (hgradients : ∀ s d : TensorId, b'.gradients[s]? = some d ↔
      (∃ ys, .sum s ys ∈ h.pieces ++ pieces) ∧ g.kind? s ≠ some .computed ∧ d = Naming.grad s) :
    ∃ h', Flow g options ops h' os ts b' ∧ h'.requested = h.requested ∧
      h'.settled = h.settled ++ [t] := by
  have hxs : xs = h.arrivals t := hf.waiting (t, xs) List.mem_cons_self
  subst hxs
  refine ⟨{ h with
    settled := h.settled ++ [t]
    told := h.told ++ told
    pieces := h.pieces ++ pieces }, ⟨hext, ?_, houtputs, hf.sound.complete hne htold hpieces,
    fun x hx => hf.waiting x (List.mem_cons_of_mem _ hx), hgradients⟩, rfl, rfl⟩
  show b'.partials.Tracks _ _ _ (h.settled ++ [t] ++ ts.map Prod.fst)
  rw [hpartials, List.append_assoc]
  exact hf.partials

/-- **A tensor that is summed**: its producer is told of it. -/
theorem growSum (hs : Stage g options.loss ops) {t total : TensorId} {xs : List TensorId}
    (hf : Flow g options ops h os ((t, xs) :: ts) b) (hne : xs ≠ []) (hwants : g.Wants options t)
    {kind : TensorKind} (hkind : g.kind? t = some kind) {b₁ : Backward} {u : Unit}
    (hsum : Growth.growSum t xs b = .ok total b₁)
    (hrest : if kind = .var ∨ kind = .stream then
        b' = { b₁ with gradients := b₁.gradients.insert t total }
      else Growth.tellProducer ops t b₁ = .ok u b') :
    ∃ h', Flow g options ops h' os ts b' ∧ h'.requested = h.requested ∧
      h'.settled = h.settled ++ [t] := by
  have hold := hf.waiting_tensor hs
  obtain ⟨rfl, hext, hpartials, houtputs, hgradients⟩ := Growth.growSum_extends hf.ext hsum
  have hsums : ∀ s, (∃ ys, .sum s ys ∈ h.pieces ++ [.sum t xs]) ↔
      (∃ ys, .sum s ys ∈ h.pieces) ∨ s = t := by
    intro s
    simp [exists_or]
  split at hrest
  · -- a leaf: its gradient is reported
    rename_i hleaf
    subst hrest
    have hnot : g.kind? t ≠ some .computed := by
      rw [hkind]
      rintro ⟨⟩
      exact absurd hleaf (by decide)
    refine hf.complete hne [] _ (fun op i => ?_) (.inl ⟨hwants, rfl⟩) { hext with } hpartials
      (by simpa [houtputs] using hf.outputs) (fun s d => ?_)
    · simp only [List.not_mem_nil, false_iff, not_and]
      exact fun _ hi => hnot (hs.kind_of_output hi)
    · show (b₁.gradients.insert t (Naming.grad t))[s]? = some d ↔ _
      rw [hsums, hgradients]
      by_cases hst : s = t
      · subst hst
        simp [hnot, eq_comm]
      · have hts : ¬ t = s := fun heq => hst heq.symm
        rw [or_iff_left hst, ← hf.gradients]
        simp [Std.ExtTreeMap.getElem?_insert, hts]
  · -- a computed tensor: nothing is reported, and its producer is told if it is upstream
    rename_i hleaf
    have hcomputed : g.kind? t = some .computed := by
      rcases hwants with hk | ⟨hk, -⟩ | ⟨hk, -⟩
      · exact hk
      · exact absurd (.inl (Option.some.inj (hkind.symm.trans hk))) hleaf
      · exact absurd (.inr (Option.some.inj (hkind.symm.trans hk))) hleaf
    have hkeep : ∀ s d : TensorId, b₁.gradients[s]? = some d ↔
        (∃ ys, .sum s ys ∈ h.pieces ++ [.sum t xs]) ∧ g.kind? s ≠ some .computed ∧
          d = Naming.grad s := by
      intro s d
      rw [hsums, hgradients, hf.gradients]
      by_cases hst : s = t
      · subst hst
        simp [hcomputed]
      · simp [hst]
    rcases Growth.tellProducer_eq_ok hext.wellWired hrest with ⟨rfl, hnone⟩ |
      ⟨op, o, index, l, hsource, hinsert, rfl⟩
    · refine hf.complete hne [] _ (fun op i => ?_) (.inl ⟨hwants, rfl⟩) hext hpartials
        (by simpa [houtputs] using hf.outputs) hkeep
      simp only [List.not_mem_nil, false_iff, not_and]
      exact fun hop => hs.no_output hext.toCarries hold hnone op hop i
    · obtain ⟨hop, ho, hindex⟩ := hext.isSource hs.wellWired hs.upstream.exist hsource
      rw [houtputs] at hinsert
      have hwired : (o.outputs.get? index).isSome := by
        rw [← outputAt_eq ho, hindex]
        rfl
      refine hf.complete hne [(op, index)] _ (fun p i => ?_) (.inl ⟨hwants, rfl⟩)
        { hext with } hpartials
        (hf.outputs.insert (hs.prompt op o ho) (hf.books.wired ho).1 (hf.books.wired ho).2 hwired hinsert) hkeep
      rw [List.mem_singleton, Prod.mk.injEq]
      constructor
      · rintro ⟨rfl, rfl⟩
        exact ⟨hop, hindex⟩
      · exact fun hi => hs.wellWired.output_inj hi.2 hindex

/-- **What becomes of a tensor** of which nothing more is to come. -/
theorem growGradient (hs : Stage g options.loss ops) {t : TensorId} {xs : List TensorId}
    (hf : Flow g options ops h os ((t, xs) :: ts) b) {u : Unit}
    (hrun : Growth.growGradient options ops t xs b = .ok u b') :
    ∃ h', Flow g options ops h' os ts b' ∧ h'.requested = h.requested ∧
      h'.settled = h.settled ++ [t] := by
  have hold := hf.waiting_tensor hs
  obtain ⟨x, hx, hcases⟩ := Growth.growGradient_eq_ok hrun
  have hkind : g.kind? t = some x.kind := by
    rw [← kind?_of_unread (hf.ext.tensor t hold)]
    simp [kind?, hx]
  have hwants : g.Wants options t ↔ Growth.isWanted options x.kind t := by
    obtain ⟨y, hy⟩ := Option.isSome_iff_exists.1 hold
    have hxy : y.kind = x.kind := by simpa [kind?, hy] using hkind
    rw [wants_iff hy, hxy]
  rcases hcases with ⟨rfl, hgive⟩ | ⟨hne, hunwanted, rfl⟩ | ⟨hne, hwanted, total, b₁, hsum, hrest⟩
  · exact hf.giveUpProducer hs hgive
  · have hnot : ¬ g.Wants options t := by
      rw [hwants, hunwanted]
      decide
    refine hf.complete hne [] [] (fun op i => ?_) (.inr ⟨hnot, rfl⟩) (by simpa using hf.ext) rfl
      (by simpa using hf.outputs) (by simpa using hf.gradients)
    simp only [List.not_mem_nil, false_iff, not_and]
    exact fun _ hi => hnot (.inl (hs.kind_of_output hi))
  · exact hf.growSum hs hne (hwants.2 hwanted) hkind hsum hrest

/-! ## Section 3: Rounds -/

theorem forM_growGradOps (hs : Stage g options.loss ops) (hf : Flow g options ops h os ts b)
    {u : Unit} (hrun : os.forM (Growth.growGradOps options) b = .ok u b') :
    ∃ h', Flow g options ops h' [] ts b' ∧ h'.requested = h.requested ++ os ∧
      h'.settled = h.settled := by
  induction os generalizing b h with
  | nil =>
    obtain ⟨-, rfl⟩ := pure_eq_ok.1 hrun
    exact ⟨h, hf, (List.append_nil _).symm, rfl⟩
  | cons op rest ih =>
    obtain ⟨_, b₁, hop, hrest⟩ := forM_cons_eq_ok.1 hrun
    obtain ⟨h₁, hf₁, hreq, hset⟩ := hf.growGradOps hs hop
    obtain ⟨h₂, hf₂, hreq₂, hset₂⟩ := ih hf₁ hrest
    exact ⟨h₂, hf₂, by rw [hreq₂, hreq, List.append_assoc, List.singleton_append],
      hset₂.trans hset⟩

theorem forM_growGradient (hs : Stage g options.loss ops) (hf : Flow g options ops h os ts b)
    {u : Unit} (hrun : ts.forM (fun x => Growth.growGradient options ops x.1 x.2) b = .ok u b') :
    ∃ h', Flow g options ops h' os [] b' ∧ h'.requested = h.requested ∧
      h'.settled = h.settled ++ ts.map Prod.fst := by
  induction ts generalizing b h with
  | nil =>
    obtain ⟨-, rfl⟩ := pure_eq_ok.1 hrun
    exact ⟨h, hf, rfl, (List.append_nil _).symm⟩
  | cons x rest ih =>
    obtain ⟨_, b₁, hx, hrest⟩ := forM_cons_eq_ok.1 hrun
    obtain ⟨h₁, hf₁, hreq, hset⟩ := hf.growGradient hs hx
    obtain ⟨h₂, hf₂, hreq₂, hset₂⟩ := ih hf₁ hrest
    exact ⟨h₂, hf₂, hreq₂.trans hreq, by rw [hset₂, hset, List.append_assoc]; rfl⟩

/-- What is complete is taken out of the ledgers. -/
theorem takeComplete (hf : Flow g options ops h [] [] b) :
    Flow g options ops h b.round.ops b.round.arrivals b.cleared := by
  have hpartials := hf.partials.takeComplete
  have houtputs := hf.outputs.takeComplete
  rw [List.map_nil, List.append_nil] at hpartials
  rw [List.append_nil] at houtputs
  exact ⟨{ hf.ext with }, hpartials.1, houtputs, hf.sound, hpartials.2, hf.gradients⟩

/-- **All rounds**: there are enough of them, so in the end nothing is complete
    any more. -/
theorem propagate (hs : Stage g options.loss ops) {tensors : List TensorId}
    (htensors : ∀ t, g.ReadBy ops t → t ∈ tensors) {rounds : Nat}
    (hf : Flow g options ops h [] [] b)
    (hrounds : ops.length + tensors.length < rounds + h.requested.length + h.settled.length)
    {u : Unit} (hrun : Growth.propagate options ops rounds b = .ok u b') :
    ∃ h', Flow g options ops h' [] [] b' ∧ b'.outputs.complete = ∅ ∧ b'.partials.complete = ∅ := by
  induction rounds generalizing b h with
  | zero =>
    obtain ⟨hreq, hset⟩ := hf.books.bounded htensors
    omega
  | succ rounds ih =>
    have htaken := hf.takeComplete
    rcases Growth.propagate_succ_eq_ok hrun with
      ⟨hops, hts, rfl⟩ | ⟨hsome, b₂, b₃, hops, hts, hrest⟩
    · rw [hops, hts] at htaken
      exact ⟨h, htaken, rfl, rfl⟩
    · obtain ⟨h₂, hf₂, hreq₂, hset₂⟩ := htaken.forM_growGradOps hs hops
      obtain ⟨h₃, hf₃, hreq₃, hset₃⟩ := hf₂.forM_growGradient hs hts
      refine ih hf₃ ?_ hrest
      -- a round that goes on has taken out something
      have hpos : 0 < b.round.ops.length + b.round.arrivals.length := by
        rw [← List.length_eq_zero_iff, ← List.length_eq_zero_iff] at hsome
        omega
      rw [hreq₃, hreq₂, hset₃, hset₂, List.length_append, List.length_append, List.length_map]
      omega

end Flow

end Dataflow
