import Mathlib.Data.List.Nodup
import Dataflow.Proofs.Reachability
import Dataflow.Proofs.Serving

/-! # The audit of differentiation

    The audit follows differentiation from round to round, on runs that fail as
    well as on those that succeed.  Between two steps, the account lists exactly
    the readings by the ops that are done with, each of them once
    (`Balanced.mem_entries`).  Steps keep this up, and fail only by refusals.

    So no contract is ever broken, no edge is dealt with twice, and once
    differentiation succeeds, nothing is outstanding. -/

namespace Dataflow

open Dataflow.Graph Relation

/-- The state of an audit between two steps: `os` are the ops and `ts` the
    tensors that have been taken out of the ledgers and wait for their turn. -/
structure Balanced (g : Graph) (loss : TensorId) (ops : List OpId) (h : History) (os : List OpId)
    (ts : List (TensorId × List TensorId)) (s : Backward × Account) : Prop where
  carries : s.1.Carries g
  books : Books g loss ops h os (ts.map Prod.fst) s.1
  account : s.2 = ⟨h.delivered, h.waived⟩
  once : s.2.entries.Nodup
  /-- Outputs are struck off when their tensors are dealt with, not earlier. -/
  struck : ∀ op i, (op, i) ∈ h.struck → ∃ t ∈ h.settled, g.outputAt op i = some t
  waiting : ∀ x ∈ ts, x.2 = h.arrivals x.1

namespace Balanced

variable {g : Graph} {loss : TensorId} {ops : List OpId} {h : History} {os : List OpId}
  {ts : List (TensorId × List TensorId)} {s s' : Backward × Account}

/-- The account lists exactly the readings by ops that are done with. -/
theorem mem_entries (hb : Balanced g loss ops h os ts s) (r : Reading) :
    r ∈ s.2.entries ↔ r ∈ g.readings ops ∧ (r.op ∈ h.requested ∨ r.op ∈ h.retired) := by
  rw [Account.mem_entries, hb.account]
  exact hb.books.accounted r

theorem booked (hb : Balanced g loss ops h os ts s) : Booked (g.readings ops) s where
  proper := ⟨hb.once, fun r hr => ((hb.mem_entries r).1 hr).1⟩
  tracks := by
    refine ⟨h.settled ++ ts.map Prod.fst, ?_⟩
    rw [hb.account]
    exact hb.books.partials

/-- The readings by an op that is not done with are all still to come. -/
theorem serve (hb : Balanced g loss ops h os ts s) {op : OpId} (hop : op ∈ ops)
    (hopen : op ∉ h.requested ∧ op ∉ h.retired) {todo : List Nat} (hnodup : todo.Nodup)
    (htodo : ∀ i t, g.inputAt op i = some t → i ∈ todo) (ledger : OutputGradients) :
    Serving g ops op s.2 (h.settled ++ ts.map Prod.fst) ledger todo
      ({ s.1 with outputs := ledger }, s.2) where
  carries := { hb.carries with }
  outputs := rfl
  partials := by
    show s.1.partials.Tracks _ _ _ _
    rw [hb.account]
    exact hb.books.partials
  proper := hb.booked.proper
  grows := ⟨[], [], (List.append_nil _).symm, (List.append_nil _).symm⟩
  entries r := by
    show r ∈ s.2.entries ↔ _
    constructor
    · exact .inl
    · rintro (hold | ⟨hread, hdone⟩)
      · exact hold
      · obtain ⟨hr, hin⟩ := mem_readings.1 hread
        rw [List.mem_singleton.1 hr] at hin
        exact absurd (htodo r.index r.tensor hin) hdone
  mem := hop
  fresh := by
    intro r hr heq
    rcases ((hb.mem_entries r).1 hr).2 with hreq | hret
    · exact hopen.1 (heq ▸ hreq)
    · exact hopen.2 (heq ▸ hret)
  nodup := hnodup

/-! ## Section 1: One op -/

/-- **An op that has been served** is done with. -/
theorem request {op : OpId} (hb : Balanced g loss ops h (op :: os) ts s)
    (hserved : Serving g ops op s.2 (h.settled ++ ts.map Prod.fst) s.1.outputs [] s') :
    ∃ h', Balanced g loss ops h' os ts s' ∧ h'.requested = h.requested ++ [op] ∧
      h'.settled = h.settled := by
  obtain ⟨rs, ws, hdelivered, hwaived⟩ := hserved.grows
  rw [hb.account] at hdelivered hwaived
  simp only at hdelivered hwaived
  have hpartials := hserved.partials
  -- nothing arrives at tensors that have been taken out
  have hfinal : ∀ t ∈ h.settled ++ ts.map Prod.fst,
      readsOf s'.2.delivered t = readsOf h.delivered t := by
    intro t ht
    rw [hdelivered]
    rw [hdelivered, hwaived] at hpartials
    exact hb.books.partials.final ht hpartials
  refine ⟨{ h with
    delivered := s'.2.delivered
    waived := s'.2.waived
    requested := h.requested ++ [op] }, ⟨hserved.carries, ⟨hpartials, ?_, fun r => ?_, ?_⟩, rfl,
    hserved.proper.once, hb.struck, fun x hx => ?_⟩, rfl, rfl⟩
  · show s'.1.outputs.Tracks _ _ _ (h.requested ++ [op] ++ os) _
    rw [hserved.outputs, List.append_assoc]
    exact hb.books.outputs
  · show r ∈ s'.2.delivered ∨ r ∈ s'.2.waived ↔ _ ∧ (r.op ∈ h.requested ++ [op] ∨ _)
    rw [← Account.mem_entries, hserved.entries, hb.mem_entries, List.mem_append,
      List.mem_singleton, mem_readings, mem_readings, List.mem_singleton]
    constructor
    · rintro (⟨hread, hdone⟩ | ⟨⟨heq, hin⟩, -⟩)
      · exact ⟨hread, hdone.imp_left .inl⟩
      · exact ⟨⟨heq ▸ hserved.mem, hin⟩, .inl (.inr heq)⟩
    · rintro ⟨hread, (hreq | heq) | hret⟩
      · exact .inl ⟨hread, .inl hreq⟩
      · exact .inr ⟨⟨heq, hread.2⟩, List.not_mem_nil⟩
      · exact .inl ⟨hread, .inr hret⟩
  · refine hb.books.reported.request rfl rfl rfl fun t ht => ?_
    show (readsOf s'.2.delivered t).map Reading.grad = _
    rw [hfinal t (List.mem_append_left _ ht)]
    rfl
  · show x.2 = (readsOf s'.2.delivered x.1).map Reading.grad
    rw [hfinal x.1 (List.mem_append_right _ (List.mem_map_of_mem hx))]
    exact hb.waiting x hx

/-- **The gradient ops of one op**: it is served, input by input. -/
theorem growGradOps (hf : Footing g loss ops) {op : OpId}
    (hb : Balanced g loss ops h (op :: os) ts s) (options : GradientOptions) :
    Ends (Refused (g.readings ops)) (Audit.growGradOps options op) s fun _ s' =>
      ∃ h', Balanced g loss ops h' os ts s' ∧ h'.requested = h.requested ++ [op] ∧
        h'.settled = h.settled := by
  have hop : op ∈ ops := hb.books.requested_mem (by simp)
  obtain ⟨x, hx⟩ := Option.isSome_iff_exists.1 (hf.upstream.exist op hop)
  have hold : ∀ b : Backward, b.Carries g → b.graph.op? op = some x := by
    intro b hcarries
    rw [hcarries.op_old hf.wellWired (by simp [hx])]
    exact hx
  have hknows := hb.carries.knows (hf.knows op hop x hx)
  have hdep := hf.dependable op hop x hx
  -- the op is complete for the first time
  have hopen : op ∉ h.requested ∧ op ∉ h.retired := by
    have hat := hb.books.outputs.tracksAt op
    constructor
    · intro hreq
      exact (List.nodup_append.1 hb.books.outputs.requested_nodup).2.2 op hreq op
        List.mem_cons_self rfl
    · intro hret
      obtain ⟨i, hi⟩ := hat.requested_told (by simp)
      exact hat.retired_untold hret i hi
  have hdescribe : Ends (Refused (g.readings ops)) (Audit.silently (Growth.describe op)) s
      fun y s' => s' = s ∧ y.1 = x ∧ x.operator.gradSpecs (s.1.graph.view op x) = .ok y.2 ∧
        Growth.checkSpecs (x.label op) x y.2 [] = .ok () := by
    refine Audit.ends_silently hb.booked (Growth.quiet_describe op)
      (Growth.describe_refuses (hold _ hb.carries) hdep hknows) fun y b hrun => ?_
    obtain ⟨rfl, ho, -, hspecs, hcheck⟩ := Growth.describe_eq_ok hrun
    cases ho.symm.trans (hold _ hb.carries)
    exact ⟨rfl, rfl, hspecs, hcheck⟩
  refine hdescribe.bind fun y s₁ hs₁ => ?_
  obtain ⟨o, specs⟩ := y
  obtain ⟨rfl, rfl, hspecs, hcheck⟩ := hs₁
  simp only at hspecs hcheck
  obtain ⟨hwired, hnodup, -⟩ := Growth.checkSpecs_targets hcheck
  -- each input is covered or not, and it is dealt with accordingly
  have hcovered : ∀ i, (specs.flatMap fun spec => spec.targets.values).contains i = true ↔
      i ∈ Growth.coveredInputs specs := by
    intro i
    simp only [Growth.coveredInputs, values_eq_map]
    exact List.contains_iff_mem
  have huncovered : ∀ i t, (i, t) ∈ Growth.uncovered o specs ↔
      g.inputAt op i = some t ∧ i ∉ Growth.coveredInputs specs := by
    intro i t
    unfold Growth.uncovered
    rw [List.mem_filter, Ports.mem_toList, inputAt_eq hx, ← hcovered]
    simp
  have hdistinct : (Growth.coveredInputs specs ++
      (Growth.uncovered o specs).map Prod.fst).Nodup := by
    refine List.nodup_append.2 ⟨hnodup, ?_, ?_⟩
    · exact (Ports.nodup_toList_fst _).sublist (List.filter_sublist.map _)
    · rintro i hi j hj rfl
      obtain ⟨y, hy, rfl⟩ := List.mem_map.1 hj
      exact ((huncovered y.1 y.2).1 hy).2 hi
  have hall : ∀ i t, g.inputAt op i = some t →
      i ∈ Growth.coveredInputs specs ++ (Growth.uncovered o specs).map Prod.fst := by
    intro i t hin
    rw [List.mem_append]
    by_cases hi : i ∈ Growth.coveredInputs specs
    · exact .inl hi
    · exact .inr (List.mem_map.2 ⟨(i, t), (huncovered i t).2 ⟨hin, hi⟩, rfl⟩)
  have hserving := hb.serve hop hopen hdistinct hall s₁.1.outputs
  refine (hserving.growGradOps hf hx hwired (fun spec hs => (hdep _ hknows).2 specs hspecs spec hs)
    options _ _).bind fun _ s₂ hs₂ => ?_
  -- it is looked up once more, and is still the same
  refine (Audit.ends_ask hs₂.booked Edit.requireOp_refuses).bind fun o' s₃ hs₃ => ?_
  obtain ⟨rfl, ho'⟩ := hs₃
  cases (requireOp_eq_ok.1 ho').symm.trans (hold _ hs₂.carries)
  refine (hs₂.waives fun y hy => ((huncovered y.1 y.2).1 hy).1).mono fun _ s' hs' => ?_
  exact hb.request hs'.1

/-! ## Section 2: One tensor -/

theorem waiting_tensor (hf : Footing g loss ops) {t : TensorId} {xs : List TensorId}
    (hb : Balanced g loss ops h os ((t, xs) :: ts) s) : (g.tensor? t).isSome :=
  hb.books.taken_tensor hf.toSetting (by simp)

/-- **A tensor at which nothing arrives**, once the ledgers know of it. -/
theorem giveUp {t : TensorId} (hb : Balanced g loss ops h os ((t, []) :: ts) s)
    (struck : List (OpId × Nat)) (retired : List OpId) (hcarries : s'.1.Carries g)
    (hstruck : ∀ op ∈ ops, ∀ i, g.outputAt op i = some t → (op, i) ∈ struck)
    (houtput : ∀ op i, (op, i) ∈ struck → g.outputAt op i = some t)
    (houtputs : s'.1.outputs.Tracks (g.Needed loss ops) h.told (h.struck ++ struck)
      (h.requested ++ os) (h.retired ++ retired))
    (hpartials : s'.1.partials.Tracks (g.readings ops) h.delivered s'.2.waived
      (h.settled ++ ((t, []) :: ts).map Prod.fst))
    (hdelivered : s'.2.delivered = h.delivered) (honce : s'.2.entries.Nodup)
    (hentries : ∀ r, r ∈ s'.2.entries ↔ r ∈ s.2.entries ∨ r ∈ g.readings ops ∧ r.op ∈ retired) :
    ∃ h', Balanced g loss ops h' os ts s' ∧ h'.requested = h.requested ∧
      h'.settled = h.settled ++ [t] := by
  have hnil : h.arrivals t = [] := (hb.waiting (t, []) List.mem_cons_self).symm
  refine ⟨{ h with
    settled := h.settled ++ [t]
    struck := h.struck ++ struck
    retired := h.retired ++ retired
    waived := s'.2.waived }, ⟨hcarries, ⟨?_, houtputs, fun r => ?_, ?_⟩, ?_, honce, ?_,
    fun x hx => hb.waiting x (List.mem_cons_of_mem _ hx)⟩, rfl, rfl⟩
  · show s'.1.partials.Tracks _ _ _ (h.settled ++ [t] ++ ts.map Prod.fst)
    rw [List.append_assoc]
    exact hpartials
  · show r ∈ h.delivered ∨ r ∈ s'.2.waived ↔ _ ∧ (_ ∨ r.op ∈ h.retired ++ retired)
    rw [← hdelivered, ← Account.mem_entries, hentries, hb.mem_entries, List.mem_append]
    tauto
  · exact hb.books.reported.giveUp hnil rfl rfl rfl (fun _ => rfl) hstruck
  · show s'.2 = ⟨h.delivered, s'.2.waived⟩
    rw [← hdelivered]
  · intro op i hi
    rcases List.mem_append.1 hi with hi | hi
    · obtain ⟨u, hu, hout⟩ := hb.struck op i hi
      exact ⟨u, List.mem_append_left _ hu, hout⟩
    · exact ⟨t, by simp, houtput op i hi⟩

/-- The output that a tensor is, if any, is struck off. -/
theorem strike {t : TensorId} (hb : Balanced g loss ops h os ((t, []) :: ts) s) :
    Ends (Refused (g.readings ops)) (Audit.silently (Growth.strike ops t)) s fun result s' =>
      (result = none ∧ s' = s ∧ ∀ op ∈ ops, s.1.graph.producer? t ≠ some op) ∨
      ∃ op o index given l, Growth.IsSourceOf s.1.graph ops t op o index ∧
        s.1.outputs.waive op o index = (given, l) ∧
        result = (if given then some (op, o) else none) ∧
        s' = ({ s.1 with outputs := l }, s.2) := by
  refine Audit.ends_silently hb.booked (Growth.quiet_strike ops t)
    (Growth.failsOnly_strike hb.carries.wellWired fun _ => rfl) fun result b hrun => ?_
  rcases Growth.strike_eq_ok hb.carries.wellWired hrun with ⟨hresult, rfl, hnone⟩ |
    ⟨op, o, index, given, l, hsource, hwaive, hresult, rfl⟩
  · exact .inl ⟨hresult, rfl, hnone⟩
  · exact .inr ⟨op, o, index, given, l, hsource, hwaive, hresult, rfl⟩

/-- **A tensor without partial gradients**: its producer is given up, and if
    so, the producer is served. -/
theorem giveUpProducer (hf : Footing g loss ops) {t : TensorId}
    (hb : Balanced g loss ops h os ((t, []) :: ts) s) :
    Ends (Refused (g.readings ops)) (Audit.giveUpProducer ops t) s fun _ s' =>
      ∃ h', Balanced g loss ops h' os ts s' ∧ h'.requested = h.requested ∧
        h'.settled = h.settled ++ [t] := by
  have hold := hb.waiting_tensor hf
  have hpartials : s.1.partials.Tracks (g.readings ops) h.delivered s.2.waived
      (h.settled ++ ((t, []) :: ts).map Prod.fst) := by
    rw [hb.account]
    exact hb.books.partials
  have hdelivered : s.2.delivered = h.delivered := by rw [hb.account]
  refine hb.strike.bind fun result s₁ hs₁ => ?_
  rcases hs₁ with ⟨rfl, rfl, hnone⟩ | ⟨op, o, index, given, l, hsource, hwaive, rfl, rfl⟩
  · -- nothing upstream has the tensor as its output
    have hout := hf.no_output hb.carries hold hnone
    refine Ends.pure (hb.giveUp [] [] hb.carries (fun op hop i hi => absurd hi (hout op hop i))
      nofun (by simpa using hb.books.outputs) hpartials hdelivered hb.once fun r => ?_)
    simp
  · obtain ⟨hop, ho, hindex⟩ := hb.carries.isSource hf.wellWired hf.upstream.exist hsource
    obtain ⟨hneeded, htold⟩ := hb.books.wired ho
    obtain ⟨hl, hopen⟩ := hb.books.outputs.waive (hf.prompt op o ho) hneeded htold hwaive
    have hstruck : ∀ p ∈ ops, ∀ i, g.outputAt p i = some t → (p, i) ∈ [(op, index)] := by
      intro p _ i hi
      obtain ⟨rfl, rfl⟩ := hf.wellWired.output_inj hi hindex
      exact List.mem_singleton_self _
    have houtput : ∀ p i, (p, i) ∈ [(op, index)] → g.outputAt p i = some t := by
      intro p i hi
      cases List.mem_singleton.1 hi
      exact hindex
    cases given with
    | false =>
      refine Ends.pure (hb.giveUp _ [] { hb.carries with } hstruck houtput (by simpa using hl)
        hpartials hdelivered hb.once fun r => ?_)
      simp
    | true =>
      -- the op is given up, and all its inputs with it
      obtain ⟨hunrequested, hunretired⟩ := hopen rfl
      have hserving := hb.serve hop ⟨fun hreq => hunrequested (List.mem_append_left _ hreq),
        hunretired⟩ (Ports.nodup_toList_fst o.inputs) (fun i u hin => ?_) l
      · refine (hserving.waives fun y hy => ?_).mono fun _ s' hs' => ?_
        · rw [inputAt_eq ho]
          exact Ports.mem_toList.1 hy
        · obtain ⟨hserved, hsame⟩ := hs'
          have hsame' : s'.2.delivered = h.delivered := hsame.trans hdelivered
          refine hb.giveUp [(op, index)] [op] hserved.carries hstruck houtput ?_ ?_ hsame'
            hserved.proper.once fun r => ?_
          · rw [hserved.outputs]
            exact hl
          · rw [← hsame']
            exact hserved.partials
          · rw [hserved.entries, mem_readings, mem_readings, List.mem_singleton]
            refine or_congr_right ?_
            constructor
            · rintro ⟨⟨heq, hin⟩, -⟩
              exact ⟨⟨heq ▸ hop, hin⟩, heq⟩
            · rintro ⟨⟨-, hin⟩, heq⟩
              exact ⟨⟨heq, hin⟩, List.not_mem_nil⟩
      · rw [inputAt_eq ho] at hin
        exact List.mem_map.2 ⟨(i, u), Ports.mem_toList.2 hin, rfl⟩

/-- **A tensor with partial gradients**, once the ledgers and the graph know of
    it. -/
theorem complete {t : TensorId} {xs : List TensorId}
    (hb : Balanced g loss ops h os ((t, xs) :: ts) s) (hne : xs ≠ []) {b : Backward}
    (told : List (OpId × Nat)) (hcarries : b.Carries g)
    (htold : ∀ op i, (op, i) ∈ told ↔ op ∈ ops ∧ g.outputAt op i = some t)
    (hpartials : b.partials = s.1.partials)
    (houtputs : b.outputs.Tracks (g.Needed loss ops) (h.told ++ told) h.struck
      (h.requested ++ os) h.retired) :
    ∃ h', Balanced g loss ops h' os ts (b, s.2) ∧ h'.requested = h.requested ∧
      h'.settled = h.settled ++ [t] := by
  have hxs : xs = h.arrivals t := hb.waiting (t, xs) List.mem_cons_self
  refine ⟨{ h with
    settled := h.settled ++ [t]
    told := h.told ++ told }, ⟨hcarries, ⟨?_, houtputs, hb.books.accounted, ?_⟩, hb.account,
    hb.once, ?_, fun x hx => hb.waiting x (List.mem_cons_of_mem _ hx)⟩, rfl, rfl⟩
  · show b.partials.Tracks _ _ _ (h.settled ++ [t] ++ ts.map Prod.fst)
    rw [hpartials, List.append_assoc]
    exact hb.books.partials
  · exact hb.books.reported.complete (hxs ▸ hne) rfl rfl rfl (fun _ => rfl) htold
  · intro op i hi
    obtain ⟨u, hu, hout⟩ := hb.struck op i hi
    exact ⟨u, List.mem_append_left _ hu, hout⟩

/-- The op that a tensor comes from can be told when the turn of the tensor has
    come: it is not done with, and it has not been told yet. -/
theorem can_tell (hf : Footing g loss ops) {t : TensorId} {xs : List TensorId}
    (hb : Balanced g loss ops h os ((t, xs) :: ts) s) {op : OpId} {index : Nat} (hop : op ∈ ops)
    (hindex : g.outputAt op index = some t) :
    op ∉ s.1.outputs.closed ∧ (op, index) ∉ h.told := by
  have hread : g.ReadBy ops t := readBy_iff.2 (hb.books.partials.taken_read t (by simp))
  have hunsettled : t ∉ h.settled := by
    intro ht
    exact (List.nodup_append.1 hb.books.partials.taken_nodup).2.2 t ht t (by simp) rfl
  have huntold : (op, index) ∉ h.told := by
    intro hin
    obtain ⟨-, u, hu, hwhy⟩ := (hb.books.reported.told op index).1 hin
    rw [hindex] at hu
    cases hu
    rcases hwhy with rfl | ⟨hmem, -⟩
    · exact hf.upstream.unread hread
    · exact hunsettled hmem
  refine ⟨fun hclosed => ?_, huntold⟩
  -- a closed op knows the fate of each output, but this one is undecided
  rcases (hb.books.outputs.tracksAt op).decided hclosed index ⟨hop, t, hindex, .inr hread⟩ with
    hin | hin
  · exact huntold hin
  · obtain ⟨u, hu, hout⟩ := hb.struck op index hin
    rw [hindex] at hout
    cases hout
    exact hunsettled hu

/-- A sum takes nothing from the old graph, and leaves the ledgers alone. -/
theorem carries_growSum {b b₁ : Backward} (hb : b.Carries g) {t total : TensorId}
    {xs : List TensorId} (hsum : Growth.growSum t xs b = .ok total b₁) :
    b₁.Carries g ∧ b₁.outputs = b.outputs ∧ b₁.partials = b.partials := by
  have hwell : b₁.graph.WellWired := (keptByEdits_wellWired.growSum _ _).ok hb.wellWired hsum
  obtain ⟨-, phase?, g₁, -, hgrown, rfl⟩ := Growth.growSum_eq_ok hsum
  exact ⟨hb.grow hgrown hwell, rfl, rfl⟩

/-- A tensor that has got its gradient is dealt with. -/
theorem grown (hf : Footing g loss ops) {t : TensorId} {xs : List TensorId}
    (hb : Balanced g loss ops h os ((t, xs) :: ts) s) (hne : xs ≠ []) {options : GradientOptions}
    {u : Unit} {b : Backward} (hrun : Growth.growGradient options ops t xs s.1 = .ok u b) :
    ∃ h', Balanced g loss ops h' os ts (b, s.2) ∧ h'.requested = h.requested ∧
      h'.settled = h.settled ++ [t] := by
  have hold := hb.waiting_tensor hf
  obtain ⟨x, hx, hcases⟩ := Growth.growGradient_eq_ok hrun
  have hkind : g.kind? t = some x.kind := by
    rw [← kind?_of_unread (hb.carries.tensor t hold)]
    simp [kind?, hx]
  -- only computed tensors are outputs, and those are wanted
  have hleaf : x.kind ≠ .computed → ∀ op i,
      (op, i) ∈ ([] : List (OpId × Nat)) ↔ op ∈ ops ∧ g.outputAt op i = some t := by
    intro hnot op i
    simp only [List.not_mem_nil, false_iff, not_and]
    intro _ hi
    rw [hf.kind_of_output hi] at hkind
    exact hnot (Option.some.inj hkind).symm
  rcases hcases with ⟨hnil, -⟩ | ⟨-, hunwanted, rfl⟩ | ⟨-, -, total, b₁, hsum, hrest⟩
  · exact absurd hnil hne
  · refine hb.complete hne [] hb.carries (hleaf fun hk => ?_) rfl
      (by simpa using hb.books.outputs)
    rw [hk] at hunwanted
    cases hunwanted
  · obtain ⟨hcarries, houtputs, hpartials⟩ := carries_growSum hb.carries hsum
    split at hrest
    · rename_i hk
      subst hrest
      refine hb.complete hne [] { hcarries with } (hleaf fun hc => ?_) hpartials
        (by simpa [houtputs] using hb.books.outputs)
      rw [hc] at hk
      exact absurd hk (by decide)
    · rcases Growth.tellProducer_eq_ok hcarries.wellWired hrest with ⟨rfl, hnone⟩ |
        ⟨op, o, index, l, hsource, hinsert, rfl⟩
      · refine hb.complete hne [] hcarries (fun op i => ?_) hpartials
          (by simpa [houtputs] using hb.books.outputs)
        simp only [List.not_mem_nil, false_iff, not_and]
        exact fun hop => hf.no_output hcarries hold hnone op hop i
      · obtain ⟨hop, ho, hindex⟩ := hcarries.isSource hf.wellWired hf.upstream.exist hsource
        obtain ⟨hneeded, htold⟩ := hb.books.wired ho
        have hwired : (o.outputs.get? index).isSome := by
          rw [← outputAt_eq ho, hindex]
          rfl
        rw [houtputs] at hinsert
        refine hb.complete hne [(op, index)] { hcarries with } (fun p i => ?_) hpartials
          (hb.books.outputs.insert (hf.prompt op o ho) hneeded htold hwired hinsert)
        rw [List.mem_singleton, Prod.mk.injEq]
        constructor
        · rintro ⟨rfl, rfl⟩
          exact ⟨hop, hindex⟩
        · exact fun hi => hf.wellWired.output_inj hi.2 hindex

/-- **What becomes of a tensor** of which nothing more is to come. -/
theorem growGradient (hf : Footing g loss ops) {t : TensorId} {xs : List TensorId}
    (hb : Balanced g loss ops h os ((t, xs) :: ts) s) (options : GradientOptions) :
    Ends (Refused (g.readings ops)) (Audit.growGradient options ops t xs) s fun _ s' =>
      ∃ h', Balanced g loss ops h' os ts s' ∧ h'.requested = h.requested ∧
        h'.settled = h.settled ++ [t] := by
  unfold Audit.growGradient
  split
  · rename_i hempty
    have hxs := List.isEmpty_iff.1 hempty
    subst hxs
    refine (Audit.ends_ask hb.booked (Edit.requireTensor_refuses t)).bind fun _ s₁ hs₁ => ?_
    obtain ⟨rfl, -⟩ := hs₁
    exact hb.giveUpProducer hf
  · rename_i hempty
    have hne : xs ≠ [] := fun hnil => hempty (List.isEmpty_iff.2 hnil)
    refine Audit.ends_silently hb.booked (Growth.quiet_growGradient _ _ _ hne)
      (Growth.growGradient_refuses hne fun total b₁ hsum => ?_) fun _ b hrun => hb.grown hf hne hrun
    -- the op that it comes from can be told, whatever has been summed up
    obtain ⟨hcarries, houtputs, -⟩ := carries_growSum hb.carries hsum
    refine Growth.tellProducer_refuses hcarries.wellWired fun op o index hsource => ?_
    obtain ⟨hop, -, hindex⟩ := hcarries.isSource hf.wellWired hf.upstream.exist hsource
    obtain ⟨hopen, huntold⟩ := hb.can_tell hf hop hindex
    rw [houtputs]
    exact hb.books.outputs.insert_ok o hopen huntold

/-! ## Section 3: Rounds -/

theorem forM_growGradOps (hf : Footing g loss ops) (hb : Balanced g loss ops h os ts s)
    (options : GradientOptions) :
    Ends (Refused (g.readings ops)) (os.forM (Audit.growGradOps options)) s fun _ s' =>
      ∃ h', Balanced g loss ops h' [] ts s' ∧ h'.requested = h.requested ++ os ∧
        h'.settled = h.settled := by
  have hloop := Ends.forM (E := Refused (g.readings ops)) (s := s)
    (f := Audit.growGradOps options)
    (I := fun rest s' => ∃ h', Balanced g loss ops h' rest ts s' ∧
      h'.requested ++ rest = h.requested ++ os ∧ h'.settled = h.settled)
    (fun op rest t ⟨h₁, hb₁, hreq, hset⟩ => ?_) ⟨h, hb, rfl, rfl⟩
  · refine hloop.mono fun _ s' ⟨h', hb', hreq, hset⟩ => ⟨h', hb', ?_, hset⟩
    rw [← hreq, List.append_nil]
  · refine (hb₁.growGradOps hf options).mono fun _ s' ⟨h₂, hb₂, hreq₂, hset₂⟩ => ?_
    refine ⟨h₂, hb₂, ?_, hset₂.trans hset⟩
    rw [hreq₂, List.append_assoc]
    exact hreq

theorem forM_growGradient (hf : Footing g loss ops) (hb : Balanced g loss ops h os ts s)
    (options : GradientOptions) :
    Ends (Refused (g.readings ops))
      (ts.forM fun x => Audit.growGradient options ops x.1 x.2) s fun _ s' =>
      ∃ h', Balanced g loss ops h' os [] s' ∧ h'.requested = h.requested ∧
        h'.settled = h.settled ++ ts.map Prod.fst := by
  have hloop := Ends.forM (E := Refused (g.readings ops)) (s := s)
    (f := fun x : TensorId × List TensorId => Audit.growGradient options ops x.1 x.2)
    (I := fun rest s' => ∃ h', Balanced g loss ops h' os rest s' ∧
      h'.requested = h.requested ∧
      h'.settled ++ rest.map Prod.fst = h.settled ++ ts.map Prod.fst)
    (fun x rest t ⟨h₁, hb₁, hreq, hset⟩ => ?_) ⟨h, hb, rfl, rfl⟩
  · refine hloop.mono fun _ s' ⟨h', hb', hreq, hset⟩ => ⟨h', hb', hreq, ?_⟩
    rw [← hset, List.map_nil, List.append_nil]
  · refine (hb₁.growGradient hf options).mono fun _ s' ⟨h₂, hb₂, hreq₂, hset₂⟩ => ?_
    refine ⟨h₂, hb₂, hreq₂.trans hreq, ?_⟩
    rw [hset₂, List.append_assoc]
    exact hset

/-- **One round**: every op and every tensor of it is dealt with. -/
theorem turns (hf : Footing g loss ops) {r : Growth.Round}
    (hb : Balanced g loss ops h r.ops r.arrivals s) (options : GradientOptions) :
    Ends (Refused (g.readings ops)) (Audit.turns options ops r) s fun _ s' =>
      ∃ h', Balanced g loss ops h' [] [] s' ∧ h'.requested = h.requested ++ r.ops ∧
        h'.settled = h.settled ++ r.arrivals.map Prod.fst := by
  refine (hb.forM_growGradOps hf options).bind fun _ s₁ ⟨h₁, hb₁, hreq₁, hset₁⟩ => ?_
  refine (hb₁.forM_growGradient hf options).mono fun _ s₂ ⟨h₂, hb₂, hreq₂, hset₂⟩ => ?_
  exact ⟨h₂, hb₂, hreq₂.trans hreq₁, by rw [hset₂, hset₁]⟩

/-- What is complete is taken out of the ledgers, which cannot fail. -/
theorem takeComplete (hb : Balanced g loss ops h [] [] s) :
    Ends (Refused (g.readings ops)) (Audit.silently Growth.takeRound) s fun r s' =>
      Balanced g loss ops h r.ops r.arrivals s' ∧ s'.1.outputs.complete = ∅ ∧
        s'.1.partials.complete = ∅ := by
  have hpartials := hb.books.partials.takeComplete
  have houtputs := hb.books.outputs.takeComplete
  rw [List.map_nil, List.append_nil] at hpartials
  rw [List.append_nil] at houtputs
  constructor
  · intro y s' hrun
    obtain ⟨b, htake, rfl⟩ := Audit.noting_eq_ok hrun
    cases htake
    refine ⟨⟨{ hb.carries with }, ⟨hpartials.1, houtputs, hb.books.accounted, hb.books.reported⟩,
      hb.account, hb.once, hb.struck, hpartials.2⟩, rfl, rfl⟩
  · intro e s' hrun
    obtain ⟨b, htake, -⟩ := Audit.noting_eq_error hrun
    cases htake

/-- **All rounds**: there are enough of them, so in the end nothing is complete
    any more. -/
theorem propagate (hf : Footing g loss ops) {tensors : List TensorId}
    (htensors : ∀ t, g.ReadBy ops t → t ∈ tensors) (options : GradientOptions) {rounds : Nat}
    (hb : Balanced g loss ops h [] [] s)
    (hrounds : ops.length + tensors.length < rounds + h.requested.length + h.settled.length) :
    Ends (Refused (g.readings ops)) (Audit.propagate options ops rounds) s fun _ s' =>
      ∃ h', Balanced g loss ops h' [] [] s' ∧ s'.1.outputs.complete = ∅ ∧
        s'.1.partials.complete = ∅ := by
  induction rounds generalizing s h with
  | zero =>
    obtain ⟨hreq, hset⟩ := hb.books.bounded htensors
    omega
  | succ rounds ih =>
    refine hb.takeComplete.bind fun r s₁ ⟨hb₁, hops, hts⟩ => ?_
    split
    · rename_i hidle
      obtain ⟨hnone, hnone'⟩ := Growth.Round.isIdle_iff.1 hidle
      rw [hnone, hnone'] at hb₁
      exact Ends.pure ⟨h, hb₁, hops, hts⟩
    · rename_i hbusy
      refine (hb₁.turns hf options).bind fun _ s₃ ⟨h₃, hb₃, hreq₃, hset₃⟩ => ?_
      refine ih hb₃ ?_
      -- a round that goes on has taken out something
      have hpos : 0 < r.ops.length + r.arrivals.length := by
        rw [Growth.Round.isIdle_iff, ← List.length_eq_zero_iff, ← List.length_eq_zero_iff] at hbusy
        omega
      rw [hreq₃, hset₃, List.length_append, List.length_append, List.length_map]
      omega

/-- **The seed**: the op that the loss comes from is told, and nothing has been
    dealt with yet. -/
theorem seed (hf : Footing g loss ops) (type : TensorType) :
    Ends (Refused (g.readings ops)) (Audit.silently (Growth.seed loss type ops))
      (Backward.start g loss ops, {}) fun _ s' =>
      ∃ h, Balanced g loss ops h [] [] s' ∧ h.requested = [] ∧ h.settled = [] := by
  have hstart : (Backward.start g loss ops).outputs.Tracks (g.Needed loss ops) [] [] [] [] :=
    Backward.start_outputs hf.upstream.exist
  refine Audit.ends_silently ⟨Account.proper_empty _, [], Backward.start_partials g loss ops⟩
    (Growth.quiet_seed _ _ _) (Growth.failsOnly_seed (fun _ => rfl) (fun _ _ _ => rfl) fun g' hadd => ?_)
    fun _ b hrun => ?_
  · have hcarries := (Backward.extends_start ops hf.wellWired hadd).toCarries
    refine Growth.tellProducer_refuses hcarries.wellWired fun op o index _ => ?_
    refine hstart.insert_ok o ?_ List.not_mem_nil
    rw [(hstart.tracksAt op).closed]
    simp
  · obtain ⟨hext, hpartials, -, output, hloss, houtputs⟩ := hf.toSetting.seed hrun
    refine ⟨{ told := [output] }, ⟨hext.toCarries, ⟨?_, houtputs, by simp,
      History.Reported.start hloss⟩, rfl, List.nodup_nil, nofun, nofun⟩, rfl, rfl⟩
    rw [hpartials]
    exact Backward.start_partials g loss ops

/-- **At the end** nothing is outstanding, and every edge has been dealt with. -/
theorem finished (hf : Footing g loss ops) (hacyclic : Acyclic g.Feeds)
    (hb : Balanced g loss ops h [] [] s) (hops : s.1.outputs.complete = ∅)
    (hts : s.1.partials.complete = ∅) :
    s.1.partials.outstanding = [] ∧ ∀ r ∈ g.readings ops, r ∈ s.2.entries := by
  have hdone := hb.books.done hf.toSetting hacyclic hops hts
  constructor
  · rw [List.eq_nil_iff_forall_not_mem]
    intro t ht
    have hfinished := hb.books.finished_of_readers (t := t) hf.toSetting fun op hop _ _ =>
      hdone op hop
    have hnone := ((hb.books.partials.tracksAt t).finished hfinished).1
    rw [PartialGradients.outstanding, Std.ExtTreeMap.mem_keys,
      Std.ExtTreeMap.mem_iff_isSome_getElem?, hnone] at ht
    cases ht
  · intro r hr
    exact (hb.mem_entries r).2 ⟨hr, hdone r.op (mem_readings.1 hr).1⟩

end Balanced

/-! ## Section 4: The whole run -/

namespace Graph

variable {g : Graph} {loss : TensorId} {options : GradientOptions}

/-- The edge `r` leads into an op from which the loss can be reached. -/
def IsEdgeToward (g : Graph) (loss : TensorId) (r : Reading) : Prop :=
  ∃ p, g.producer? loss = some p ∧ ReflTransGen g.Feeds r.op p ∧
    g.inputAt r.op r.index = some r.tensor

theorem WellWired.mem_readings_upstreamOf (hg : g.WellWired) {r : Reading} :
    r ∈ g.readings (g.upstreamOf loss) ↔ g.IsEdgeToward loss r := by
  unfold IsEdgeToward
  rw [mem_readings]
  cases hp : g.producer? loss with
  | none => simp [upstreamOf, hp]
  | some p =>
    obtain ⟨x, hx⟩ := hg.producer_exists hp
    have hops : g.upstreamOf loss = g.opsToward p := by simp [upstreamOf, hp]
    rw [hops, hg.mem_opsToward (by simp [hx])]
    simp

/-- A loss that has a type wherever it is present is refused, or accepted. -/
theorem lossProducer_refuses (hloss : (g.tensor? loss).isSome → (g.type? loss).isSome) :
    ErrsOnly GradientError.IsRefusal (g.lossProducer loss) := by
  intro e h
  cases g.errsOnly_lossProducer loss e h with
  | untyped ht htype =>
    have hsome := hloss ht
    rw [htype] at hsome
    cases hsome
  | reserved | unknown | notScalar | unproduced => rfl

/-- The ledgers and the account at the end of an audit. -/
def books (options : GradientOptions) (g : Graph) : Backward × Account :=
  stateOf (g.audit options)

/-- What the audit of differentiation shows, on runs that fail as well. -/
structure CleanAudit (options : GradientOptions) (g : Graph) : Prop where
  audits : closeBooks (g.audit options) = differentiate options g
  refuses : ∀ e g', differentiate options g = .error e g' → e.isInternal = false
  /-- No edge has two entries, be they partial gradients or waivers. -/
  once : ((g.books options).2.entries.map fun r => (r.op, r.index)).Nodup
  known : ∀ r ∈ (g.books options).2.entries, g.IsEdgeToward options.loss r
  /-- The ledger holds what follows from the entries, so none is missing. -/
  counted : ∃ taken, (g.books options).1.partials.Tracks (g.readings (g.upstreamOf options.loss))
    (g.books options).2.delivered (g.books options).2.waived taken
  finished : ∀ report g', differentiate options g = .ok report g' →
    (g.books options).1.partials.outstanding = [] ∧
      ∀ r, g.IsEdgeToward options.loss r → r ∈ (g.books options).2.entries

/-- **The audit of a run**: it ends with a refusal and the books in order, or
    with nothing outstanding. -/
theorem audit_ends (hf : ∀ p, g.producer? options.loss = some p →
      Footing g options.loss (g.upstreamOf options.loss))
    (hacyclic : Acyclic g.Feeds)
    (hloss : (g.tensor? options.loss).isSome → (g.type? options.loss).isSome) :
    (∀ e s, g.audit options = .error e s →
      Refused (g.readings (g.upstreamOf options.loss)) e s) ∧
    ∀ report s, g.audit options = .ok report s →
      Booked (g.readings (g.upstreamOf options.loss)) s ∧ s.1.partials.outstanding = [] ∧
        ∀ r ∈ g.readings (g.upstreamOf options.loss), r ∈ s.2.entries := by
  unfold audit
  cases hrun : g.lossProducer options.loss with
  | error e =>
    refine ⟨fun e' s h => ?_, nofun⟩
    cases h
    exact ⟨lossProducer_refuses hloss e hrun, Account.proper_empty _, [],
      Backward.start_partials _ _ _⟩
  | ok x =>
    obtain ⟨type, p⟩ := x
    have hfooting := hf p (lossProducer_eq_ok hrun).1
    generalize g.upstreamOf options.loss = ops at hfooting
    have hgrowth := (Balanced.seed hfooting type).bind fun _ s ⟨h, hb, hreq, hset⟩ =>
      hb.propagate hfooting (fun _ => Backward.mem_expected g options.loss ops) options (by
        rw [hreq, hset, Std.ExtTreeMap.length_keys, List.length_nil]
        omega : _ < ops.length + (Backward.start g options.loss ops).partials.expected.size + 1
          + h.requested.length + h.settled.length)
    simp only
    constructor
    · intro e s h
      split at h
      · cases h
      · rename_i hend
        cases h
        exact hgrowth.error _ _ hend
    · intro report s h
      split at h
      · rename_i hend
        cases h
        obtain ⟨h', hb, hops, hts⟩ := hgrowth.ok _ _ hend
        exact ⟨hb.booked, hb.finished hfooting hacyclic hops hts⟩
      · cases h

/-- The parts of a clean audit, from how it ends. -/
theorem cleanAudit_of_ends (hg : g.WellWired)
    (herror : ∀ e s, g.audit options = .error e s →
      Refused (g.readings (g.upstreamOf options.loss)) e s)
    (hok : ∀ report s, g.audit options = .ok report s →
      Booked (g.readings (g.upstreamOf options.loss)) s ∧ s.1.partials.outstanding = [] ∧
        ∀ r ∈ g.readings (g.upstreamOf options.loss), r ∈ s.2.entries) :
    g.CleanAudit options := by
  have hbooked : Booked (g.readings (g.upstreamOf options.loss)) (g.books options) := by
    unfold books
    cases hend : g.audit options with
    | ok report s => exact (hok report s hend).1
    | error e s => exact (herror e s hend).2
  have hknown : ∀ r ∈ (g.books options).2.entries, g.IsEdgeToward options.loss r :=
    fun r hr => hg.mem_readings_upstreamOf.1 (hbooked.proper.known r hr)
  have haudits := closeBooks_audit options g
  refine ⟨haudits, fun e g' h => ?_, ?_, hknown, hbooked.tracks, fun report g' h => ?_⟩
  · rw [← haudits] at h
    cases hend : g.audit options with
    | ok report s =>
      rw [hend] at h
      cases h
    | error e' s =>
      rw [hend] at h
      cases h
      exact (herror _ _ hend).1
  · -- an edge is determined by the op and the index of the input
    refine List.Nodup.map_on (fun r hr r' hr' heq => ?_) hbooked.proper.once
    obtain ⟨-, -, -, hin⟩ := hknown r hr
    obtain ⟨-, -, -, hin'⟩ := hknown r' hr'
    obtain ⟨hop, hindex⟩ := Prod.mk.inj heq
    rw [hop, hindex, hin'] at hin
    cases r
    cases r'
    simp_all
  · rw [← haudits] at h
    cases hend : g.audit options with
    | error e s =>
      rw [hend] at h
      cases h
    | ok report' s =>
      have hbooks : g.books options = s := by simp [books, hend]
      obtain ⟨-, hnone, hall⟩ := hok _ _ hend
      rw [hbooks]
      exact ⟨hnone, fun r hr => hall r (hg.mem_readings_upstreamOf.2 hr)⟩

end Graph

namespace Workspace

/-- **The books of differentiation are always in order.**  Take any graph that
    calls lead to, without data cycles and with all ops settled, each one
    waiting for the gradients of all required outputs or of its only output and
    breaking no contract on its own account.  If the loss has a type wherever
    it is present, differentiation breaks no contract, deals with every edge
    upstream at most once, and leaves nothing outstanding when it succeeds. -/
theorem cleanAudit_of_reachable {w : Workspace} (h : w.Reachable)
    (hacyclic : Acyclic w.graph.Feeds)
    (hsettled : ∀ op o, w.graph.op? op = some o → o.isSettled)
    (hwaits : ∀ op o, w.graph.op? op = some o →
      o.operator.WaitsForAll ∨ o.operator.WaitsForOnly)
    (hdep : ∀ op o, w.graph.op? op = some o → o.Dependable op) (options : GradientOptions)
    (hloss : (w.graph.tensor? options.loss).isSome → (w.graph.type? options.loss).isSome) :
    w.graph.CleanAudit options := by
  have hfooting : ∀ p, w.graph.producer? options.loss = some p →
      Footing w.graph options.loss (w.graph.upstreamOf options.loss) := by
    intro p hp
    have hops : w.graph.upstreamOf options.loss = w.graph.opsToward p := by simp [upstreamOf, hp]
    exact {
      wellWired := h.sound.wellWired
      upstream := hops ▸ h.sound.wellWired.upstream hacyclic hp
      prompt := fun op o ho => (h.sound.fitted op o ho).prompt (hsettled op o ho) (hwaits op o ho)
      knows := by
        intro op _ o ho i t ht
        refine h.sound.typed op t (by simp [isSettled, ho, hsettled op o ho]) ⟨i, ?_⟩
        rw [inputAt_eq ho, outputAt_eq ho]
        exact ht
      dependable := fun op _ o ho => hdep op o ho }
  obtain ⟨herror, hok⟩ := audit_ends hfooting hacyclic hloss
  exact cleanAudit_of_ends h.sound.wellWired herror hok

/-- Training by the likelihood of labels that come from another op. -/
def relayedLabels : Workspace :=
  let calls : List Call := [
    .addVar "w" ⟨.f32, [2, 3]⟩ (Payload.zeros 24),
    .addInput "labels" ⟨.i64, [2]⟩,
    .createOp Builtin.mul.operator {},
    .connectInput 0 0 "w",
    .connectInput 0 1 "w",
    .createOutput 0 0 "y",
    .settle 0,
    .createOp Builtin.identity.operator {},
    .connectInput 1 0 "labels",
    .createOutput 1 0 "relayed",
    .settle 1,
    .createOp Builtin.nll.operator {},
    .connectInput 2 0 "y",
    .connectInput 2 1 "relayed",
    .createOutput 2 0 "loss",
    .settle 2]
  calls.foldl (fun w c => c.run w) {}

set_option maxRecDepth 100000 in
theorem relayedLabels_operators : relayedLabels.graph.ops.toList.map (fun x => x.2.operator) =
    [Builtin.mul, Builtin.identity, Builtin.nll].map Builtin.operator := rfl

/-- The labels have no gradient: the op that relays them is given up, and its
    only edge is waived, as is the one that it leads to. -/
theorem relayedLabels_cleanAudit : ∃ report g',
    Graph.differentiate { loss := "loss" } relayedLabels.graph = .ok report g' ∧
    relayedLabels.graph.CleanAudit { loss := "loss" } ∧
    (relayedLabels.graph.books { loss := "loss" }).2.delivered =
      [⟨2, 0, "y"⟩, ⟨0, 0, "w"⟩, ⟨0, 1, "w"⟩] ∧
    (relayedLabels.graph.books { loss := "loss" }).2.waived =
      [⟨2, 1, "relayed"⟩, ⟨1, 0, "labels"⟩] := by
  have hsettled : ∀ x ∈ relayedLabels.graph.ops.toList, x.2.isSettled := by decide +kernel
  have hacyclic : Acyclic relayedLabels.graph.Feeds :=
    acyclic_of_feeders (by decide +kernel)
  have hsucceeds : succeeds (Graph.differentiate { loss := "loss" } relayedLabels.graph) := by
    decide +kernel
  have hclean : relayedLabels.graph.CleanAudit { loss := "loss" } := by
    refine cleanAudit_of_reachable (Reachable.run (.start "") _) hacyclic (fun op o ho => ?_)
      (fun op o ho => ?_) (fun op o ho => ?_) _ fun _ => by decide +kernel
    · exact hsettled (op, o) (Std.ExtTreeMap.mem_toList_iff_getElem?_eq_some.2 ho)
    · obtain ⟨b, hb⟩ := builtin_of_operators relayedLabels_operators ho
      exact hb ▸ b.waits
    · obtain ⟨b, hb⟩ := builtin_of_operators relayedLabels_operators ho
      exact b.dependable hb op
  cases hrun : Graph.differentiate { loss := "loss" } relayedLabels.graph with
  | error e g' =>
    rw [hrun] at hsucceeds
    cases hsucceeds
  | ok report g' =>
    exact ⟨report, g', rfl, hclean, by decide +kernel, by decide +kernel⟩

/-- A variable that is copied.  The first copy is added to the second one, which
    takes another op to get there. -/
def lateCopy : Workspace :=
  let calls : List Call := [
    .addVar "w" ⟨.f32, [2]⟩ (Payload.zeros 8),
    .createOp (.split 0) {},
    .connectInput 0 0 "w",
    .createOutput 0 0 "a",
    .createOutput 0 1 "b",
    .settle 0,
    .createOp Builtin.identity.operator {},
    .connectInput 1 0 "b",
    .createOutput 1 0 "c",
    .settle 1,
    .createOp Builtin.add.operator {},
    .connectInput 2 0 "a",
    .connectInput 2 1 "c",
    .createOutput 2 0 "d",
    .settle 2,
    .createOp Builtin.reduceSum.operator {},
    .connectInput 3 0 "d",
    .createOutput 3 0 "loss",
    .settle 3]
  calls.foldl (fun w c => c.run w) {}

set_option maxRecDepth 100000 in
theorem lateCopy_operators : lateCopy.graph.ops.toList.map (fun x => x.2.operator) =
    .split 0 :: [Builtin.identity, Builtin.add, Builtin.reduceSum].map Builtin.operator := rfl

/-- The only condition that fails is that an op which waits for output 0 has no
    other one.  The gradient ops of the copies are grown as soon as the first
    copy has its gradient, and the gradient of the second one comes too late. -/
theorem lateCopy_breaks :
    (lateCopy.Reachable ∧ Acyclic lateCopy.graph.Feeds ∧
      (lateCopy.graph.type? "loss").isSome ∧
      ∀ op o, lateCopy.graph.op? op = some o → o.isSettled ∧
        (o.operator.WaitsForAll ∨ o.operator.WaitsForFirst) ∧ o.Dependable op) ∧
    (∃ reason g',
      Graph.differentiate { loss := "loss" } lateCopy.graph = .error (.internal reason) g') ∧
    ¬ lateCopy.graph.CleanAudit { loss := "loss" } := by
  have hsettled : ∀ x ∈ lateCopy.graph.ops.toList, x.2.isSettled := by decide +kernel
  have hlate : failure? (Graph.differentiate { loss := "loss" } lateCopy.graph) = some (.internal
      "gradient for output 1 of Split(0) arrived after its gradient ops were grown") := by
    decide +kernel
  have hfails := failure?_eq_some.1 hlate
  refine ⟨⟨Reachable.run (.start "") _, acyclic_of_feeders (by decide +kernel), by decide +kernel,
    fun op o ho => ⟨?_, ?_⟩⟩, ⟨_, _, hfails⟩, fun hclean => ?_⟩
  · exact hsettled (op, o) (Std.ExtTreeMap.mem_toList_iff_getElem?_eq_some.2 ho)
  · rcases List.mem_cons.1 (operator_mem lateCopy_operators ho) with hsplit | hbuiltin
    · refine ⟨.inr (hsplit ▸ Operator.split_waitsForFirst 0), fun g _ => ?_⟩
      rw [hsplit]
      refine ⟨.ok _, fun specs hspecs spec hmem => ?_⟩
      cases hspecs
      cases List.mem_singleton.1 hmem
      exact GradBuiltin.identity.infers
    · obtain ⟨b, -, hb⟩ := List.mem_map.1 hbuiltin
      exact ⟨hb ▸ b.waits.imp id And.left, b.dependable hb.symm op⟩
  · cases hclean.refuses _ _ hfails

end Workspace

end Dataflow
