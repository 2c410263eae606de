import Mathlib.Data.List.Nodup
import Dataflow.Proofs.Accounts

/-! # Serving one op

    When the gradient ops of an op are grown, or when the op is given up, each
    of its inputs is dealt with in its turn.  The invariant `Serving` says which
    inputs are still to come.  One input at a time, the ledger accepts the
    entry, the account stays proper, and whatever fails is a refusal. -/

namespace Dataflow

open Dataflow.Graph

/-! ## Section 1: How audited steps end -/

/-- The books are in order: the account is proper, and the ledger counts what
    the account lists. -/
structure Booked (all : List Reading) (s : Backward × Account) : Prop where
  proper : s.2.Proper all
  tracks : ∃ taken, s.1.partials.Tracks all s.2.delivered s.2.waived taken

/-- How an audited step may fail: by a refusal that leaves the books in order. -/
def Refused (all : List Reading) (e : GradientError) (s : Backward × Account) : Prop :=
  e.IsRefusal ∧ Booked all s

namespace Audit

variable {α : Type} {all : List Reading} {s s' : Backward × Account} {m : Growth α}
  {Q : α → Backward × Account → Prop}

theorem noting_eq_ok {note : Account → Account} {x : α} (h : noting note m s = .ok x s') :
    ∃ b, m s.1 = .ok x b ∧ s' = (b, note s.2) := by
  unfold noting at h
  split at h
  · rename_i y b hrun
    cases h
    exact ⟨b, hrun, rfl⟩
  · cases h

theorem noting_eq_error {note : Account → Account} {e : GradientError}
    (h : noting note m s = .error e s') : ∃ b, m s.1 = .error e b ∧ s' = (b, s.2) := by
  unfold noting at h
  split at h
  · cases h
  · rename_i e' b hrun
    cases h
    exact ⟨b, hrun, rfl⟩

/-- **A quiet step** that fails by refusals only. -/
theorem ends_silently (hs : Booked all s) (hquiet : Growth.Quiet m)
    (hrefuses : FailsOnly GradientError.IsRefusal m s.1)
    (hok : ∀ x b, m s.1 = .ok x b → Q x (b, s.2)) : Ends (Refused all) (silently m) s Q := by
  constructor
  · intro x s' hrun
    obtain ⟨b, hb, rfl⟩ := noting_eq_ok hrun
    exact hok x b hb
  · intro e s' hrun
    obtain ⟨b, hb, rfl⟩ := noting_eq_error hrun
    have hkept := hquiet s.1.partials s.1 rfl
    rw [hb] at hkept
    obtain ⟨taken, htracks⟩ := hs.tracks
    refine ⟨hrefuses e b hb, hs.proper, taken, ?_⟩
    show b.partials.Tracks _ _ _ _
    rw [show b.partials = s.1.partials from hkept]
    exact htracks

/-- **A question** about the graph, which changes nothing. -/
theorem ends_ask (hs : Booked all s) {question : Graph → Except GraphError α}
    (h : ErrsOnly GraphError.IsRefusal (question s.1.graph)) :
    Ends (Refused all) (silently (Growth.ask question)) s fun x s' =>
      s' = s ∧ question s.1.graph = .ok x := by
  refine ends_silently hs (Growth.quiet_ask _) (Growth.ask_refuses h) fun x b hrun => ?_
  obtain ⟨hx, rfl⟩ := Growth.ask_eq_ok.1 hrun
  exact ⟨rfl, hx⟩

/-- **An entry** that the ledger accepts. -/
theorem ends_entry {note : Account → Account} {u : PartialGradients.Update Unit}
    {Q : Unit → Backward × Account → Prop} {l : PartialGradients} (hl : u s.1.partials = .ok () l)
    (hok : Q () ({ s.1 with partials := l }, note s.2)) :
    Ends (Refused all) (noting note (Growth.updatePartials u)) s Q := by
  have hrun : Growth.updatePartials u s.1 = .ok () { s.1 with partials := l } :=
    Growth.updatePartials_eq_ok.2 ⟨l, hl, rfl⟩
  constructor
  · intro x s' h
    obtain ⟨b, hb, rfl⟩ := noting_eq_ok h
    rw [hrun] at hb
    cases hb
    exact hok
  · intro e s' h
    obtain ⟨b, hb, rfl⟩ := noting_eq_error h
    rw [hrun] at hb
    cases hb

end Audit

/-! ## Section 2: One input at a time -/

/-- Op number `op` is being served: on top of the account `before`, exactly the
    readings by `op` have been dealt with, those at the inputs `todo` apart. -/
structure Serving (g : Graph) (ops : List OpId) (op : OpId) (before : Account)
    (taken : List TensorId) (ledger : OutputGradients) (todo : List Nat)
    (s : Backward × Account) : Prop where
  carries : s.1.Carries g
  outputs : s.1.outputs = ledger
  partials : s.1.partials.Tracks (g.readings ops) s.2.delivered s.2.waived taken
  proper : s.2.Proper (g.readings ops)
  /-- Nothing is taken back. -/
  grows : ∃ rs ws, s.2.delivered = before.delivered ++ rs ∧ s.2.waived = before.waived ++ ws
  entries : ∀ r, r ∈ s.2.entries ↔ r ∈ before.entries ∨ r ∈ g.readings [op] ∧ r.index ∉ todo
  mem : op ∈ ops
  fresh : ∀ r ∈ before.entries, r.op ≠ op
  nodup : todo.Nodup

namespace Serving

variable {g : Graph} {ops : List OpId} {op : OpId} {before : Account} {taken : List TensorId}
  {ledger : OutputGradients} {todo rest : List Nat} {s s' : Backward × Account}

theorem booked (h : Serving g ops op before taken ledger todo s) : Booked (g.readings ops) s :=
  ⟨h.proper, taken, h.partials⟩

/-- Only the graph and what is noted about it have changed. -/
theorem regrow (h : Serving g ops op before taken ledger todo s) {b : Backward}
    (hcarries : b.Carries g) (houtputs : b.outputs = s.1.outputs)
    (hpartials : b.partials = s.1.partials) :
    Serving g ops op before taken ledger todo (b, s.2) :=
  { h with
    carries := hcarries
    outputs := houtputs.trans h.outputs
    partials := by
      show b.partials.Tracks _ _ _ _
      rw [hpartials]
      exact h.partials }

/-- The next reading is an edge that has not been dealt with. -/
theorem next {i : Nat} (h : Serving g ops op before taken ledger (i :: rest) s) {t : TensorId}
    (hin : g.inputAt op i = some t) :
    (⟨op, i, t⟩ : Reading) ∈ g.readings ops ∧ (⟨op, i, t⟩ : Reading) ∉ s.2.entries := by
  refine ⟨readings_of_mem h.mem hin, fun hmem => ?_⟩
  rcases (h.entries _).1 hmem with hold | ⟨-, hdone⟩
  · exact h.fresh _ hold rfl
  · exact hdone List.mem_cons_self

/-- **One more entry**: the next reading has been dealt with. -/
theorem enter {i : Nat} (h : Serving g ops op before taken ledger (i :: rest) s) {t : TensorId}
    (hin : g.inputAt op i = some t) {a : Account} {l : PartialGradients}
    (hperm : a.entries.Perm (⟨op, i, t⟩ :: s.2.entries))
    (htracks : l.Tracks (g.readings ops) a.delivered a.waived taken)
    (hgrows : ∃ rs ws, a.delivered = s.2.delivered ++ rs ∧ a.waived = s.2.waived ++ ws) :
    Serving g ops op before taken ledger rest ({ s.1 with partials := l }, a) := by
  obtain ⟨hmem, hnew⟩ := h.next hin
  obtain ⟨hi, hrest⟩ := List.nodup_cons.1 h.nodup
  refine { h with
    carries := { h.carries with }
    partials := htracks
    proper := h.proper.enter hmem hnew hperm
    grows := ?_
    entries := ?_
    nodup := hrest }
  · obtain ⟨rs, ws, hdelivered, hwaived⟩ := h.grows
    obtain ⟨rs', ws', hdelivered', hwaived'⟩ := hgrows
    refine ⟨rs ++ rs', ws ++ ws', ?_, ?_⟩
    · rw [hdelivered', hdelivered, List.append_assoc]
    · rw [hwaived', hwaived, List.append_assoc]
  · intro r
    show r ∈ a.entries ↔ _
    rw [hperm.mem_iff, List.mem_cons, h.entries]
    constructor
    · rintro (rfl | hold | ⟨hread, hdone⟩)
      · exact .inr ⟨mem_readings.2 ⟨List.mem_singleton_self _, hin⟩, hi⟩
      · exact .inl hold
      · exact .inr ⟨hread, fun hlater => hdone (List.mem_cons_of_mem _ hlater)⟩
    · rintro (hold | ⟨hread, hdone⟩)
      · exact .inr (.inl hold)
      · -- of the readings by the op, only the next one is at input `i`
        by_cases hri : r.index = i
        · obtain ⟨hop, hin'⟩ := mem_readings.1 hread
          rw [List.mem_singleton] at hop
          obtain ⟨p, j, u⟩ := r
          simp only at hop hri hin'
          subst hop hri
          rw [hin] at hin'
          cases hin'
          exact .inl rfl
        · refine .inr (.inr ⟨hread, fun hmem => ?_⟩)
          rcases List.mem_cons.1 hmem with heq | hmem
          · exact hri heq
          · exact hdone hmem

/-- **Delivery** at the next input. -/
theorem insert {i : Nat} (h : Serving g ops op before taken ledger (i :: rest) s) {t : TensorId}
    (hin : g.inputAt op i = some t) :
    Ends (Refused (g.readings ops)) (Audit.insert ⟨op, i, t⟩ (Naming.edgeGrad t op i)) s
      fun _ s' => Serving g ops op before taken ledger rest s' ∧ s'.1.graph = s.1.graph := by
  obtain ⟨hmem, hnew⟩ := h.next hin
  obtain ⟨l, hl⟩ := h.partials.insert_ok h.proper hmem hnew
  refine Audit.ends_entry hl ⟨h.enter hin (Account.entries_deliver _ _) ?_ ?_, rfl⟩
  · exact h.partials.insert ⟨op, i, t⟩ hl
  · exact ⟨[⟨op, i, t⟩], [], rfl, (List.append_nil _).symm⟩

/-- **Waiver** of the next input. -/
theorem waive {i : Nat} (h : Serving g ops op before taken ledger (i :: rest) s) {t : TensorId}
    (hin : g.inputAt op i = some t) :
    Ends (Refused (g.readings ops)) (Audit.waive ⟨op, i, t⟩) s
      fun _ s' => Serving g ops op before taken ledger rest s' ∧
        s'.2.delivered = s.2.delivered := by
  obtain ⟨hmem, hnew⟩ := h.next hin
  obtain ⟨l, hl⟩ := h.partials.waive_ok h.proper hmem hnew
  refine Audit.ends_entry hl ⟨h.enter hin (Account.entries_waive _ _) ?_ ?_, rfl⟩
  · exact h.partials.waive ⟨op, i, t⟩ hl
  · exact ⟨[], [⟨op, i, t⟩], (List.append_nil _).symm, rfl⟩

/-- **All inputs that are left** are waived. -/
theorem waives {xs : List (Nat × TensorId)}
    (h : Serving g ops op before taken ledger (xs.map Prod.fst) s)
    (hin : ∀ x ∈ xs, g.inputAt op x.1 = some x.2) :
    Ends (Refused (g.readings ops)) (xs.forM fun x => Audit.waive ⟨op, x.1, x.2⟩) s
      fun _ s' => Serving g ops op before taken ledger [] s' ∧ s'.2.delivered = s.2.delivered := by
  have hloop := Ends.forM (E := Refused (g.readings ops))
    (f := fun x : Nat × TensorId => Audit.waive ⟨op, x.1, x.2⟩) (s := s)
    (I := fun ys s' => Serving g ops op before taken ledger (ys.map Prod.fst) s' ∧
      (∀ x ∈ ys, g.inputAt op x.1 = some x.2) ∧ s'.2.delivered = s.2.delivered)
    (fun x ys t ⟨hserving, hys, hsame⟩ => ?_) ⟨h, hin, rfl⟩
  · exact hloop.mono fun _ s' hs' => ⟨hs'.1, hs'.2.2⟩
  · refine (hserving.waive (hys x List.mem_cons_self)).mono fun _ s' hs' => ?_
    exact ⟨hs'.1, fun y hy => hys y (List.mem_cons_of_mem x hy), hs'.2.trans hsame⟩

/-! ## Section 3: One gradient op -/

/-- **Delivery of an output** of a gradient op at the next input. -/
theorem deliver {i output : Nat} (h : Serving g ops op before taken ledger (i :: rest) s)
    {t : TensorId} (hin : g.inputAt op i = some t) {label : String} {p : OpId} {o : Op}
    (ho : s.1.graph.op? p = some o)
    (hout : o.outputs.get? output = some (Naming.edgeGrad t op i))
    (htensor : (s.1.graph.type? t).isSome)
    (hgrad : (s.1.graph.type? (Naming.edgeGrad t op i)).isSome) :
    Ends (Refused (g.readings ops)) (Audit.deliver label p output ⟨op, i, t⟩) s
      fun _ s' => Serving g ops op before taken ledger rest s' ∧ s'.1.graph = s.1.graph := by
  have hinspect : Ends (Refused (g.readings ops)) (Audit.silently
      (Growth.inspect label p output t)) s
      fun grad s' => grad = Naming.edgeGrad t op i ∧ s' = s := by
    refine Audit.ends_silently h.booked (Growth.quiet_inspect _ _ _ _)
      (Growth.inspect_refuses htensor ho hout hgrad) fun grad b hrun => ?_
    obtain ⟨rfl, o', ho', hout'⟩ := Growth.inspect_eq_ok hrun
    rw [ho] at ho'
    cases ho'
    rw [hout] at hout'
    exact ⟨(Option.some.inj hout').symm, rfl⟩
  refine hinspect.bind fun grad s' hs' => ?_
  obtain ⟨rfl, rfl⟩ := hs'
  exact h.insert hin

/-- Outputs of a gradient op that are delivered one after the other. -/
theorem delivers {label : String} {p : OpId} {o : Op} {targets : List (Nat × Nat × TensorId)}
    (h : Serving g ops op before taken ledger (targets.map (·.2.1) ++ rest) s)
    (ho : s.1.graph.op? p = some o)
    (hall : ∀ x ∈ targets, g.inputAt op x.2.1 = some x.2.2 ∧
      o.outputs.get? x.1 = some (Naming.edgeGrad x.2.2 op x.2.1) ∧
      (s.1.graph.type? x.2.2).isSome ∧
      (s.1.graph.type? (Naming.edgeGrad x.2.2 op x.2.1)).isSome) :
    Ends (Refused (g.readings ops))
      (targets.forM fun (output, input, tensor) => Audit.deliver label p output ⟨op, input, tensor⟩)
      s fun _ s' => Serving g ops op before taken ledger rest s' := by
  have hloop := Ends.forM (E := Refused (g.readings ops)) (s := s)
    (f := fun (x : Nat × Nat × TensorId) => Audit.deliver label p x.1 ⟨op, x.2.1, x.2.2⟩)
    (I := fun ys s' => Serving g ops op before taken ledger (ys.map (·.2.1) ++ rest) s' ∧
      (∀ x ∈ ys, x ∈ targets) ∧ s'.1.graph = s.1.graph)
    (fun x ys t ⟨hserving, hys, hsame⟩ => ?_) ⟨h, fun _ hx => hx, rfl⟩
  · exact hloop.mono fun _ s' hs' => hs'.1
  · obtain ⟨hin, hout, htensor, hgrad⟩ := hall x (hys x List.mem_cons_self)
    refine (hserving.deliver hin ?_ hout ?_ ?_).mono fun _ s' hs' => ?_
    · rw [hsame]
      exact ho
    · rw [hsame]
      exact htensor
    · rw [hsame]
      exact hgrad
    · exact ⟨hs'.1, fun y hy => hys y (List.mem_cons_of_mem x hy), hs'.2.trans hsame⟩

end Serving

namespace Backward.Carries

variable {g : Graph} {b b' : Backward}

/-- What was there is still there. -/
theorem there (h : b.Carries g) {t : TensorId} (ht : (g.tensor? t).isSome) :
    (b.graph.tensor? t).isSome := by
  simpa [ht] using congrArg Option.isSome (h.tensor t ht)

/-- What has a type still has it. -/
theorem type (h : b.Carries g) {t : TensorId} (ht : (g.type? t).isSome) :
    (b.graph.type? t).isSome := by
  rw [type?_of_unread (h.tensor t (tensor_of_type ht))]
  exact ht

theorem knows (h : b.Carries g) {o : Op} (ho : g.Knows o) : b.graph.Knows o :=
  fun i t ht => h.type (ho i t ht)

end Backward.Carries

/-- What one can rely on when differentiation is audited: the types of the
    tensors of every op upstream are known, and the op is dependable. -/
structure Footing (g : Graph) (loss : TensorId) (ops : List OpId) : Prop
    extends Setting g loss ops where
  knows : ∀ op ∈ ops, ∀ o, g.op? op = some o → g.Knows o
  dependable : ∀ op ∈ ops, ∀ o, g.op? op = some o → o.Dependable op

namespace Serving

variable {g : Graph} {loss : TensorId} {ops : List OpId} {op : OpId} {before : Account}
  {taken : List TensorId} {ledger : OutputGradients} {rest : List Nat} {s : Backward × Account}

/-- **One gradient op**: the inputs that it covers have been dealt with. -/
theorem growGradOp (hf : Footing g loss ops) {spec : GradSpec Operator}
    (h : Serving g ops op before taken ledger (spec.targets.toList.map Prod.snd ++ rest) s)
    {x : Op} (hx : g.op? op = some x)
    (hwired : ∀ y ∈ spec.targets.toList, (x.inputs.get? y.2).isSome)
    (hinfers : spec.operator.Infers) (options : GradientOptions) (label : String)
    (phase? : Option Int) :
    Ends (Refused (g.readings ops)) (Audit.growGradOp options op label spec phase?) s
      fun _ s' => Serving g ops op before taken ledger rest s' := by
  have hop : s.1.graph.op? op = some x := by
    rw [h.carries.op_old hf.wellWired (by simp [hx])]
    exact hx
  -- the op is wired
  have hwire : Ends (Refused (g.readings ops)) (Audit.silently
      (Growth.wireGradOp options op label spec phase?)) s
      fun y s' => ∃ inputs g₁, y.1 = s.1.graph.nextOp ∧
        Growth.targetTensors label x spec = .ok y.2 ∧ g₁.WellWired ∧
        Growing s.1.graph
          { Growth.gradOp options op phase? spec inputs y.2 with isSettled := false } g₁ ∧
        s' = ({ s.1 with graph := g₁ }, s.2) := by
    refine Audit.ends_silently h.booked (Growth.quiet_wireGradOp _ _ _ _ _)
      (Growth.wireGradOp_refuses hop hwired) fun y b hrun => ?_
    have hkept : b.graph.WellWired :=
      (keptByEdits_wellWired.wireGradOp _ _ _ _ _).ok h.carries.wellWired hrun
    obtain ⟨o, inputs, g₁, ho, -, htargets, hgrowing, hnumber, rfl⟩ := Growth.wireGradOp_eq_ok hrun
    rw [hop] at ho
    cases ho
    exact ⟨inputs, g₁, hnumber, htargets, hkept, hgrowing, rfl⟩
  refine hwire.bind fun y s₁ hs₁ => ?_
  obtain ⟨p, targets⟩ := y
  obtain ⟨inputs, g₁, rfl, htargets, hkept, hgrowing, rfl⟩ := hs₁
  simp only at htargets hgrowing
  -- the op is settled
  have hbooked : Booked (g.readings ops) ({ s.1 with graph := g₁ }, s.2) :=
    ⟨h.proper, taken, h.partials⟩
  have hsettle : Ends (Refused (g.readings ops)) (Audit.silently
      (Growth.settleNew s.1.graph.nextOp)) ({ s.1 with graph := g₁ }, s.2)
      fun _ s' => ∃ g₂ grown, g₂.WellWired ∧
        Grown s.1.graph (Growth.gradOp options op phase? spec inputs targets) g₂ ∧
        s' = ({ s.1 with graph := g₂, grown }, s.2) := by
    refine Audit.ends_silently hbooked (Growth.quiet_settleNew _)
      (Growth.settleNew_refuses (b := { s.1 with graph := g₁ }) hgrowing hinfers)
      fun _ b hrun => ?_
    have hbefore : Backward.Has WellWired { s.1 with graph := g₁ } := hkept
    have hwell : b.graph.WellWired := (keptByEdits_wellWired.settleNew _).ok hbefore hrun
    obtain ⟨g₂, hgrown, rfl⟩ :=
      Growth.settleNew_eq_ok (b := { s.1 with graph := g₁ }) hgrowing hrun
    exact ⟨g₂, _, hwell, hgrown, rfl⟩
  refine hsettle.bind fun _ s₂ hs₂ => ?_
  obtain ⟨g₂, grown, hwell, hgrown, rfl⟩ := hs₂
  -- its outputs are delivered
  have hcarries : Backward.Carries g { s.1 with graph := g₂, grown } :=
    h.carries.grow hgrown hwell
  have hall := Growth.targetTensors_eq_ok htargets
  have hindices : spec.targets.toList.map Prod.snd = targets.map (·.2.1) := by
    rw [← Growth.map_targetTensors htargets, List.map_map]
    rfl
  have hserving := h.regrow hcarries rfl rfl
  rw [hindices] at hserving
  refine hserving.delivers hgrown.op_new fun y hy => ?_
  obtain ⟨z, hz, -, hindex, hin⟩ := forall₂_mem_right hall hy
  rw [← hindex] at hin
  have hout : (Growth.gradOp options op phase? spec inputs targets).outputs.get? y.1
      = some (Naming.edgeGrad y.2.2 op y.2.1) := Growth.get?_gradOp htargets y hy
  obtain ⟨-, type, hnew⟩ := hgrown.made _ _ hout
  refine ⟨by rw [inputAt_eq hx]; exact hin, hout, ?_, ?_⟩
  · exact hcarries.type (hf.knows op h.mem x hx _ _ (.inl hin))
  · show (g₂.type? _).isSome
    simp [type?, hnew]

/-- **All gradient ops** of the op: only the inputs that none of them covers
    are left. -/
theorem growGradOps (hf : Footing g loss ops) {specs : List (GradSpec Operator)}
    (h : Serving g ops op before taken ledger (Growth.coveredInputs specs ++ rest) s)
    {x : Op} (hx : g.op? op = some x)
    (hwired : ∀ spec ∈ specs, ∀ y ∈ spec.targets.toList, (x.inputs.get? y.2).isSome)
    (hinfers : ∀ spec ∈ specs, spec.operator.Infers) (options : GradientOptions)
    (label : String) (phase? : Option Int) :
    Ends (Refused (g.readings ops))
      (specs.forM fun spec => Audit.growGradOp options op label spec phase?) s
      fun _ s' => Serving g ops op before taken ledger rest s' := by
  have hloop := Ends.forM (E := Refused (g.readings ops)) (s := s)
    (f := fun spec => Audit.growGradOp options op label spec phase?)
    (I := fun todo s' =>
      Serving g ops op before taken ledger (Growth.coveredInputs todo ++ rest) s' ∧
        ∀ spec ∈ todo, spec ∈ specs)
    (fun spec todo t ⟨hserving, htodo⟩ => ?_) ⟨h, fun _ hs => hs⟩
  · exact hloop.mono fun _ s' hs' => hs'.1
  · have hmem := htodo spec List.mem_cons_self
    have hcons : Growth.coveredInputs (spec :: todo)
        = spec.targets.toList.map Prod.snd ++ Growth.coveredInputs todo := List.flatMap_cons
    rw [hcons, List.append_assoc] at hserving
    refine (hserving.growGradOp hf hx (hwired spec hmem) (hinfers spec hmem) options label
      phase?).mono fun _ s' hs' => ?_
    exact ⟨hs', fun y hy => htodo y (List.mem_cons_of_mem spec hy)⟩

end Serving

end Dataflow
