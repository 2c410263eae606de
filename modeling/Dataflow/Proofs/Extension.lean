import Dataflow.Proofs.Reachability
import Dataflow.Proofs.Refusals

/-! # Differentiation only extends a graph

    A backward graph is grown op by op, and growth may fail at any point.  What
    has been grown by then stays.

    Whether it succeeds or fails, one step of growth leaves the graph as it
    was or with one more op, whose outputs have reserved names.  All that was
    in the graph before differentiation is therefore still there and unchanged,
    and new ops read only what is older than they are, so no cycle is closed. -/

namespace Dataflow

open Dataflow.Graph

/-! ## Section 1: What has been grown so far -/

namespace Graph

variable {loss : TensorId} {g s s' : Graph} {o : Op}

/-- Tensor `t` of a graph `s` grown from `g` is older than op number `op`: it
    was in `g`, or it is the gradient of the loss by itself, or an op that was
    created in between has it as an output. -/
def CreatedBefore (loss : TensorId) (g s : Graph) (op : OpId) (t : TensorId) : Prop :=
  (g.tensor? t).isSome ∨
    (t = Naming.grad loss ∧ (s.tensor? t).isSome ∧ s.producer? t = none) ∨
    ∃ p, g.nextOp ≤ p ∧ p < op ∧ s.producer? t = some p

/-- What was older is older also for later ops and in larger graphs. -/
theorem CreatedBefore.mono {op op' : OpId} {t : TensorId} (h : CreatedBefore loss g s op t)
    (hkept : ∀ t, (s.tensor? t).isSome →
      (s'.tensor? t).map Tensor.unread = (s.tensor? t).map Tensor.unread)
    (hle : op ≤ op') : CreatedBefore loss g s' op' t := by
  rcases h with hold | ⟨rfl, hexists, hnone⟩ | ⟨p, hnew, hlt, hp⟩
  · exact .inl hold
  · have hsame := hkept _ hexists
    refine .inr (.inl ⟨rfl, ?_, (producer?_of_unread hsame).trans hnone⟩)
    simpa [hexists] using congrArg Option.isSome hsame
  · refine .inr (.inr ⟨p, hnew, Nat.lt_of_lt_of_le hlt hle, ?_⟩)
    rw [producer?_of_unread (hkept t (tensor_of_producer hp))]
    exact hp

/-- `s` has been grown from `g` toward the gradients of `loss`. -/
structure GrownFrom (loss : TensorId) (g s : Graph) : Prop where
  op : ∀ p, p < g.nextOp → s.op? p = g.op? p
  /-- Of the tensors that were there, only the readers have changed. -/
  tensor : ∀ t, (g.tensor? t).isSome →
    (s.tensor? t).map Tensor.unread = (g.tensor? t).map Tensor.unread
  created : ∀ t, (s.tensor? t).isSome → CreatedBefore loss g s s.nextOp t
  /-- An op that was not there reads what is older than itself. -/
  reads : ∀ p i t, g.nextOp ≤ p → s.inputAt p i = some t → CreatedBefore loss g s p t
  reserved : ∀ t, (s.tensor? t).isSome → (g.tensor? t).isSome ∨ Naming.isReserved t
  nextOp : g.nextOp ≤ s.nextOp
  scope : s.scope = g.scope
  constraints : s.constraints = g.constraints
  inputs : s.inputs = g.inputs
  outputs : s.outputs = g.outputs

namespace GrownFrom

theorem refl (hg : g.WellWired) (loss : TensorId) : GrownFrom loss g g where
  op _ _ := rfl
  tensor _ _ := rfl
  created _ ht := .inl ht
  reads p i t hp hi := by
    obtain ⟨x, hx, -⟩ := inputAt_eq_some.1 hi
    exact absurd (hg.fresh p (by simp [hx])) (Nat.not_lt.2 hp)
  reserved _ ht := .inl ht
  nextOp := Nat.le_refl _
  scope := rfl
  constraints := rfl
  inputs := rfl
  outputs := rfl

theorem tensor_exists (h : GrownFrom loss g s) {t : TensorId} (ht : (g.tensor? t).isSome) :
    (s.tensor? t).isSome := by
  simpa [ht] using congrArg Option.isSome (h.tensor t ht)

/-- The gradient of the loss by itself is added. -/
theorem seed (h : GrownFrom loss g s) {x : Tensor} (hfree : s.tensor? (Naming.grad loss) = none)
    (hx : x.producer? = none) : GrownFrom loss g (s.insertTensor (Naming.grad loss) x) := by
  have hne : ∀ t, (s.tensor? t).isSome → t ≠ Naming.grad loss := by
    rintro t ht rfl
    rw [hfree] at ht
    cases ht
  have hkept : ∀ t, (s.tensor? t).isSome →
      ((s.insertTensor (Naming.grad loss) x).tensor? t).map Tensor.unread
        = (s.tensor? t).map Tensor.unread := by
    intro t ht
    rw [tensor?_insertTensor, if_neg (hne t ht)]
  refine ⟨h.op, fun t ht => ?_, fun t ht => ?_, fun p i t hp hi => ?_, fun t ht => ?_, h.nextOp,
    h.scope, h.constraints, h.inputs, h.outputs⟩
  · exact (hkept t (h.tensor_exists ht)).trans (h.tensor t ht)
  · by_cases heq : t = Naming.grad loss
    · exact .inr (.inl ⟨heq, ht, by simp [producer?, heq, hx]⟩)
    · rw [tensor?_insertTensor, if_neg heq] at ht
      exact (h.created t ht).mono hkept (Nat.le_refl _)
  · exact (h.reads p i t hp hi).mono hkept (Nat.le_refl _)
  · by_cases heq : t = Naming.grad loss
    · exact .inr (heq ▸ Naming.isReserved_grad loss)
    · rw [tensor?_insertTensor, if_neg heq] at ht
      exact h.reserved t ht

/-- **One more op** leaves everything else alone. -/
theorem sprout (h : GrownFrom loss g s) (hs : Sprouted s o s')
    (hreserved : ∀ i t, o.outputs.get? i = some t → Naming.isReserved t) :
    GrownFrom loss g s' := by
  have hle : s.nextOp ≤ s'.nextOp := hs.nextOp ▸ Nat.le_succ _
  have hnew : ∀ t, (s'.tensor? t).isSome → (s.tensor? t).isSome ∨
      ∃ i, o.outputs.get? i = some t := fun t ht => hs.old_or_new ht
  refine ⟨fun p hp => ?_, fun t ht => ?_, fun t ht => ?_, fun p i t hp hi => ?_, fun t ht => ?_,
    Nat.le_trans h.nextOp hle, hs.scope.trans h.scope, hs.constraints.trans h.constraints,
    hs.inputs.trans h.inputs, hs.outputs.trans h.outputs⟩
  · rw [hs.op, if_neg (Nat.ne_of_lt (Nat.lt_of_lt_of_le hp h.nextOp))]
    exact h.op p hp
  · exact (hs.kept t (h.tensor_exists ht)).trans (h.tensor t ht)
  · rcases hnew t ht with hold | ⟨i, hi⟩
    · exact (h.created t hold).mono hs.kept hle
    · exact .inr (.inr ⟨s.nextOp, h.nextOp, by rw [hs.nextOp]; exact Nat.lt_succ_self _,
        hs.made i t hi⟩)
  · by_cases hnumber : p = s.nextOp
    · -- the new op reads tensors that were there when it was created
      obtain ⟨x, hx, hi⟩ := inputAt_eq_some.1 hi
      rw [hs.op, if_pos hnumber] at hx
      cases hx
      exact (h.created t (hs.inputs_old i t hi)).mono hs.kept (Nat.le_of_eq hnumber.symm)
    · have hold : s.inputAt p i = some t := by
        unfold inputAt at hi ⊢
        rwa [hs.op, if_neg hnumber] at hi
      exact (h.reads p i t hp hold).mono hs.kept (Nat.le_refl _)
  · rcases hnew t ht with hold | ⟨i, hi⟩
    · exact h.reserved t hold
    · exact .inr (hreserved i t hi)

theorem sprouting {names : TensorId → Prop} (h : GrownFrom loss g s)
    (hs : Sprouting names s s') (hreserved : ∀ t, names t → Naming.isReserved t) :
    GrownFrom loss g s' := by
  rcases hs with rfl | ⟨o, hs, hnames⟩
  · exact h
  · exact h.sprout hs fun i t hi => hreserved t (hnames i t hi)

end GrownFrom

/-- **Differentiation as a whole**, also where it fails. -/
theorem keptByGrowth_grownFrom (loss : TensorId) (g : Graph) :
    KeptByGrowth loss (GrownFrom loss g) where
  addSeed type data := by
    refine Keeps.bind_of (Q := fun _ s => GrownFrom loss g s ∧ s.tensor? (Naming.grad loss) = none)
      (fun s u s' hs hask => ?_) (fun s e s' hs hask => (Edit.ask_fails hask).2 ▸ hs)
      fun _ s hs => hs.1.seed hs.2 rfl
    · obtain ⟨hnew, rfl⟩ := Edit.ask_eq_ok.1 hask
      refine ⟨hs, ?_⟩
      split at hnew
      · cases hnew
      · rename_i hfree
        simpa [contains_tensors] using hfree
  growGradOp options forward label spec phase? b hb := by
    refine hb.sprouting (Growth.sprouting_growGradOp options forward label spec phase? b) ?_
    rintro _ ⟨x, -, t, -, rfl⟩
    exact Naming.isReserved_edgeGrad t forward x.2
  growSum tensor partials b hb := by
    refine hb.sprouting (Growth.sprouting_growSum tensor partials b) ?_
    rintro t rfl
    exact Naming.isReserved_grad tensor

variable {g' : Graph}

/-- **No cycle is closed**: an edge between old ops was there before, no new op
    leads to an old one, and among new ops edges lead upwards. -/
theorem GrownFrom.acyclic (h : GrownFrom loss g g') (hg : g.WellWired) (hg' : g'.WellWired)
    (hac : Acyclic g.Orders) : Acyclic g'.Orders := by
  have hproducer : ∀ {t : TensorId} {p : OpId}, (g.tensor? t).isSome →
      g'.producer? t = some p → p < g.nextOp := by
    intro t p ht hp
    rw [producer?_of_unread (h.tensor t ht)] at hp
    obtain ⟨x, hx⟩ := hg.producer_exists hp
    exact hg.fresh p (by simp [hx])
  have hold : ∀ {v : OpId} {i : Nat} {t : TensorId}, v < g.nextOp → g'.inputAt v i = some t →
      g.inputAt v i = some t := by
    intro v i t hv hi
    unfold inputAt at hi ⊢
    rwa [h.op v hv] at hi
  -- old ops share the lowest level and keep their order, new ops have a level each
  refine hac.lex (fun p => if p < g.nextOp then 0 else p + 1) id fun u v huv => ?_
  rcases mem_successors.1 huv with hdata | hcon
  · obtain ⟨hne, i, t, hi, hr⟩ := mem_dataSuccessors.1 hdata
    obtain ⟨j, hj⟩ := hg'.reader_iff.1 hr
    have hp := (hg'.produces t u).2 ⟨i, hi⟩
    by_cases hv : v < g.nextOp
    · -- an old op reads old tensors, and so the producer is old
      have hread := hold hv hj
      obtain ⟨x, hx⟩ := hg.input_exists hread
      have hu := hproducer (by simp [hx]) hp
      refine .inr ⟨by simp [hu, hv], mem_successors.2 (.inl (mem_dataSuccessors.2 ?_))⟩
      rw [producer?_of_unread (h.tensor t (by simp [hx]))] at hp
      obtain ⟨k, hk⟩ := (hg.produces t u).1 hp
      exact ⟨hne, k, t, hk, hg.reader_iff.2 ⟨j, hread⟩⟩
    · left
      by_cases hu : u < g.nextOp
      · simp [hu, hv]
      · rcases h.reads v j t (Nat.not_lt.1 hv) hj with ht | ⟨-, -, hnone⟩ | ⟨p, -, hlt, hp'⟩
        · exact absurd (hproducer ht hp) hu
        · rw [hnone] at hp
          cases hp
        · rw [hp] at hp'
          cases hp'
          simpa [hu, hv] using hlt
  · rw [h.constraints] at hcon
    obtain ⟨hu, hv⟩ := hg.constrained _ hcon
    exact .inr ⟨by simp [hg.fresh u hu, hg.fresh v hv], mem_successors.2 (.inr hcon)⟩

end Graph

/-! ## Section 2: Errors that precede growth -/

/-- Whether the error is found before anything is grown. -/
def GradientError.precedesGrowth : GradientError → Bool
  | reservedId _ | unknownLoss _ | lossNotScalar _ _ | lossWithoutProducer _ => true
  | gradOfGradOp _ | invalidGradOp _ _ | graph _ | internal _ => false

namespace Growth

variable {α β : Type}

/-- Errors of `m` are not among those that precede growth. -/
def FailsLate (m : Growth α) : Prop := ∀ b, FailsOnly (fun e => e.precedesGrowth = false) m b

namespace FailsLate

theorem pure (a : α) : FailsLate (Pure.pure a : Growth α) := fun _ => .pure a

theorem get : FailsLate (MonadState.get : Growth Backward) := fun _ _ _ h => by cases h

theorem throw {e : GradientError} (he : e.precedesGrowth = false) :
    FailsLate (MonadExcept.throw e : Growth α) := fun _ => .throw he

theorem modify (f : Backward → Backward) : FailsLate (modify f : Growth PUnit) := fun _ => .modify f

theorem bind {m : Growth α} {f : α → Growth β} (hm : FailsLate m) (hf : ∀ a, FailsLate (f a)) :
    FailsLate (m >>= f) := fun b => (hm b).bind fun a b' _ => hf a b'

theorem forM {f : α → Growth PUnit} (hf : ∀ a, FailsLate (f a)) (xs : List α) :
    FailsLate (xs.forM f) := fun _ =>
  .forM (I := fun _ => True) (fun x _ b _ => hf x b) (fun _ _ _ _ _ _ _ => trivial) trivial

theorem mapM {f : α → Growth β} (hf : ∀ a, FailsLate (f a)) (xs : List α) :
    FailsLate (xs.mapM f) := fun _ => .mapM (fun x b => hf x b) xs

theorem edit (e : Edit α) : FailsLate (edit e) := fun _ => failsOnly_edit fun _ _ _ => rfl

theorem ask (question : Graph → Except GraphError α) : FailsLate (ask question) := edit _

theorem require {test : Except GradientError α}
    (h : ErrsOnly (fun e => e.precedesGrowth = false) test) : FailsLate (require test) :=
  fun _ => failsOnly_require h

theorem updatePartials {u : PartialGradients.Update α}
    (h : ∀ l, FailsOnly (fun e => e.precedesGrowth = false) u l) :
    FailsLate (updatePartials u) := fun _ => failsOnly_updatePartials (h _)

theorem updateOutputs {u : OutputGradients.Update α}
    (h : ∀ l, FailsOnly (fun e => e.precedesGrowth = false) u l) :
    FailsLate (updateOutputs u) := fun _ => failsOnly_updateOutputs (h _)

end FailsLate

theorem failsLate_waivePartial (tensor : TensorId) :
    FailsLate (updatePartials (PartialGradients.waive tensor)) :=
  .updatePartials (PartialGradients.failsOnly_waive (fun _ => rfl) tensor)

theorem failsLate_deliver (label : String) (gradOp : OpId) (output : Nat) (tensor : TensorId) :
    FailsLate (deliver label gradOp output tensor) := by
  refine .bind (.bind (.ask _) fun expected => .bind (.ask _) fun o => ?_) fun grad =>
    .updatePartials (PartialGradients.failsOnly_insert (fun _ => rfl) tensor grad)
  split
  · exact .throw rfl
  · refine .bind (.ask _) fun found => ?_
    split
    · exact .bind (.throw rfl) fun _ => .pure _
    · exact .pure _

theorem failsLate_settleNew (op : OpId) : FailsLate (settleNew op) :=
  .bind (.edit _) fun _ => .modify _

theorem failsLate_growGradOp (options : GradientOptions) (forward : OpId) (label : String)
    (spec : GradSpec Operator) (phase? : Option Int) :
    FailsLate (growGradOp options forward label spec phase?) := by
  have htargets : ∀ o, ErrsOnly (fun e => e.precedesGrowth = false)
      (targetTensors label o spec) := by
    refine fun o => ErrsOnly.mapM fun x _ => ?_
    obtain ⟨output, input⟩ := x
    simp only
    split
    · exact .ok _
    · exact .error rfl
  have hwire : FailsLate (wireGradOp options forward label spec phase?) :=
    .bind (.ask _) fun o => .bind .get fun b =>
      .bind (.require (errsOnly_wiring (fun _ => rfl) o spec _)) fun inputs =>
      .bind (.require (htargets o)) fun targets => .bind (.edit _) fun gradOp =>
      .bind (.forM (fun _ => .edit _) inputs) fun _ =>
      .bind (.forM (fun _ => .edit _) targets) fun _ => .bind (.edit _) fun _ => .pure _
  exact .bind hwire fun x => .bind (failsLate_settleNew x.1) fun _ =>
    .forM (fun _ => failsLate_deliver _ _ _ _) x.2

theorem failsLate_growGradOps (options : GradientOptions) (forward : OpId) :
    FailsLate (growGradOps options forward) := by
  refine .bind (.bind (.ask _) fun o => ?_) fun x => .bind
    (.forM (fun _ => failsLate_growGradOp _ _ _ _ _) _) fun _ => .bind (.ask _) fun _ =>
    .forM (fun _ => failsLate_waivePartial _) _
  have hrest : FailsLate (do
      let specs ← ask fun g => o.operator.gradSpecs (g.view forward o)
      Growth.require (checkSpecs (o.label forward) o specs [])
      return (o, specs)) :=
    .bind (.ask _) fun specs =>
      .bind (.require (errsOnly_checkSpecs (fun _ => rfl) o specs [])) fun _ => .pure _
  simp only
  split
  · exact .bind (.throw rfl) fun _ => hrest
  · exact hrest

theorem failsLate_tellProducer (towardLoss : List OpId) (tensor : TensorId) :
    FailsLate (tellProducer towardLoss tensor) := by
  refine .bind (.ask _) fun t => ?_
  split
  · exact .pure _
  · split
    · exact .bind (.ask _) fun o => .forM (fun _ => .updateOutputs
        (OutputGradients.failsOnly_insert (fun _ => rfl) _ _ _)) _
    · exact .pure _

theorem failsLate_giveUpProducer (towardLoss : List OpId) (tensor : TensorId) :
    FailsLate (giveUpProducer towardLoss tensor) := by
  refine .bind (.bind (.ask _) fun t => ?_) fun struck? => ?_
  · split
    · exact .pure _
    · split
      · exact .bind (.ask _) fun o => .bind
          (.mapM (fun _ => .updateOutputs fun _ _ _ h => by cases h) _) fun _ => .pure _
      · exact .pure _
  · split
    · exact .pure _
    · exact .forM (fun _ => failsLate_waivePartial _) _

theorem failsLate_growGradient (options : GradientOptions) (towardLoss : List OpId)
    (tensor : TensorId) (partials : List TensorId) :
    FailsLate (growGradient options towardLoss tensor partials) := by
  have hsum : FailsLate (growSum tensor partials) :=
    .bind (.bind (.ask _) fun phase? => .bind (.edit _) fun sum =>
      .bind (.forM (fun _ => .edit _) _) fun _ => .bind (.edit _) fun _ => .pure _) fun sum =>
      .bind (failsLate_settleNew sum) fun _ => .bind (.modify _) fun _ => .pure _
  refine .bind (.ask _) fun t => ?_
  split
  · exact failsLate_giveUpProducer towardLoss tensor
  · split
    · refine .bind hsum fun total => ?_
      split
      · exact .modify _
      · exact .modify _
      · exact failsLate_tellProducer towardLoss tensor
      · exact failsLate_tellProducer towardLoss tensor
    · exact .pure _

/-- **The whole growth** fails with other errors than those that precede it. -/
theorem failsLate_propagate (options : GradientOptions) (towardLoss : List OpId) (rounds : Nat) :
    FailsLate (propagate options towardLoss rounds) := by
  induction rounds with
  | zero => exact .pure _
  | succ rounds ih =>
    refine .bind (fun _ _ _ h => by cases h) fun r => ?_
    split
    · exact .pure _
    · exact .bind (.bind (.forM (failsLate_growGradOps options) _) fun _ =>
        .forM (fun _ => failsLate_growGradient _ _ _ _) _) fun _ => ih

end Growth

/-- **Errors that precede growth** leave the graph as it was. -/
theorem Graph.differentiate_eq_error {options : GradientOptions} {g g' : Graph}
    {e : GradientError} (h : Graph.differentiate options g = .error e g')
    (he : e.precedesGrowth = true) : g' = g := by
  unfold Graph.differentiate at h
  split at h
  · cases h
    rfl
  · rename_i type producer _
    simp only at h
    generalize g.opsToward producer = towardLoss at h
    have hseed : Growth.FailsLate (Growth.seed options.loss type towardLoss) :=
      .bind (.edit _) fun _ => .bind (.modify _) fun _ =>
        Growth.failsLate_tellProducer towardLoss options.loss
    -- once the loss has passed its checks, no error that precedes growth can come up
    have hlate := hseed.bind fun _ => Growth.failsLate_propagate options towardLoss
      (towardLoss.length + (Backward.start g options.loss towardLoss).partials.expected.size + 1)
    split at h
    · cases h
    · rename_i hgrowth
      cases h
      rw [hlate _ _ _ hgrowth] at he
      cases he

/-! ## Section 3: Extension -/

/-- `g'` is `g` with a backward graph of `loss`, or with a part of one. -/
structure Graph.Extends (loss : TensorId) (g g' : Graph) : Prop where
  op : ∀ o, (g.op? o).isSome → g'.op? o = g.op? o
  /-- A tensor has kept its kind, type, data and producer. -/
  tensor : ∀ t, (g.tensor? t).isSome →
    (g'.tensor? t).map Tensor.unread = (g.tensor? t).map Tensor.unread
  reads : ∀ t o, (g.tensor? t).isSome → (g.op? o).isSome → g'.readCount t o = g.readCount t o
  inputs : g'.inputs = g.inputs
  outputs : g'.outputs = g.outputs
  constraints : g'.constraints = g.constraints
  scope : g'.scope = g.scope
  /-- New ops have larger numbers than all old ones. -/
  later : ∀ o o', (g.op? o).isSome → g.op? o' = none → (g'.op? o').isSome → o < o'
  /-- New ops read what is older than themselves. -/
  reads_older : ∀ o i t, g.op? o = none → g'.inputAt o i = some t →
    CreatedBefore loss g g' o t
  acyclic : Acyclic g.RunsBefore → Acyclic g'.RunsBefore
  reserved : ∀ t, g.tensor? t = none → (g'.tensor? t).isSome → Naming.isReserved t

theorem Graph.GrownFrom.extends {loss : TensorId} {g g' : Graph} (h : GrownFrom loss g g')
    (hg : g.WellWired) (hg' : g'.WellWired) : g.Extends loss g' := by
  have hnew : ∀ o, g.op? o = none → (g'.op? o).isSome → g.nextOp ≤ o := by
    intro o hnone ho
    by_contra hlt
    rw [h.op o (Nat.not_le.1 hlt), hnone] at ho
    cases ho
  exact {
    op := fun o ho => h.op o (hg.fresh o ho)
    tensor := h.tensor
    reads := fun t o _ ho => by
      rw [← hg'.reads, ← hg.reads, wireCount, wireCount, h.op o (hg.fresh o ho)]
    inputs := h.inputs
    outputs := h.outputs
    constraints := h.constraints
    scope := h.scope
    later := fun o o' ho hnone ho' => Nat.lt_of_lt_of_le (hg.fresh o ho) (hnew o' hnone ho')
    reads_older := fun o i t hnone hi => by
      obtain ⟨x, hx, -⟩ := inputAt_eq_some.1 hi
      exact h.reads o i t (hnew o hnone (by simp [hx])) hi
    acyclic := by
      rw [hg.runsBefore_eq, hg'.runsBefore_eq]
      exact h.acyclic hg hg'
    reserved := fun t hnone ht => by
      rcases h.reserved t ht with hold | hreserved
      · rw [hnone] at hold
        cases hold
      · exact hreserved }

namespace Workspace

/-- **Differentiation only extends.**  In every state that can be reached and
    for all options, whether differentiation succeeds or fails, the graph is
    extended by at most a backward graph, the planner is not touched, and an
    error that precedes growth leaves the graph exactly as it was. -/
theorem extends_of_reachable {w : Workspace} (h : w.Reachable) (options : GradientOptions) :
    w.graph.Extends options.loss ((Call.differentiate options).run w).graph ∧
    ((Call.differentiate options).run w).planner = w.planner ∧
    ∀ e g', Graph.differentiate options w.graph = .error e g' → e.precedesGrowth = true →
      g' = w.graph := by
  have hwired := h.sound.wellWired
  have hgrown := (keptByGrowth_grownFrom options.loss w.graph).differentiate w.graph
    (.refl hwired options.loss)
  have hwired' := (h.call (.differentiate options)).sound.wellWired
  exact ⟨hgrown.extends hwired hwired', rfl, fun e g' => Graph.differentiate_eq_error⟩

/-- A product loses one of its factors after the loss has been computed. -/
def lostFactor : Workspace :=
  let calls : List Call := [
    .addVar "w" ⟨.f32, [2, 3]⟩ (Payload.zeros 24),
    .addInput "labels" ⟨.i64, [2]⟩,
    .createOp Builtin.mul.operator {},
    .connectInput 0 0 "w",
    .connectInput 0 1 "w",
    .createOutput 0 0 "y",
    .settle 0,
    .createOp Builtin.nll.operator {},
    .connectInput 1 0 "y",
    .connectInput 1 1 "labels",
    .createOutput 1 0 "loss",
    .settle 1,
    .disconnectInput 0 1]
  calls.foldl (fun w c => c.run w) {}

/-- Two ops have been grown when the product is found to lack a factor.  An
    unknown loss is found out before. -/
theorem lostFactor_extends :
    (succeeds (Graph.differentiate { loss := "loss" } lostFactor.graph) = false ∧
      ((Call.differentiate { loss := "loss" }).run lostFactor).graph.opIds = [0, 1, 2, 3] ∧
      lostFactor.graph.Extends "loss"
        ((Call.differentiate { loss := "loss" }).run lostFactor).graph) ∧
    ∃ g', Graph.differentiate { loss := "cost" } lostFactor.graph
      = .error (.unknownLoss "cost") g' ∧ g' = lostFactor.graph := by
  have hreachable : lostFactor.Reachable := Reachable.run (.start "") _
  refine ⟨⟨by decide +kernel, by decide +kernel,
    (extends_of_reachable hreachable { loss := "loss" }).1⟩, ?_⟩
  have hunknown : (match Graph.differentiate { loss := "cost" } lostFactor.graph with
      | .ok _ _ => none
      | .error e _ => some e) = some (.unknownLoss "cost") := by
    decide +kernel
  cases hrun : Graph.differentiate { loss := "cost" } lostFactor.graph with
  | ok report g' =>
    rw [hrun] at hunknown
    cases hunknown
  | error e g' =>
    rw [hrun] at hunknown
    cases hunknown
    exact ⟨g', rfl, (extends_of_reachable hreachable { loss := "cost" }).2.2 _ g' hrun rfl⟩

end Workspace

end Dataflow
