import Dataflow.Proofs.Bookkeeping
import Dataflow.Proofs.Outcomes

/-! # Rounds of differentiation

    In each round, differentiation takes out of its ledgers what is complete,
    and ops and tensors have their turn one after the other.  Here the rounds
    are followed without any assumption on the operators.  Whatever they ask
    for, no op and no tensor has its turn twice, and an op has its turn only
    after one of its outputs has got its gradient (`Backward.Orderly`).

    What every turn keeps is kept by a whole run, also by one that fails
    (`Growth.ends_propagate`). -/

namespace Dataflow

open Dataflow.Graph

/-! ## Section 1: The ledgers from turn to turn -/

namespace PartialGradients

variable {l l' l'' : PartialGradients}

/-- The turn of `t` is still to come. -/
def Awaits (l : PartialGradients) (t : TensorId) : Prop := t ∈ l.expected ∨ t ∈ l.complete

instance (l : PartialGradients) (t : TensorId) : Decidable (l.Awaits t) :=
  inferInstanceAs (Decidable (_ ∨ _))

/-- From `l` to `l'`, nothing is added that awaits its turn, and nothing that is
    complete is expected again. -/
structure Shifts (l l' : PartialGradients) : Prop where
  awaits : ∀ t, l'.Awaits t → l.Awaits t
  apart : (∀ t ∈ l.complete, t ∉ l.expected) → ∀ t ∈ l'.complete, t ∉ l'.expected

theorem Shifts.refl (l : PartialGradients) : l.Shifts l := ⟨fun _ ht => ht, fun h => h⟩

theorem Shifts.trans (h : l.Shifts l') (h' : l'.Shifts l'') : l.Shifts l'' :=
  ⟨fun t ht => h.awaits t (h'.awaits t ht), fun hl => h'.apart (h.apart hl)⟩

theorem shifts_settle {tensor : TensorId} (hexpected : tensor ∈ l.expected) :
    l.Shifts (l.settle tensor) := by
  unfold settle
  simp only
  split
  · refine ⟨fun t ht => ?_, fun hapart t ht => ?_⟩
    · rcases ht with ht | ht
      · exact .inl (Std.ExtTreeMap.mem_erase.1 ht).2
      · rcases Std.ExtTreeMap.mem_insert.1 ht with heq | ht
        · rw [← Std.LawfulEqCmp.eq_of_compare heq]
          exact .inl hexpected
        · exact .inr ht
    · rw [Std.ExtTreeMap.mem_erase]
      rintro ⟨hne, hmem⟩
      rcases Std.ExtTreeMap.mem_insert.1 ht with heq | ht
      · exact hne heq
      · exact hapart t ht hmem
  · exact .refl l

theorem shifts_of_insert {tensor grad : TensorId} {u : Unit}
    (hrun : insert tensor grad l = .ok u l') : l.Shifts l' := by
  obtain ⟨n, hexpected, -, -, rfl⟩ := insert_eq_ok hrun
  have hmem : tensor ∈ l.expected :=
    Std.ExtTreeMap.mem_iff_isSome_getElem?.2 (Option.isSome_of_eq_some hexpected)
  have hsettle := shifts_settle (l := { l with
    held := l.held.insert tensor (l.arrived tensor ++ [grad]) }) hmem
  exact ⟨hsettle.awaits, hsettle.apart⟩

theorem shifts_of_waive {tensor : TensorId} {u : Unit} (hrun : waive tensor l = .ok u l') :
    l.Shifts l' := by
  obtain ⟨n, hexpected, rfl⟩ := waive_eq_ok hrun
  have hmem : tensor ∈ l.expected :=
    Std.ExtTreeMap.mem_iff_isSome_getElem?.2 (Option.isSome_of_eq_some hexpected)
  have hexpect : l.Shifts (l.expect tensor n) := by
    refine ⟨fun t ht => ht.imp_left fun ht => ?_, fun hapart t ht hmem' => ?_⟩
    · rcases Std.ExtTreeMap.mem_insert.1 ht with heq | ht
      · rwa [← Std.LawfulEqCmp.eq_of_compare heq]
      · exact ht
    · rcases Std.ExtTreeMap.mem_insert.1 hmem' with heq | hmem'
      · rw [← Std.LawfulEqCmp.eq_of_compare heq] at ht
        exact hapart tensor ht hmem
      · exact hapart t ht hmem'
  exact hexpect.trans (shifts_settle Std.ExtTreeMap.mem_insert_self)

/-- A loop of entries. -/
theorem shifts_of_forM {α : Type} {f : α → Update Unit} {xs : List α} {u : Unit}
    (hf : ∀ x ∈ xs, ∀ m m' v, f x m = .ok v m' → m.Shifts m')
    (hrun : xs.forM f l = .ok u l') : l.Shifts l' :=
  forM_ok hrun (.refl l) fun x hx m m' v hm hx' => hm.trans (hf x hx m m' v hx')

theorem shifts_takeComplete (l : PartialGradients) : l.Shifts l.takeComplete.2 := by
  refine ⟨fun t ht => ?_, fun _ t ht => ?_⟩
  · rcases ht with ht | ht
    · exact .inl ht
    · simp [takeComplete] at ht
  · simp [takeComplete] at ht

theorem mem_takeComplete {t : TensorId} :
    t ∈ l.takeComplete.1.map Prod.fst ↔ t ∈ l.complete := by
  show t ∈ l.complete.toList.map Prod.fst ↔ _
  rw [Std.ExtTreeMap.map_fst_toList_eq_keys, Std.ExtTreeMap.mem_keys]

end PartialGradients

namespace OutputGradients

variable {told told' : OpId → Nat → Prop} {l l' : OutputGradients} {op : OpId} {o : Op}
  {index : Nat}

/-- Of the outputs, the ledger has heard only what is `told`.  An op that is
    complete has been told of an output, and it is not done with. -/
structure Heard (told : OpId → Nat → Prop) (l : OutputGradients) : Prop where
  available : ∀ op i, i ∈ l.available op → told op i
  complete : ∀ op ∈ l.complete, op ∉ l.closed ∧ ∃ i, told op i

theorem Heard.mono (h : l.Heard told) (hmono : ∀ op i, told op i → told' op i) : l.Heard told' where
  available op i hi := hmono op i (h.available op i hi)
  complete op hop := (h.complete op hop).imp_right fun ⟨i, hi⟩ => ⟨i, hmono op i hi⟩

theorem Heard.insert (h : l.Heard told) (htold : told op index) {u : Unit}
    (hrun : OutputGradients.insert op o index l = .ok u l') :
    l'.Heard told ∧ l'.closed = l.closed := by
  obtain ⟨hopen, hclosed, -, havailable, hother, -⟩ := insert_eq_ok hrun
  refine ⟨⟨fun p i hi => ?_, fun p hp => ?_⟩, hclosed⟩
  · by_cases heq : p = op
    · subst heq
      rw [havailable, Std.ExtTreeSet.mem_insert, Std.compare_eq_iff_eq] at hi
      rcases hi with rfl | hi
      · exact htold
      · exact h.available p i hi
    · rw [(hother p heq).1] at hi
      exact h.available p i hi
  · rw [hclosed]
    by_cases heq : p = op
    · subst heq
      exact ⟨hopen, index, htold⟩
    · exact h.complete p ((hother p heq).2.1 hp)

theorem Heard.waive (h : l.Heard told) {given : Bool} (hrun : l.waive op o index = (given, l')) :
    l'.Heard told ∧ ∀ p ∈ l.closed, p ∈ l'.closed := by
  rcases waive_eq hrun with ⟨-, -, rfl⟩ | ⟨hopen, hheld, -, hother, hgiven, hkept⟩
  · exact ⟨h, fun _ hp => hp⟩
  have havailable : ∀ p, l'.available p = l.available p := fun p => by
    unfold OutputGradients.available
    rw [hheld]
  refine ⟨⟨fun p i hi => h.available p i (havailable p ▸ hi), fun p hp => ?_⟩, fun p hp => ?_⟩
  · by_cases heq : p = op
    · subst heq
      cases given with
      | true => exact absurd hp (hgiven rfl).2.1
      | false =>
        obtain ⟨hstill, hnone, -⟩ := hkept rfl
        refine ⟨hstill, ?_⟩
        by_cases hempty : l.available p = ∅
        · exact (h.complete p ((hnone hempty).2.1 hp)).2
        · obtain ⟨i, hi⟩ := exists_mem_of_ne_empty hempty
          exact ⟨i, h.available p i hi⟩
    · rw [(hother p heq).1]
      exact h.complete p ((hother p heq).2.1 hp)
  · have heq : p ≠ op := fun heq => hopen (heq ▸ hp)
    exact (hother p heq).1.2 hp

theorem mem_foldl_erase {ops : List OpId} {held : Std.ExtTreeMap OpId (Std.ExtTreeSet Nat)}
    {i : Nat}
    (h : i ∈ (ops.foldl (fun held op => held.erase op) held).getD op ∅) : i ∈ held.getD op ∅ := by
  induction ops generalizing held with
  | nil => exact h
  | cons p rest ih =>
    have hrest := ih h
    rw [Std.ExtTreeMap.getD_erase] at hrest
    split at hrest
    · simp at hrest
    · exact hrest

theorem Heard.takeComplete (h : l.Heard told) : l.takeComplete.2.Heard told where
  available op i hi := h.available op i (mem_foldl_erase hi)
  complete op hop := by simp [OutputGradients.takeComplete] at hop

end OutputGradients

/-! ## Section 2: Turns -/

namespace Backward

/-- Output `i` of op number `op`, which is one of `ops`, has got its gradient. -/
def Told (g : Graph) (ops : List OpId) (b : Backward) (op : OpId) (i : Nat) : Prop :=
  op ∈ ops ∧ ∃ t, g.outputAt op i = some t ∧ t ∈ b.gradOf

/-- What no step takes back. -/
structure Advances (b b' : Backward) : Prop where
  gradOf : ∀ t ∈ b.gradOf, t ∈ b'.gradOf
  partials : b.partials.Shifts b'.partials
  closed : ∀ op ∈ b.outputs.closed, op ∈ b'.outputs.closed

theorem Advances.refl (b : Backward) : b.Advances b := ⟨fun _ h => h, .refl _, fun _ h => h⟩

theorem Advances.trans {b b' b'' : Backward} (h : b.Advances b') (h' : b'.Advances b'') :
    b.Advances b'' where
  gradOf t ht := h'.gradOf t (h.gradOf t ht)
  partials := h.partials.trans h'.partials
  closed op hop := h'.closed op (h.closed op hop)

/-- The state between two turns, while the backward graph of `g` grows from
    `ops`: the ops `os` and the tensors `ts` have been taken out of the ledgers
    and wait for their turn. -/
structure Orderly (g : Graph) (ops os : List OpId) (ts : List (TensorId × List TensorId))
    (b : Backward) : Prop where
  carries : b.Carries g
  heard : b.outputs.Heard (b.Told g ops)
  taken : ∀ op ∈ os, op ∈ b.outputs.closed ∧ ∃ i, b.Told g ops op i
  once : os.Nodup
  apart : ∀ t ∈ b.partials.complete, t ∉ b.partials.expected
  read : ∀ t, b.partials.Awaits t ∨ t ∈ ts.map Prod.fst → g.ReadBy ops t
  due : ∀ t ∈ ts.map Prod.fst, ¬ b.partials.Awaits t
  different : (ts.map Prod.fst).Nodup

namespace Orderly

variable {g : Graph} {ops os : List OpId} {ts : List (TensorId × List TensorId)} {b b' : Backward}
  {options : GradientOptions} {u : Unit}

/-- **One step** between two turns. -/
theorem step (h : b.Orderly g ops os ts) (hb : b.Advances b') (hcarries : b'.Carries g)
    (hheard : b'.outputs.Heard (b'.Told g ops)) : b'.Orderly g ops os ts where
  carries := hcarries
  heard := hheard
  taken op hop := by
    obtain ⟨hclosed, i, hmem, t, hout, ht⟩ := h.taken op hop
    exact ⟨hb.closed op hclosed, i, hmem, t, hout, hb.gradOf t ht⟩
  once := h.once
  apart := hb.partials.apart h.apart
  read t ht := h.read t (ht.imp_left (hb.partials.awaits t))
  due t ht hawaits := h.due t ht (hb.partials.awaits t hawaits)
  different := h.different

/-- A step that only enters something in the ledger of partial gradients. -/
theorem enter (h : b.Orderly g ops os ts) {l : PartialGradients} (hl : b.partials.Shifts l) :
    Orderly g ops os ts { b with partials := l } ∧ b.Advances { b with partials := l } := by
  have hadvances : b.Advances { b with partials := l } := ⟨fun _ ht => ht, hl, fun _ hop => hop⟩
  exact ⟨h.step hadvances { h.carries with } h.heard, hadvances⟩

theorem waives (h : b.Orderly g ops os ts) {xs : List (Nat × TensorId)} {l : PartialGradients}
    (hrun : xs.forM (fun x => PartialGradients.waive x.2) b.partials = .ok u l) :
    Orderly g ops os ts { b with partials := l } ∧ b.Advances { b with partials := l } :=
  h.enter (PartialGradients.shifts_of_forM
    (fun _ _ _ _ _ hx => PartialGradients.shifts_of_waive hx) hrun)

/-- **One gradient op.** -/
theorem growGradOp (h : b.Orderly g ops os ts) {forward : OpId} {label : String}
    {spec : GradSpec Operator} {phase? : Option Int}
    (hrun : Growth.growGradOp options forward label spec phase? b = .ok u b') :
    b'.Orderly g ops os ts ∧ b.Advances b' := by
  have hwired : b'.graph.WellWired :=
    (keptByEdits_wellWired.growGradOp _ _ _ _ _).ok h.carries.wellWired hrun
  obtain ⟨o, inputs, targets, g', l, -, -, -, hgrown, hl, rfl⟩ := Growth.growGradOp_eq_ok hrun
  have hadvances : b.Advances { b with
      graph := g', partials := l, grown := b.grown ++ [b.graph.nextOp] } :=
    ⟨fun _ ht => ht, PartialGradients.shifts_of_forM
      (fun _ _ _ _ _ hx => PartialGradients.shifts_of_insert hx) hl, fun _ hop => hop⟩
  exact ⟨h.step hadvances (h.carries.grow hgrown hwired) h.heard, hadvances⟩

/-- The first op has had its turn. -/
theorem next {op : OpId} (h : b.Orderly g ops (op :: os) ts) : b.Orderly g ops os ts :=
  { h with
    taken := fun p hp => h.taken p (List.mem_cons_of_mem op hp)
    once := (List.nodup_cons.1 h.once).2 }

/-- **Telling a producer** that a tensor has got its gradient. -/
theorem tellProducer (h : b.Orderly g ops os ts) (hg : g.WellWired)
    (hops : ∀ op ∈ ops, (g.op? op).isSome) {t : TensorId} (ht : t ∈ b.gradOf)
    (hrun : Growth.tellProducer ops t b = .ok u b') :
    b'.Orderly g ops os ts ∧ b.Advances b' := by
  rcases Growth.tellProducer_eq_ok h.carries.wellWired hrun with ⟨rfl, -⟩ |
    ⟨op, o, index, l, hsource, hinsert, rfl⟩
  · exact ⟨h, .refl _⟩
  · obtain ⟨hop, -, hout⟩ := h.carries.isSource hg hops hsource
    have htold : b.Told g ops op index := ⟨hop, t, hout, ht⟩
    obtain ⟨hheard, hclosed⟩ := h.heard.insert htold hinsert
    have hadvances : b.Advances { b with outputs := l } :=
      ⟨fun _ ht => ht, .refl _, fun p hp => by rwa [hclosed]⟩
    exact ⟨h.step hadvances { h.carries with } hheard, hadvances⟩

/-- **Giving up a producer.** -/
theorem giveUpProducer (h : b.Orderly g ops os ts) {t : TensorId}
    (hrun : Growth.giveUpProducer ops t b = .ok u b') :
    b'.Orderly g ops os ts ∧ b.Advances b' := by
  rcases Growth.giveUpProducer_eq_ok h.carries.wellWired hrun with ⟨rfl, -⟩ |
    ⟨op, o, index, given, l, ps, -, hwaive, hps, rfl⟩
  · exact ⟨h, .refl _⟩
  · obtain ⟨hheard, hclosed⟩ := h.heard.waive hwaive
    have hadvances : b.Advances { b with outputs := l } := ⟨fun _ ht => ht, .refl _, hclosed⟩
    have h₁ : Orderly g ops os ts { b with outputs := l } :=
      h.step hadvances { h.carries with } hheard
    cases given with
    | true =>
      obtain ⟨h₂, hb₂⟩ := h₁.waives hps
      exact ⟨h₂, hadvances.trans hb₂⟩
    | false =>
      cases hps
      exact ⟨h₁, hadvances⟩

/-- **One sum.** -/
theorem growSum (h : b.Orderly g ops os ts) {t total : TensorId} {xs : List TensorId}
    (hrun : Growth.growSum t xs b = .ok total b') :
    b'.Orderly g ops os ts ∧ b.Advances b' ∧ t ∈ b'.gradOf := by
  have hwired : b'.graph.WellWired :=
    (keptByEdits_wellWired.growSum _ _).ok h.carries.wellWired hrun
  obtain ⟨rfl, phase?, g', -, hgrown, rfl⟩ := Growth.growSum_eq_ok hrun
  have hadvances : b.Advances { b with
      graph := g'
      grown := b.grown ++ [b.graph.nextOp]
      gradOf := b.gradOf.insert t (Naming.grad t) } :=
    ⟨fun s hs => Std.ExtTreeMap.mem_insert.2 (.inr hs), .refl _, fun _ hop => hop⟩
  refine ⟨h.step hadvances (h.carries.grow hgrown hwired) (h.heard.mono ?_), hadvances,
    Std.ExtTreeMap.mem_insert_self⟩
  rintro op i ⟨hop, s, hout, hs⟩
  exact ⟨hop, s, hout, hadvances.gradOf s hs⟩

/-- The first tensor has had its turn. -/
theorem drop {t : TensorId} {xs : List TensorId} (h : b.Orderly g ops os ((t, xs) :: ts)) :
    b.Orderly g ops os ts :=
  { h with
    read := fun s hs => h.read s (hs.imp_right (List.mem_cons_of_mem t))
    due := fun s hs => h.due s (List.mem_cons_of_mem t hs)
    different := (List.nodup_cons.1 h.different).2 }

/-- **The turn of a tensor.** -/
theorem growGradient (hg : g.WellWired) (hops : ∀ op ∈ ops, (g.op? op).isSome) {t : TensorId}
    {xs : List TensorId} (h : b.Orderly g ops os ((t, xs) :: ts))
    (hrun : Growth.growGradient options ops t xs b = .ok u b') :
    b'.Orderly g ops os ts ∧ b.Advances b' := by
  obtain ⟨x, -, hcases⟩ := Growth.growGradient_eq_ok hrun
  rcases hcases with ⟨-, hgive⟩ | ⟨-, -, rfl⟩ | ⟨-, -, total, b₁, hsum, hrest⟩
  · exact h.drop.giveUpProducer hgive
  · exact ⟨h.drop, .refl _⟩
  · obtain ⟨h₁, hb₁, hmem⟩ := h.drop.growSum hsum
    split at hrest
    · subst hrest
      have hnoted : b₁.Advances { b₁ with gradients := b₁.gradients.insert t total } :=
        ⟨fun _ ht => ht, .refl _, fun _ hop => hop⟩
      exact ⟨h₁.step hnoted { h₁.carries with } h₁.heard, hb₁.trans hnoted⟩
    · obtain ⟨h₂, hb₂⟩ := h₁.tellProducer hg hops hmem hrest
      exact ⟨h₂, hb₁.trans hb₂⟩

/-- **A new round**: what is complete waits for its turn. -/
theorem takeComplete (h : b.Orderly g ops [] []) :
    Orderly g ops b.round.ops b.round.arrivals b.cleared where
  carries := { h.carries with }
  heard := h.heard.takeComplete
  taken op hop := by
    refine ⟨OutputGradients.mem_closed_takeComplete.2 (.inr hop), ?_⟩
    exact (h.heard.complete op (Std.ExtTreeSet.mem_toList.1 hop)).2
  once := (Std.ExtTreeSet.ordered_toList).imp fun hlt heq => by simp [heq] at hlt
  apart := (b.partials.shifts_takeComplete).apart h.apart
  read t ht := by
    refine h.read t (.inl ?_)
    rcases ht with ht | ht
    · exact b.partials.shifts_takeComplete.awaits t ht
    · exact .inr (PartialGradients.mem_takeComplete.1 ht)
  due t ht hawaits := by
    rcases hawaits with hexpected | hcomplete
    · exact h.apart t (PartialGradients.mem_takeComplete.1 ht) hexpected
    · simp [Backward.cleared, PartialGradients.takeComplete] at hcomplete
  different := by
    show (b.partials.complete.toList.map Prod.fst).Nodup
    rw [Std.ExtTreeMap.map_fst_toList_eq_keys]
    exact Std.ExtTreeMap.nodup_keys

/-- **The seed**: nothing has had its turn yet. -/
theorem seed {loss : TensorId} {type : TensorType} (hg : g.WellWired)
    (hops : ∀ op ∈ ops, (g.op? op).isSome)
    (hrun : Growth.seed loss type ops (Backward.start g loss ops) = .ok u b) :
    b.Orderly g ops [] [] ∧ b.partials = (Backward.start g loss ops).partials := by
  obtain ⟨g', hadd, htell⟩ := Growth.seed_eq_ok hrun
  obtain ⟨required, houtputs, -⟩ := Backward.requireAll_eq g loss ops hops {}
  have hstart : (Backward.start g loss ops).outputs = { required := required } := houtputs
  have h₀ : Orderly g ops [] [] { Backward.start g loss ops with
      graph := g'
      gradOf := (∅ : Std.ExtTreeMap TensorId TensorId).insert loss (Naming.grad loss) } := {
    carries := (Backward.extends_start ops hg hadd).toCarries
    heard := by
      show (Backward.start g loss ops).outputs.Heard _
      rw [hstart]
      refine ⟨fun op i hi => ?_, fun op hop => ?_⟩
      · simp [OutputGradients.available] at hi
      · simp at hop
    taken := nofun
    once := List.nodup_nil
    apart := fun t ht => by simp [Backward.start] at ht
    read := fun t ht => by
      rcases ht with (hexpected | hcomplete) | hnone
      · have hsome : ((Backward.readCounts g ops)[t]?).isSome :=
          Std.ExtTreeMap.mem_iff_isSome_getElem?.1 hexpected
        rw [Backward.getElem?_readCounts] at hsome
        refine readBy_iff.2 fun hnil => ?_
        rw [if_pos hnil] at hsome
        cases hsome
      · simp [Backward.start] at hcomplete
      · cases hnone
    due := nofun
    different := List.nodup_nil }
  refine ⟨(h₀.tellProducer hg hops (by simp) htell).1, ?_⟩
  rcases Growth.tellProducer_eq_ok h₀.carries.wellWired htell with ⟨rfl, -⟩ |
    ⟨_, _, _, _, -, -, rfl⟩
  · rfl
  · rfl

end Orderly

end Backward

/-! ## Section 3: Whole runs -/

namespace Growth

variable {options : GradientOptions} {ops : List OpId} {b : Backward}

/-- **The turn of an op**, from the gradient ops that it asks for. -/
theorem ends_growGradOps {E : GradientError → Graph → Prop} {Q : Backward → Prop}
    {I : List (GradSpec Operator) → Backward → Prop} {op : OpId} {o : Op}
    (ho : b.graph.op? op = some o) (hdescribe : FailsOnly (E · b.graph) (describe op) b)
    (hbegin : ∀ specs, o.operator.gradSpecs (b.graph.view op o) = .ok specs →
      checkSpecs (o.label op) o specs [] = .ok () → I specs b)
    (hspec : ∀ spec rest b', I (spec :: rest) b' →
      Ends (fun e b'' => E e b''.graph)
        (growGradOp options op (o.label op) spec o.settings.phase?) b' fun _ b'' => I rest b'')
    (hthere : ∀ b', I [] b' → (b'.graph.op? op).isSome)
    (hledger : ∀ b' reason, I [] b' → E (.internal reason) b'.graph)
    (hwaives : ∀ b' l (xs : List (Nat × TensorId)), I [] b' →
      xs.forM (fun x => PartialGradients.waive x.2) b'.partials = .ok () l →
        Q { b' with partials := l }) :
    Ends (fun e b' => E e b'.graph) (growGradOps options op) b fun _ b' => Q b' := by
  refine Ends.bind (Q := fun y b' => y.1 = o ∧ I y.2 b')
    ⟨fun y b' hrun => ?_, fun e b' hrun => ?_⟩ fun y b₁ ⟨ho₁, h₁⟩ => ?_
  · obtain ⟨o', specs⟩ := y
    obtain ⟨rfl, ho', -, hspecs, hcheck⟩ := describe_eq_ok hrun
    cases ho'.symm.trans ho
    exact ⟨rfl, hbegin specs hspecs hcheck⟩
  · exact error_of_keeps (keeps_describe op) hdescribe hrun
  obtain ⟨o', specs⟩ := y
  simp only at ho₁ h₁
  subst ho₁
  refine (Ends.forM hspec h₁).bind fun _ b₂ h₂ => ?_
  obtain ⟨x, hx⟩ := Option.isSome_iff_exists.1 (hthere b₂ h₂)
  refine (ends_ask fun e he => ?_).bind fun o'' b₃ ⟨hb₃, _⟩ => ?_
  · rw [requireOp_eq_ok.2 hx] at he
    cases he
  subst hb₃
  refine ⟨fun _ b₄ hrun => ?_, fun e b₄ hrun => ?_⟩
  · obtain ⟨l, hl, rfl⟩ := forM_updatePartials_eq_ok.1 hrun
    exact hwaives b₃ l _ h₂ hl
  · exact error_of_keeps (Keeps.forM (fun _ => keeps_updatePartials _) _)
      (failsOnly_waives (hledger b₃ · h₂) _) hrun

/-- **The turn of a tensor** that is there, from what becomes of it. -/
theorem ends_growGradient {E : GradientError → Backward → Prop} {Q : Backward → Prop}
    {R : TensorId → Backward → Prop} {t : TensorId} {xs : List TensorId}
    (ht : (b.graph.tensor? t).isSome)
    (hgive : xs = [] → Ends E (giveUpProducer ops t) b fun _ b' => Q b')
    (hunwanted : Q b) (hsum : xs ≠ [] → Ends E (growSum t xs) b R)
    (hnote : ∀ total b', R total b' →
      Q { b' with gradients := b'.gradients.insert t total })
    (htell : ∀ total b', R total b' → Ends E (tellProducer ops t) b' fun _ b'' => Q b'') :
    Ends E (growGradient options ops t xs) b fun _ b' => Q b' := by
  obtain ⟨x, hx⟩ := Option.isSome_iff_exists.1 ht
  refine (ends_ask fun e he => ?_).bind fun x' b₁ ⟨hb₁, _⟩ => ?_
  · rw [requireTensor_eq_ok.2 hx] at he
    cases he
  subst hb₁
  split
  · rename_i hempty
    exact hgive (List.isEmpty_iff.1 hempty)
  · rename_i hempty
    split
    · refine (hsum fun hnil => hempty (List.isEmpty_iff.2 hnil)).bind fun total b₂ h₂ => ?_
      cases x'.kind with
      | var => exact ⟨fun _ b' hrun => modify_eq_ok.1 hrun ▸ hnote total b₂ h₂, nofun⟩
      | stream => exact ⟨fun _ b' hrun => modify_eq_ok.1 hrun ▸ hnote total b₂ h₂, nofun⟩
      | const => exact htell total b₂ h₂
      | computed => exact htell total b₂ h₂
    · exact .pure hunwanted

variable {E : GradientError → Backward → Prop}

/-- **Rounds**: what every turn keeps holds after any number of them. -/
theorem ends_propagate {I : List OpId → List (TensorId × List TensorId) → Backward → Prop}
    (htake : ∀ b, I [] [] b → I b.round.ops b.round.arrivals b.cleared)
    (hop : ∀ op os ts b, I (op :: os) ts b →
      Ends E (growGradOps options op) b fun _ b' => I os ts b')
    (htensor : ∀ x ts b, I [] (x :: ts) b →
      Ends E (growGradient options ops x.1 x.2) b fun _ b' => I [] ts b')
    (rounds : Nat) (h : I [] [] b) :
    Ends E (propagate options ops rounds) b fun _ b' => I [] [] b' := by
  induction rounds generalizing b with
  | zero => exact .pure h
  | succ rounds ih =>
    refine Ends.bind (Q := fun r b' => I r.ops r.arrivals b') ⟨fun r b' hrun => ?_, ?_⟩
      fun r b₁ h₁ => ?_
    · cases hrun
      exact htake b h
    · intro e b' hrun
      cases hrun
    split
    · rename_i hidle
      obtain ⟨hops, harrivals⟩ := Round.isIdle_iff.1 hidle
      rw [hops, harrivals] at h₁
      exact .pure h₁
    · refine Ends.bind (Q := fun _ b' => I [] [] b') ?_ fun _ b₃ h₃ => ih h₃
      refine (Ends.forM (I := fun os' b' => I os' r.arrivals b')
        (fun op os' b' => hop op os' r.arrivals b') h₁).bind fun _ b₂ h₂ => ?_
      exact Ends.forM (I := fun ts' b' => I [] ts' b') (fun x ts' b' => htensor x ts' b') h₂

end Growth

/-- **Differentiation** ends as its growth does, once the loss is accepted. -/
theorem Graph.ends_differentiate {E : GradientError → Graph → Prop} {Q : Graph → Prop}
    {g : Graph} {options : GradientOptions}
    (hloss : ∀ e, g.lossProducer options.loss = .error e → E e g)
    (hgrowth : ∀ type p, g.lossProducer options.loss = .ok (type, p) → ∀ rounds,
      Ends (fun e b => E e b.graph) (do
          Growth.seed options.loss type (g.opsToward p)
          Growth.propagate options (g.opsToward p) rounds)
        (Backward.start g options.loss (g.opsToward p)) fun _ b => Q b.graph) :
    Ends E (Graph.differentiate options) g fun _ g' => Q g' := by
  refine ⟨fun report g' h => ?_, fun e g' h => ?_⟩
  · obtain ⟨type, p, ops, b₁, b, haccepted, rfl, hseed, hpropagate, -, rfl⟩ :=
      Graph.differentiate_eq_ok h
    exact (hgrowth type p haccepted _).ok () b (bind_eq_ok.2 ⟨(), b₁, hseed, hpropagate⟩)
  · unfold Graph.differentiate at h
    split at h
    · rename_i hrefused
      cases h
      exact hloss _ hrefused
    · rename_i type p haccepted
      simp only at h
      split at h
      · cases h
      · rename_i b hrun
        cases h
        exact (hgrowth type p haccepted _).error _ b hrun

end Dataflow
