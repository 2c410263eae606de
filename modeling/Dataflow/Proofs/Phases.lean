import Dataflow.Proofs.Cycles

/-! # Phases of a backward graph

    Differentiation gives each gradient op the mirrored phase of its op, and
    each sum the latest phase of the partial gradients that it adds up.  If the
    phases of a graph rise along the data, those of the grown graph do as well,
    as long as no op without a phase feeds one that has a phase.

    The argument follows the growth.  A partial gradient of a tensor is there by
    the mirrored phase of an op that reads the tensor (`Graph.Arrives`).  So the
    sum is there by the mirrored phase of the op that produces the tensor
    (`Graph.OnTime`), and the gradient ops of that op read it next. -/

namespace Dataflow

namespace Graph

variable {g g' : Graph}

/-! ## Section 1: Rising phases -/

/-- The phase that an op has been given. -/
def phase? (g : Graph) (op : OpId) : Option Int := (g.op? op).bind fun o => o.settings.phase?

/-- No phase is below -1, and data never flows to an earlier phase. -/
structure Rising (g : Graph) : Prop where
  low : ∀ op, -1 ≤ g.phaseOf op
  rises : ∀ u v, g.Feeds u v → g.phaseOf u ≤ g.phaseOf v

/-- **Rising phases close no cycle** in a layered graph: a step goes to a later
    phase, or it stays in the phase and goes to a higher number. -/
theorem Layered.acyclic_of_rising (h : g.Layered) (hr : g.Rising) (options : ScheduleOptions) :
    Acyclic (g.MustPrecede ∅ options) := by
  have hnumbers : Acyclic fun u v : Nat => u < v := acyclic_of_lt fun _ _ huv => huv
  refine hnumbers.lex (fun op => (g.phaseOf op + 1).toNat) id fun u v huv => ?_
  have hu := hr.low u
  have hv := hr.low v
  cases huv with
  | phase _ _ _ hlt => exact .inl (by omega)
  | asked hasks =>
    cases hasks with
    | data _ hfeeds =>
      have hle := hr.rises u v hfeeds
      obtain ⟨i, t, hi, hp⟩ := hfeeds
      have hnumber := h.forward v i t u hi hp
      by_cases heq : g.phaseOf u = g.phaseOf v
      · exact .inr ⟨by rw [heq], hnumber⟩
      · exact .inl (by omega)
    | constraint hc =>
      rw [h.unconstrained] at hc
      cases hc
    | extra _ hus => simp at hus

theorem Grown.phaseOf {o : Op} (hg : Grown g o g') (p : OpId) :
    g'.phaseOf p = if p = g.nextOp then o.settings.phase?.getD (-1) else g.phaseOf p := by
  unfold Graph.phaseOf
  rw [hg.op]
  split <;> rfl

/-- **One more op on top**, no earlier than what it reads. -/
theorem Rising.grown {o : Op} (hr : g.Rising) (hw : g.WellWired) (hg : Grown g o g')
    (hlow : -1 ≤ o.settings.phase?.getD (-1))
    (hin : ∀ i t p, o.inputs.get? i = some t → g.producer? t = some p →
      g.phaseOf p ≤ o.settings.phase?.getD (-1)) : g'.Rising where
  low op := by
    rw [hg.phaseOf]
    split
    · exact hlow
    · exact hr.low op
  rises u v hfeeds := by
    obtain ⟨i, t, hi, hp⟩ := hfeeds
    -- what is read was there before, and so was its producer
    have hold : (g.tensor? t).isSome := by
      rw [hg.inputAt] at hi
      split at hi
      · exact hg.inputs_old i t hi
      · obtain ⟨x, hx⟩ := hw.input_exists hi
        simp [hx]
    rw [hg.producer?_old hold] at hp
    have hu : u ≠ g.nextOp := by
      obtain ⟨x, hx⟩ := hw.producer_exists hp
      intro heq
      rw [heq, hw.op?_nextOp] at hx
      cases hx
    rw [hg.phaseOf, hg.phaseOf, if_neg hu]
    rw [hg.inputAt] at hi
    split at hi
    · rename_i hv
      rw [if_pos hv]
      exact hin i t u hi hp
    · rename_i hv
      rw [if_neg hv]
      exact hr.rises u v ⟨i, t, hi, hp⟩

/-! ## Section 2: Graphs that contain another one -/

/-- The ops of `g` and the producers of its tensors are as they are in `g`. -/
structure Includes (g g' : Graph) : Prop where
  op : ∀ p, (g.op? p).isSome → g'.op? p = g.op? p
  tensor : ∀ t, (g.tensor? t).isSome → (g'.tensor? t).isSome
  producer : ∀ t, (g.tensor? t).isSome → g'.producer? t = g.producer? t

theorem Includes.refl (g : Graph) : g.Includes g :=
  ⟨fun _ _ => rfl, fun _ ht => ht, fun _ _ => rfl⟩

theorem Includes.trans {g'' : Graph} (h : g.Includes g') (h' : g'.Includes g'') :
    g.Includes g'' where
  op p hp := (h'.op p (by rw [h.op p hp]; exact hp)).trans (h.op p hp)
  tensor t ht := h'.tensor t (h.tensor t ht)
  producer t ht := (h'.producer t (h.tensor t ht)).trans (h.producer t ht)

theorem Grown.includes {o : Op} (hw : g.WellWired) (hg : Grown g o g') : g.Includes g' where
  op p hp := by
    refine hg.op_old fun heq => ?_
    rw [heq, hw.op?_nextOp] at hp
    cases hp
  tensor t ht := by
    have hsome := congrArg Option.isSome (hg.kept t ht)
    rw [Option.isSome_map, Option.isSome_map] at hsome
    rw [hsome]
    exact ht
  producer t ht := hg.producer?_old ht

theorem includes_insertTensor {id : TensorId} {x : Tensor} (hid : g.tensor? id = none) :
    g.Includes (g.insertTensor id x) := by
  have hne : ∀ t, (g.tensor? t).isSome → t ≠ id := by
    intro t ht heq
    rw [heq, hid] at ht
    cases ht
  refine ⟨fun _ _ => rfl, fun t ht => ?_, fun t ht => ?_⟩
  · rw [tensor?_insertTensor, if_neg (hne t ht)]
    exact ht
  · unfold producer?
    rw [tensor?_insertTensor, if_neg (hne t ht)]

theorem Includes.phaseOf (h : g.Includes g') {p : OpId} (hp : (g.op? p).isSome) :
    g'.phaseOf p = g.phaseOf p := by
  unfold Graph.phaseOf
  rw [h.op p hp]

/-- A produced tensor has the same producer in the same phase. -/
theorem Includes.producer_of (h : g.Includes g') (hw : g.WellWired) {t : TensorId} {p : OpId}
    (hp : g.producer? t = some p) : g'.producer? t = some p ∧ g'.phaseOf p = g.phaseOf p := by
  obtain ⟨x, hx⟩ := hw.producer_exists hp
  exact ⟨(h.producer t (tensor_of_producer hp)).trans hp, h.phaseOf (by simp [hx])⟩

/-! ## Section 3: Mirrored phases -/

/-- All phases are among the `phases` forward ones or -1, and data never flows
    to an earlier phase. -/
structure ForwardPhases (g : Graph) (phases : Nat) : Prop where
  range : ∀ op, (g.op? op).isSome → -1 ≤ g.phaseOf op ∧ g.phaseOf op < phases
  rises : ∀ u v, g.Feeds u v → g.phaseOf u ≤ g.phaseOf v

theorem forwardPhases_iff {phases : Nat} : g.ForwardPhases phases ↔
    (∀ op ∈ g.opIds, -1 ≤ g.phaseOf op ∧ g.phaseOf op < phases) ∧
      ∀ v ∈ g.opIds, ∀ u ∈ g.feeders v, g.phaseOf u ≤ g.phaseOf v := by
  constructor
  · intro h
    exact ⟨fun op hop => h.range op (mem_opIds.1 hop),
      fun v _ u hu => h.rises u v (mem_feeders.1 hu)⟩
  · intro h
    refine ⟨fun op hop => h.1 op (mem_opIds.2 hop), fun u v hfeeds => ?_⟩
    have hv : (g.op? v).isSome := by
      obtain ⟨i, t, hi, -⟩ := hfeeds
      obtain ⟨x, hx, -⟩ := inputAt_eq_some.1 hi
      simp [hx]
    exact h.2 v (mem_opIds.2 hv) u (mem_feeders.2 hfeeds)

instance (g : Graph) (phases : Nat) : Decidable (g.ForwardPhases phases) :=
  decidable_of_iff _ forwardPhases_iff.symm

/-- What one of `ops` reads comes from ops with a phase, if it has a phase. -/
def PhasedFromStart (g : Graph) (ops : List OpId) : Prop :=
  ∀ u, ∀ v ∈ ops, g.Feeds u v → (g.phase? v).isSome → (g.phase? u).isSome

/-- The phase of the gradient ops of op number `op`. -/
def latePhase (g : Graph) (phases : Nat) (op : OpId) : Int :=
  (Growth.backwardPhase phases (g.phase? op)).getD (-1)

/-- A number of phases that can be mirrored: twice as many phases still fit in
    a signed word. -/
def IsPhaseCount (phases : Nat) : Prop := 2 ≤ phases ∧ 2 * phases < signedRange

instance (phases : Nat) : Decidable (IsPhaseCount phases) :=
  inferInstanceAs (Decidable (_ ∧ _))

theorem backwardPhase_some {phases : Nat} (h : IsPhaseCount phases) {p : Int} (hlow : -1 ≤ p)
    (hhigh : p < phases) : Growth.backwardPhase phases (some p) = some (2 * phases - 1 - p) := by
  obtain ⟨hmany, hword⟩ := h
  have hcount : toSigned phases = phases := toSigned_of_lt (by omega) (by omega)
  have hmirror : toSigned (2 * phases - 1 - p) = 2 * phases - 1 - p :=
    toSigned_of_lt (by omega) (by omega)
  unfold Growth.backwardPhase
  simp only
  rw [hcount, if_pos (by omega), hmirror]

variable {phases : Nat}

theorem ForwardPhases.rising (hf : g.ForwardPhases phases) : g.Rising where
  low op := by
    cases hop : g.op? op with
    | none => simp [phaseOf, hop]
    | some o => exact (hf.range op (by simp [hop])).1
  rises := hf.rises

/-- Within the forward phases, the mirrored phase does not wrap around. -/
theorem ForwardPhases.latePhase_eq (hf : g.ForwardPhases phases) (hcount : IsPhaseCount phases)
    {op : OpId} {p : Int} (hphase : g.phase? op = some p) :
    g.latePhase phases op = 2 * phases - 1 - p ∧ -1 ≤ p ∧ p < phases := by
  obtain ⟨o, ho, hp⟩ := Option.bind_eq_some_iff.1 hphase
  have hrange := hf.range op (by simp [ho])
  have hp' : g.phaseOf op = p := by
    simp [phaseOf, ho, hp]
  rw [hp'] at hrange
  unfold latePhase
  rw [hphase, backwardPhase_some hcount hrange.1 hrange.2]
  exact ⟨rfl, hrange⟩

/-- The gradient ops of an op come after the op. -/
theorem ForwardPhases.le_latePhase (hf : g.ForwardPhases phases) (hcount : IsPhaseCount phases)
    (op : OpId) : g.phaseOf op ≤ g.latePhase phases op := by
  show (g.phase? op).getD (-1) ≤ _
  cases hphase : g.phase? op with
  | none =>
    unfold latePhase
    rw [hphase]
    exact Int.le_refl _
  | some p =>
    obtain ⟨hlate, hlow, hhigh⟩ := hf.latePhase_eq hcount hphase
    rw [hlate, Option.getD_some]
    omega

/-- The gradient ops of an op come before those of what it reads. -/
theorem ForwardPhases.latePhase_le (hf : g.ForwardPhases phases) (hcount : IsPhaseCount phases)
    {ops : List OpId} (hstart : g.PhasedFromStart ops) {u v : OpId} (hv : v ∈ ops)
    (hfeeds : g.Feeds u v) : g.latePhase phases v ≤ g.latePhase phases u := by
  have hlow := hf.rising.low u
  have hlate := hf.le_latePhase hcount u
  cases hq : g.phase? v with
  | none =>
    have hnone : g.latePhase phases v = -1 := by
      unfold latePhase
      rw [hq]
      rfl
    omega
  | some q =>
    obtain ⟨p, hp⟩ := Option.isSome_iff_exists.1 (hstart u v hv hfeeds (by simp [hq]))
    have hrises : (g.phase? u).getD (-1) ≤ (g.phase? v).getD (-1) := hf.rises u v hfeeds
    rw [(hf.latePhase_eq hcount hp).1, (hf.latePhase_eq hcount hq).1]
    rw [hp, hq] at hrises
    simp only [Option.getD_some] at hrises
    omega

/-- `x` is produced by the mirrored phase of one of `ops` that reads `t`. -/
def Arrives (g : Graph) (ops : List OpId) (phases : Nat) (g' : Graph) (t x : TensorId) : Prop :=
  ∃ q ∈ ops, ∃ i s, g.inputAt q i = some t ∧ g'.producer? x = some s ∧
    g'.phaseOf s ≤ g.latePhase phases q

/-- `d` is produced by the mirrored phase of the op that produces `t`. -/
def OnTime (g : Graph) (phases : Nat) (g' : Graph) (t d : TensorId) : Prop :=
  (g'.tensor? d).isSome ∧ ∀ p s, g.producer? t = some p → g'.producer? d = some s →
    g'.phaseOf s ≤ g.latePhase phases p

theorem Arrives.mono {ops : List OpId} {g₁ g₂ : Graph} {t x : TensorId}
    (h : g.Arrives ops phases g₁ t x) (hw : g₁.WellWired) (hinc : g₁.Includes g₂) :
    g.Arrives ops phases g₂ t x := by
  obtain ⟨q, hq, i, s, hi, hs, hle⟩ := h
  obtain ⟨hs', hphase⟩ := hinc.producer_of hw hs
  exact ⟨q, hq, i, s, hi, hs', hphase ▸ hle⟩

theorem OnTime.mono {g₁ g₂ : Graph} {t d : TensorId} (h : g.OnTime phases g₁ t d)
    (hw : g₁.WellWired) (hinc : g₁.Includes g₂) : g.OnTime phases g₂ t d := by
  refine ⟨hinc.tensor d h.1, fun p s hp hs => ?_⟩
  rw [hinc.producer d h.1] at hs
  rw [(hinc.producer_of hw hs).2]
  exact h.2 p s hp hs

end Graph

/-! ## Section 4: What the ledgers hold -/

namespace PartialGradients

variable {l l' : PartialGradients}

/-- `x` is among the partial gradients of `t`, complete or not. -/
def Holds (l : PartialGradients) (t x : TensorId) : Prop :=
  x ∈ l.arrived t ∨ ∃ xs, l.complete[t]? = some xs ∧ x ∈ xs

theorem holds_of_settle {tensor t x : TensorId} (h : (l.settle tensor).Holds t x) :
    l.Holds t x := by
  unfold settle at h
  simp only at h
  split at h
  · rcases h with harrived | ⟨xs, hxs, hmem⟩
    · simp only [arrived, Std.ExtTreeMap.getD_erase] at harrived
      split at harrived
      · cases harrived
      · exact .inl harrived
    · simp only [Std.ExtTreeMap.getElem?_insert] at hxs
      split at hxs
      · rename_i heq
        cases hxs
        rw [Std.LawfulEqCmp.eq_of_compare heq] at hmem
        exact .inl hmem
      · exact .inr ⟨xs, hxs, hmem⟩
  · exact h

theorem holds_of_insert {tensor grad t x : TensorId} {u : Unit}
    (hrun : insert tensor grad l = .ok u l') (h : l'.Holds t x) :
    l.Holds t x ∨ (t = tensor ∧ x = grad) := by
  unfold insert at hrun
  split at hrun
  · cases hrun
  · split at hrun
    · cases hrun
    · simp only at hrun
      split at hrun
      · cases hrun
      · cases hrun
        rcases holds_of_settle h with harrived | hcomplete
        · simp only [arrived, Std.ExtTreeMap.getD_insert] at harrived
          split at harrived
          · rename_i heq
            rw [Std.LawfulEqCmp.eq_of_compare heq] at harrived ⊢
            rcases List.mem_append.1 harrived with hold | hnew
            · exact .inl (.inl hold)
            · exact .inr ⟨rfl, List.mem_singleton.1 hnew⟩
          · exact .inl (.inl harrived)
        · exact .inl (.inr hcomplete)

theorem holds_of_waive {tensor t x : TensorId} {u : Unit} (hrun : waive tensor l = .ok u l')
    (h : l'.Holds t x) : l.Holds t x := by
  unfold waive at hrun
  split at hrun
  · cases hrun
    have hheld := holds_of_settle h
    exact hheld
  · cases hrun
  · cases hrun

theorem holds_of_waives {inputs : List (Nat × TensorId)} {t x : TensorId} {u : Unit}
    (hrun : inputs.forM (fun y => waive y.2) l = .ok u l') (h : l'.Holds t x) : l.Holds t x := by
  have hall : ∀ t x, l'.Holds t x → l.Holds t x := by
    refine forM_ok (P := fun m => ∀ t x, Holds m t x → l.Holds t x) hrun (fun _ _ hm => hm) ?_
    intro y _ _ m m' hm hy t x hx
    exact hm t x (holds_of_waive hy hx)
  exact hall t x h

/-- What is taken out was held, and so was what stays. -/
theorem holds_of_takeComplete {t x : TensorId} :
    (l.takeComplete.2.Holds t x → l.Holds t x) ∧
      ∀ xs, (t, xs) ∈ l.takeComplete.1 → x ∈ xs → l.Holds t x := by
  constructor
  · intro h
    rcases h with harrived | ⟨xs, hxs, -⟩
    · exact .inl harrived
    · simp [takeComplete] at hxs
  · intro xs hmem hx
    exact .inr ⟨xs, Std.ExtTreeMap.mem_toList_iff_getElem?_eq_some.1 hmem, hx⟩

end PartialGradients

namespace OutputGradients

variable {l l' : OutputGradients}

theorem complete_of_insert {op : OpId} {o : Op} {index : Nat} {u : Unit}
    (hrun : insert op o index l = .ok u l') {p : OpId} (hp : p ∈ l'.complete) :
    p ∈ l.complete ∨ p = op := by
  unfold insert at hrun
  split at hrun
  · cases hrun
  · split at hrun
    · cases hrun
    · simp only at hrun
      split at hrun
      · cases hrun
        rcases Std.ExtTreeSet.mem_insert.1 hp with heq | hmem
        · exact .inr (Std.LawfulEqCmp.eq_of_compare heq).symm
        · exact .inl hmem
      · cases hrun
        exact .inl hp

theorem complete_of_waive {op : OpId} {o : Op} {index : Nat} {p : OpId}
    (hp : p ∈ (l.waive op o index).2.complete) : p ∈ l.complete ∨ p = op := by
  unfold waive at hp
  split at hp
  · exact .inl hp
  · simp only at hp
    split at hp
    · split at hp
      · exact .inl (Std.ExtTreeSet.mem_erase.1 hp).2
      · exact .inl hp
    · split at hp
      · rcases Std.ExtTreeSet.mem_insert.1 hp with heq | hmem
        · exact .inr (Std.LawfulEqCmp.eq_of_compare heq).symm
        · exact .inl hmem
      · exact .inl hp

end OutputGradients

/-! ## Section 5: Growth -/

/-- What holds while the backward graph of `g` grows from `ops`.  `pending` lists
    the complete tensors that have been taken out of the ledger. -/
structure Backward.InPhase (g : Graph) (ops : List OpId) (phases : Nat)
    (pending : List (TensorId × List TensorId)) (b : Backward) : Prop where
  wellWired : b.graph.WellWired
  includes : g.Includes b.graph
  rising : b.graph.Rising
  arrives : ∀ t x, b.partials.Holds t x ∨ (∃ xs, (t, xs) ∈ pending ∧ x ∈ xs) →
    g.Arrives ops phases b.graph t x
  onTime : ∀ t d : TensorId, b.gradOf[t]? = some d → g.OnTime phases b.graph t d
  complete : ∀ op ∈ b.outputs.complete, op ∈ ops

namespace Backward.InPhase

variable {g : Graph} {ops : List OpId} {phases : Nat}
  {pending : List (TensorId × List TensorId)} {b b' : Backward}

/-- **One step** has to answer for what is new only. -/
theorem step (h : b.InPhase g ops phases pending) (hw : b'.graph.WellWired)
    (hinc : b.graph.Includes b'.graph) (hrising : b'.graph.Rising)
    (harrives : ∀ t x, b'.partials.Holds t x →
      b.partials.Holds t x ∨ g.Arrives ops phases b'.graph t x)
    (honTime : ∀ t d : TensorId, b'.gradOf[t]? = some d →
      b.gradOf[t]? = some d ∨ g.OnTime phases b'.graph t d)
    (hcomplete : ∀ op ∈ b'.outputs.complete, op ∈ b.outputs.complete ∨ op ∈ ops) :
    b'.InPhase g ops phases pending where
  wellWired := hw
  includes := h.includes.trans hinc
  rising := hrising
  arrives t x hx := by
    rcases hx with hheld | hpending
    · rcases harrives t x hheld with hold | hnew
      · exact (h.arrives t x (.inl hold)).mono h.wellWired hinc
      · exact hnew
    · exact (h.arrives t x (.inr hpending)).mono h.wellWired hinc
  onTime t d hd := by
    rcases honTime t d hd with hold | hnew
    · exact (h.onTime t d hold).mono h.wellWired hinc
    · exact hnew
  complete op hop := by
    rcases hcomplete op hop with hold | hnew
    · exact h.complete op hold
    · exact hnew

/-- A step that leaves the graph and the gradients alone. -/
theorem update (h : b.InPhase g ops phases pending) {partials : PartialGradients}
    {outputs : OutputGradients} (harrives : ∀ t x, partials.Holds t x → b.partials.Holds t x)
    (hcomplete : ∀ op ∈ outputs.complete, op ∈ b.outputs.complete ∨ op ∈ ops) :
    Backward.InPhase g ops phases pending { b with partials := partials, outputs := outputs } :=
  h.step h.wellWired (.refl _) h.rising (fun t x hx => .inl (harrives t x hx))
    (fun _ _ hd => .inl hd) hcomplete

end Backward.InPhase

namespace Growth

open Dataflow.Graph

variable {g : Graph} {ops : List OpId} {options : GradientOptions}
  {pending : List (TensorId × List TensorId)} {b b' : Backward}

theorem holds_of_deliveries {forward : OpId} {targets : List (Nat × Nat × TensorId)}
    {l l' : PartialGradients} {t x : TensorId} {u : Unit}
    (hrun : deliveries forward targets l = .ok u l') (h : l'.Holds t x) :
    l.Holds t x ∨ ∃ target ∈ targets, t = target.2.2 ∧
      x = Naming.edgeGrad target.2.2 forward target.2.1 := by
  have hall : ∀ t x, l'.Holds t x → l.Holds t x ∨ ∃ target ∈ targets, t = target.2.2 ∧
      x = Naming.edgeGrad target.2.2 forward target.2.1 := by
    refine forM_ok (P := fun m => ∀ t x, PartialGradients.Holds m t x → l.Holds t x ∨
      ∃ target ∈ targets, t = target.2.2 ∧ x = Naming.edgeGrad target.2.2 forward target.2.1)
      hrun (fun _ _ hm => .inl hm) ?_
    intro target htarget _ m m' hm hinsert t x hx
    rcases PartialGradients.holds_of_insert hinsert hx with hold | hnew
    · exact hm t x hold
    · exact .inr ⟨target, htarget, hnew⟩
  exact hall t x h

/-- What a gradient op reads is there by the mirrored phase of its op. -/
theorem wiring_onTime {phases : Nat} (h : b.InPhase g ops phases pending)
    (hcount : IsPhaseCount phases) (hf : g.ForwardPhases phases) (hg : g.WellWired)
    {forward : OpId} {x : Op} (hx : g.op? forward = some x) {w : GradWire} {t : TensorId}
    (hsource : sourceOf? b.gradOf x w = some t) {p : OpId} (hp : b.graph.producer? t = some p) :
    b.graph.phaseOf p ≤ g.latePhase phases forward := by
  have hx' : b.graph.op? forward = some x := by
    rw [h.includes.op forward (by simp [hx]), hx]
  have hforward : b.graph.phaseOf forward = g.phaseOf forward :=
    h.includes.phaseOf (by simp [hx])
  have hlate := hf.le_latePhase hcount forward
  unfold sourceOf? at hsource
  cases hw : w.source with
  | input =>
    -- an input of the op, which comes no later than the op
    simp only [hw] at hsource
    have hrises := h.rising.rises p forward
      ⟨w.index, t, by rw [inputAt_eq hx']; exact hsource, hp⟩
    omega
  | output =>
    -- an output of the op, which is produced in the phase of the op
    simp only [hw] at hsource
    have hproducer : b.graph.producer? t = some forward :=
      (h.wellWired.produces t forward).2 ⟨w.index, by rw [outputAt_eq hx']; exact hsource⟩
    rw [hproducer] at hp
    cases hp
    omega
  | outputGrad =>
    simp only [hw, Option.bind_eq_some_iff] at hsource
    obtain ⟨u, hu, hd⟩ := hsource
    have hproducer : g.producer? u = some forward :=
      (hg.produces u forward).2 ⟨w.index, by rw [outputAt_eq hx]; exact hu⟩
    exact (h.onTime u t hd).2 forward p hproducer hp

/-- **One gradient op** is in the mirrored phase of its op, and so are the
    partial gradients that it delivers. -/
theorem growGradOp_inPhase (h : b.InPhase g ops options.phases pending)
    (hcount : IsPhaseCount options.phases) (hf : g.ForwardPhases options.phases)
    (hg : g.WellWired) {forward : OpId} (hforward : forward ∈ ops) {x : Op}
    (hx : g.op? forward = some x) {label : String} {spec : GradSpec Operator} {u : Unit}
    (hrun : growGradOp options forward label spec x.settings.phase? b = .ok u b') :
    b'.InPhase g ops options.phases pending := by
  have hw := (keptByEdits_wellWired.growGradOp options forward label spec _).ok h.wellWired hrun
  obtain ⟨o, inputs, targets, g₁, l, ho, hinputs, htargets, hgrown, hl, rfl⟩ :=
    growGradOp_eq_ok hrun
  have hself : o = x := by
    rw [h.includes.op forward (by simp [hx]), hx] at ho
    exact (Option.some.inj ho).symm
  subst hself
  -- the phase of the new op
  have hphase : (gradOp options forward o.settings.phase? spec inputs
      targets).settings.phase?.getD (-1) = g.latePhase options.phases forward := by
    unfold latePhase Graph.phase?
    rw [hx]
    rfl
  have hlate := hf.le_latePhase hcount forward
  have hlow := hf.rising.low forward
  refine h.step hw (hgrown.includes h.wellWired) ?_ ?_ (fun _ _ hd => .inl hd)
    (fun _ hop => .inl hop)
  · refine h.rising.grown h.wellWired hgrown (by omega) fun i t p hi hp => ?_
    rw [hphase]
    -- every wire has the source that its description says
    rcases Ports.get?_insertAll hi with hnone | hmem
    · simp at hnone
    · obtain ⟨w, -, hw⟩ := forall₂_mem_right (mapM_eq_ok hinputs) hmem
      split at hw
      · rename_i tensor htensor
        cases hw
        exact wiring_onTime h hcount hf hg hx htensor hp
      · cases hw
  · -- what is delivered comes from the new op, along an input of the old one
    intro t y hy
    rcases holds_of_deliveries hl hy with hold | ⟨target, htarget, rfl, rfl⟩
    · exact .inl hold
    · obtain ⟨pair, -, -, -, hread⟩ := forall₂_mem_right (targetTensors_eq_ok htargets) htarget
      have hmade : (gradOp options forward o.settings.phase? spec inputs
          targets).outputs.get? target.1 =
            some (Naming.edgeGrad target.2.2 forward target.2.1) :=
        (Ports.get?_insertAll_empty (nodup_edgeOutputs htargets forward)).2
          (List.mem_map_of_mem htarget)
      refine .inr ⟨forward, hforward, pair.2, b.graph.nextOp, by rw [inputAt_eq hx]; exact hread,
        hgrown.producer?_new hmade, ?_⟩
      exact Int.le_of_eq (by rw [hgrown.phaseOf, if_pos rfl, hphase])

theorem growGradOps_inPhase (h : b.InPhase g ops options.phases pending)
    (hcount : IsPhaseCount options.phases) (hf : g.ForwardPhases options.phases)
    (hg : g.WellWired) {forward : OpId} (hforward : forward ∈ ops)
    (hexists : (g.op? forward).isSome) {u : Unit}
    (hrun : growGradOps options forward b = .ok u b') :
    b'.InPhase g ops options.phases pending := by
  obtain ⟨o, specs, b₁, o', l, ho, -, -, -, hspecs, -, hwaive, rfl⟩ := growGradOps_eq_ok hrun
  have hx : g.op? forward = some o := by rw [← h.includes.op forward hexists, ho]
  have h₁ : b₁.InPhase g ops options.phases pending :=
    forM_ok hspecs h fun _ _ _ _ _ ht hy => growGradOp_inPhase ht hcount hf hg hforward hx hy
  exact h₁.update (fun _ _ => PartialGradients.holds_of_waives hwaive) fun _ hop => .inl hop

theorem tellProducer_inPhase (h : b.InPhase g ops options.phases pending) {tensor : TensorId}
    {u : Unit} (hrun : tellProducer ops tensor b = .ok u b') :
    b'.InPhase g ops options.phases pending := by
  rcases tellProducer_eq_ok h.wellWired hrun with ⟨rfl, -⟩ | ⟨op, o, index, l, hs, hl, rfl⟩
  · exact h
  · refine h.update (fun _ _ hy => hy) fun p hp => ?_
    rcases OutputGradients.complete_of_insert hl hp with hold | rfl
    · exact .inl hold
    · exact .inr hs.mem

theorem giveUpProducer_inPhase (h : b.InPhase g ops options.phases pending) {tensor : TensorId}
    {u : Unit} (hrun : giveUpProducer ops tensor b = .ok u b') :
    b'.InPhase g ops options.phases pending := by
  rcases giveUpProducer_eq_ok h.wellWired hrun with
    ⟨rfl, -⟩ | ⟨op, o, index, given, l, ps, hs, hwaive, hps, rfl⟩
  · exact h
  · refine h.update (fun t x hx => ?_) fun p hp => ?_
    · split at hps
      · exact PartialGradients.holds_of_waives hps hx
      · cases hps
        exact hx
    · have hl : l = (b.outputs.waive op o index).2 := by rw [hwaive]
      rw [hl] at hp
      rcases OutputGradients.complete_of_waive hp with hold | rfl
      · exact .inl hold
      · exact .inr hs.mem

/-- The latest of some phases, -1 standing for none. -/
theorem le_latest {phases : List Int} (hlow : ∀ p ∈ phases, -1 ≤ p) :
    -1 ≤ phases.max?.getD (-1) ∧ ∀ p ∈ phases, p ≤ phases.max?.getD (-1) := by
  cases hmax : phases.max? with
  | none =>
    rw [List.max?_eq_none_iff] at hmax
    subst hmax
    exact ⟨Int.le_refl _, nofun⟩
  | some m =>
    obtain ⟨hmem, hle⟩ := List.max?_eq_some_iff.1 hmax
    exact ⟨hlow m hmem, hle⟩

/-- **One sum** comes no earlier than the partial gradients, and by the mirrored
    phase of the op that produces the tensor. -/
theorem growSum_inPhase (h : b.InPhase g ops options.phases pending)
    (hcount : IsPhaseCount options.phases) (hf : g.ForwardPhases options.phases)
    (hstart : g.PhasedFromStart ops) {tensor total : TensorId} {partials : List TensorId}
    (hpending : (tensor, partials) ∈ pending)
    (hrun : growSum tensor partials b = .ok total b') :
    b'.InPhase g ops options.phases pending := by
  have hw := (keptByEdits_wellWired.growSum tensor partials).ok h.wellWired hrun
  obtain ⟨rfl, phase?, g₁, hphase?, hgrown, rfl⟩ := growSum_eq_ok hrun
  -- the phases that the sum is the latest of
  have hmem : ∀ p ∈ (byName partials).filterMap (phaseOf? b.graph), ∃ x s, x ∈ partials ∧
      b.graph.producer? x = some s ∧ b.graph.phaseOf s = p := by
    intro p hp
    obtain ⟨x, hx, hxp⟩ := List.mem_filterMap.1 hp
    unfold phaseOf? at hxp
    obtain ⟨o, ho, hop⟩ := Option.bind_eq_some_iff.1 hxp
    obtain ⟨s, hs, hso⟩ := Option.bind_eq_some_iff.1 ho
    exact ⟨x, s, mem_byName.1 hx, hs, by simp [Graph.phaseOf, hso, hop]⟩
  have hlatest := le_latest fun p hp => by
    obtain ⟨x, s, -, -, rfl⟩ := hmem p hp
    exact h.rising.low s
  rw [← hphase?] at hlatest
  obtain ⟨hlow, hle⟩ := hlatest
  refine h.step hw (hgrown.includes h.wellWired) ?_ (fun _ _ hy => .inl hy) ?_
    (fun _ hop => .inl hop)
  · refine h.rising.grown h.wellWired hgrown hlow fun i t p hi hp => ?_
    show b.graph.phaseOf p ≤ phase?.getD (-1)
    rcases Ports.get?_insertAll hi with hnone | hmem
    · simp at hnone
    · obtain ⟨⟨x, j⟩, hzip, hswap⟩ := List.mem_map.1 hmem
      cases hswap
      have hx : x ∈ byName partials := List.mem_of_getElem? (List.mem_zipIdx_iff_getElem?.1 hzip)
      show (b.graph.phase? p).getD (-1) ≤ _
      cases hphase : b.graph.phase? p with
      | none => exact hlow
      | some q =>
        refine hle q (List.mem_filterMap.2 ⟨x, hx, ?_⟩)
        unfold phaseOf?
        rw [hp]
        exact hphase
  · intro t d hd
    simp only [Std.ExtTreeMap.getElem?_insert] at hd
    split at hd
    · rename_i heq
      cases hd
      rw [← Std.LawfulEqCmp.eq_of_compare heq]
      have hmade : (sumOp tensor partials phase?).outputs.get? 0 = some (Naming.grad tensor) := by
        simp [sumOp, Ports.get?_insert]
      obtain ⟨-, type, hx⟩ := hgrown.made 0 _ hmade
      refine .inr ⟨by simp [hx], fun p s hp hs => ?_⟩
      have hs' : s = b.graph.nextOp := Option.some.inj
        (hs.symm.trans (hgrown.producer?_new hmade))
      show g₁.phaseOf s ≤ _
      rw [hgrown.phaseOf, if_pos hs']
      show phase?.getD (-1) ≤ _
      -- the latest phase is that of one partial gradient, which came from a reader
      cases hlast : phase? with
      | none =>
        have hlate := hf.le_latePhase hcount p
        have hlow := hf.rising.low p
        simp only [Option.getD_none]
        omega
      | some m =>
        rw [hlast] at hphase?
        obtain ⟨x, s', hx, hs', rfl⟩ := hmem m (List.max?_eq_some_iff.1 hphase?.symm).1
        obtain ⟨q, hq, i, s'', hi, hs'', hlate⟩ := h.arrives tensor x (.inr ⟨partials, hpending, hx⟩)
        rw [hs'] at hs''
        cases hs''
        have hmirror := hf.latePhase_le hcount hstart hq ⟨i, tensor, hi, hp⟩
        simp only [Option.getD_some]
        omega
    · exact .inl hd

theorem growGradient_inPhase (h : b.InPhase g ops options.phases pending)
    (hcount : IsPhaseCount options.phases) (hf : g.ForwardPhases options.phases)
    (hstart : g.PhasedFromStart ops) {tensor : TensorId} {partials : List TensorId}
    (hpending : (tensor, partials) ∈ pending) {u : Unit}
    (hrun : growGradient options ops tensor partials b = .ok u b') :
    b'.InPhase g ops options.phases pending := by
  obtain ⟨t, -, hcases⟩ := growGradient_eq_ok hrun
  rcases hcases with ⟨-, hgive⟩ | ⟨-, -, rfl⟩ | ⟨-, -, total, b₁, hsum, hrest⟩
  · exact giveUpProducer_inPhase h hgive
  · exact h
  · have h₁ := growSum_inPhase h hcount hf hstart hpending hsum
    split at hrest
    · subst hrest
      exact h₁.step h₁.wellWired (.refl _) h₁.rising (fun _ _ hx => .inl hx) (fun _ _ hd => .inl hd)
        (fun _ hop => .inl hop)
    · exact tellProducer_inPhase h₁ hrest

/-- **A whole run** of growth stays in phase. -/
theorem propagate_inPhase (hops : ∀ op ∈ ops, (g.op? op).isSome)
    (hcount : IsPhaseCount options.phases) (hf : g.ForwardPhases options.phases)
    (hstart : g.PhasedFromStart ops) (hg : g.WellWired) {rounds : Nat} {u : Unit}
    (h : b.InPhase g ops options.phases [])
    (hrun : propagate options ops rounds b = .ok u b') :
    b'.InPhase g ops options.phases [] := by
  induction rounds generalizing b with
  | zero =>
    obtain ⟨-, rfl⟩ := pure_eq_ok.1 hrun
    exact h
  | succ rounds ih =>
    -- the complete tensors move from the ledger to the list of pending ones
    have h₁ : b.cleared.InPhase g ops options.phases b.round.arrivals := by
      refine ⟨h.wellWired, h.includes, h.rising, fun t x hx => ?_, h.onTime, fun op hop => ?_⟩
      · rcases hx with hheld | ⟨xs, hxs, hmem⟩
        · exact h.arrives t x (.inl (PartialGradients.holds_of_takeComplete.1 hheld))
        · exact h.arrives t x (.inl (PartialGradients.holds_of_takeComplete.2 xs hxs hmem))
      · simp [Backward.cleared, OutputGradients.takeComplete] at hop
    have hforget : ∀ {c : Backward}, c.InPhase g ops options.phases b.round.arrivals →
        c.InPhase g ops options.phases [] := fun hc =>
      ⟨hc.wellWired, hc.includes, hc.rising, fun t x hx => hc.arrives t x (.inl (by simpa using hx)),
        hc.onTime, hc.complete⟩
    rcases propagate_succ_eq_ok hrun with ⟨-, -, rfl⟩ | ⟨-, b₂, b₃, hgrow, htensors, hrest⟩
    · exact hforget h₁
    · have h₂ : b₂.InPhase g ops options.phases b.round.arrivals := by
        refine forM_ok hgrow h₁ fun op hop _ _ _ ht hy => ?_
        have hmem := h.complete op (Std.ExtTreeSet.mem_toList.1 hop)
        exact growGradOps_inPhase ht hcount hf hg hmem (hops op hmem) hy
      have h₃ : b₃.InPhase g ops options.phases b.round.arrivals :=
        forM_ok htensors h₂ fun _ hy _ _ _ ht hx =>
          growGradient_inPhase ht hcount hf hstart hy hx
      exact ih (hforget h₃) hrest

theorem seed_inPhase (h : b.InPhase g ops options.phases []) {loss : TensorId} {type : TensorType}
    {u : Unit} (hrun : seed loss type ops b = .ok u b') : b'.InPhase g ops options.phases [] := by
  obtain ⟨g₁, hadd, htell⟩ := seed_eq_ok hrun
  have hw := (Edit.addInitialised_wellWired _ _ _ _).ok h.wellWired hadd
  obtain ⟨rfl, hnew⟩ := Edit.addInitialised_eq_ok hadd
  -- the seed has no producer, so it feeds nothing and nothing is late
  have hproducer : ∀ t p, (b.graph.insertTensor (Naming.grad loss)
      { kind := .const, type? := some type, data? := some (Payload.one type.element) }).producer? t
        = some p → b.graph.producer? t = some p ∧ t ≠ Naming.grad loss := by
    intro t p hp
    unfold producer? at hp
    rw [tensor?_insertTensor] at hp
    split at hp
    · cases hp
    · rename_i hne
      exact ⟨hp, hne⟩
  refine tellProducer_inPhase (b := { b with
    graph := b.graph.insertTensor (Naming.grad loss)
      { kind := .const, type? := some type, data? := some (Payload.one type.element) }
    gradOf := b.gradOf.insert loss (Naming.grad loss) }) ?_ htell
  refine h.step hw (includes_insertTensor hnew) ⟨h.rising.low, ?_⟩ (fun _ _ hx => .inl hx) ?_
    (fun _ hop => .inl hop)
  · intro u v hfeeds
    obtain ⟨i, t, hi, hp⟩ := hfeeds
    exact h.rising.rises u v ⟨i, t, hi, (hproducer t u hp).1⟩
  · intro t d hd
    simp only [Std.ExtTreeMap.getElem?_insert] at hd
    split at hd
    · cases hd
      exact .inr ⟨by simp, fun p s _ hs => absurd rfl (hproducer _ s hs).2⟩
    · exact .inl hd

end Growth

/-! ## Section 6: Differentiation -/

/-- Among the ops with a data path to the loss, what an op with a phase reads
    comes from ops with a phase. -/
def Graph.PhasedToward (g : Graph) (loss : TensorId) : Prop :=
  ∀ p u v, g.producer? loss = some p → Relation.ReflTransGen g.Feeds v p → g.Feeds u v →
    (g.phase? v).isSome → (g.phase? u).isSome

/-- **Differentiation keeps the phases rising**, if no op without a phase feeds
    one that has a phase on the way to the loss. -/
theorem Graph.ForwardPhases.differentiate {g g' : Graph} {options : GradientOptions}
    {report : GradientReport} (hf : g.ForwardPhases options.phases) (hg : g.WellWired)
    (hcount : IsPhaseCount options.phases) (htoward : g.PhasedToward options.loss)
    (hrun : Graph.differentiate options g = .ok report g') : g'.Rising := by
  obtain ⟨type, producer, ops, b₁, b, hloss, rfl, hseed, hpropagate, -, rfl⟩ :=
    Graph.differentiate_eq_ok hrun
  have hproducer := (Graph.lossProducer_eq_ok hloss).1
  obtain ⟨x, hx⟩ := hg.producer_exists hproducer
  have hops : ∀ op ∈ g.opsToward producer, (g.op? op).isSome := by
    intro op hop
    exact hg.opsToward_exist (by simp [hx]) hop
  have hstart : g.PhasedFromStart (g.opsToward producer) := by
    intro u v hv hfeeds hphase
    exact htoward producer u v hproducer ((hg.mem_opsToward (by simp [hx])).1 hv) hfeeds hphase
  -- at first the ledgers hold nothing
  have h₀ : (Backward.start g options.loss (g.opsToward producer)).InPhase g
      (g.opsToward producer) options.phases [] := by
    refine ⟨hg, .refl g, hf.rising, fun t x hx => ?_, fun t d hd => ?_, fun op hop => ?_⟩
    · rcases hx with (harrived | ⟨xs, hxs, -⟩) | ⟨xs, hxs, -⟩
      · simp [Backward.start, PartialGradients.arrived] at harrived
      · simp [Backward.start] at hxs
      · cases hxs
    · simp [Backward.start] at hd
    · obtain ⟨required, heq, -⟩ := Backward.requireAll_eq g options.loss _ hops {}
      have hcomplete : (Backward.start g options.loss (g.opsToward producer)).outputs =
          { required := required } := heq
      rw [hcomplete] at hop
      simp at hop
  exact (Growth.propagate_inPhase hops hcount hf hstart hg (Growth.seed_inPhase h₀ hseed)
    hpropagate).rising

/-- **Backward growth keeps a model schedulable by phases.**  The phases of the
    graph of a model are among the forward ones and rise along the data, and on
    the way to the loss what an op with a phase reads comes from ops with a
    phase.  Then the graph with its backward half can be scheduled, whatever
    the options of the scheduler are. -/
theorem Model.isSchedulable_of_differentiate {m : Model} {catalogue : Catalogue} {g g' : Graph}
    (hbuild : m.build catalogue = .ok g) {options : GradientOptions} {report : GradientReport}
    (hcount : Graph.IsPhaseCount options.phases) (hf : g.ForwardPhases options.phases)
    (htoward : g.PhasedToward options.loss)
    (hrun : Graph.differentiate options g = .ok report g') (schedule : ScheduleOptions) :
    g'.isSchedulable ∅ schedule = true := by
  obtain ⟨hlayered, -⟩ := Model.build_layered hbuild
  obtain ⟨hlayered', -⟩ := hlayered.differentiate hrun
  have hrising := hf.differentiate hlayered.wellWired hcount htoward hrun
  rw [hlayered'.wellWired.isSchedulable_iff g'.names_empty fun _ op _ => hrising.low op]
  exact hlayered'.acyclic_of_rising hrising schedule

/-- Two ops in two phases, the second one of which is the loss. -/
def twoPhases : Model where
  inputs := [⟨"x", .f32, [2]⟩]
  initials := [{ id := "w", kind := .var, element := .f32, shape := [2] }]
  nodes := [
    { opType := "Mul", inputs := ["x", "w"], outputs := ["y"], phase? := some 0 },
    { opType := "L1", inputs := ["y"], outputs := ["loss"], phase? := some 1 }]

theorem twoPhases_schedulable : ∃ g report g', twoPhases.build .builtin = .ok g ∧
    Graph.differentiate { loss := "loss", phases := 2 } g = .ok report g' ∧
    g'.isSchedulable ∅ { phases := 2 } = true := by
  have hok : (twoPhases.build .builtin).isOk = true := by decide +kernel
  have hall : ∀ g ∈ (twoPhases.build .builtin).toOption, g.ForwardPhases 2 ∧
      (∀ op ∈ g.opIds, (g.phase? op).isSome) ∧
      (match Graph.differentiate { loss := "loss", phases := 2 } g with
      | .ok _ _ => true
      | .error _ _ => false) = true := by
    decide +kernel
  obtain ⟨g, hg⟩ := except_isOk_iff.1 hok
  obtain ⟨hf, hset, hrun⟩ := hall g (by rw [hg]; rfl)
  cases hdiff : Graph.differentiate { loss := "loss", phases := 2 } g with
  | error e g' =>
    rw [hdiff] at hrun
    cases hrun
  | ok report g' =>
    refine ⟨g, report, g', hg, hdiff, ?_⟩
    have hwired := (Model.build_layered hg).1.wellWired
    refine Model.isSchedulable_of_differentiate hg (by decide) hf ?_ hdiff _
    intro p u v _ _ hfeeds _
    obtain ⟨i, t, -, hp⟩ := hfeeds
    obtain ⟨x, hx⟩ := hwired.producer_exists hp
    exact hset u (Graph.mem_opIds.2 (by simp [hx]))

/-- Only the loss has a phase. -/
def lateLoss : Model where
  initials := [{ id := "w", kind := .var, element := .f32, shape := [2] }]
  nodes := [
    { opType := "Identity", inputs := ["w"], outputs := ["y"] },
    { opType := "L1", inputs := ["y"], outputs := ["loss"], phase? := some 1 }]

/-- The gradient op of the op without a phase has none either, so it would run
    first; but it reads the gradient that comes out of the mirrored phase of the
    loss. -/
theorem lateLoss_unschedulable : ∃ g report g', lateLoss.build .builtin = .ok g ∧
    g.ForwardPhases 2 ∧ Graph.differentiate { loss := "loss", phases := 2 } g = .ok report g' ∧
    g'.isSchedulable ∅ { phases := 2 } = false := by
  have hok : (lateLoss.build .builtin).isOk = true := by decide +kernel
  have hall : ∀ g ∈ (lateLoss.build .builtin).toOption, g.ForwardPhases 2 ∧
      (match Graph.differentiate { loss := "loss", phases := 2 } g with
      | .ok _ g' => !g'.isSchedulable ∅ { phases := 2 }
      | .error _ _ => false) = true := by
    decide +kernel
  obtain ⟨g, hg⟩ := except_isOk_iff.1 hok
  obtain ⟨hf, hrun⟩ := hall g (by rw [hg]; rfl)
  cases hdiff : Graph.differentiate { loss := "loss", phases := 2 } g with
  | error e g' =>
    rw [hdiff] at hrun
    cases hrun
  | ok report g' =>
    rw [hdiff] at hrun
    exact ⟨g, report, g', hg, hf, hdiff, by simpa using hrun⟩

end Dataflow
