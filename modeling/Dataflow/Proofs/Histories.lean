import Mathlib.Data.List.Nodup
import Dataflow.Proofs.Activity
import Dataflow.Proofs.Passes

/-! # Histories of differentiation

    What differentiation grows is described piece by piece: gradient ops by
    the descriptions that their op asked for, sums by the partial gradients
    they add up.

    A `History` lists what has happened so far.  It is sound if every event in
    it had a reason, and there are three kinds of steps that it makes: a
    request (`Sound.request`), a tensor at which nothing arrives
    (`Sound.giveUp`) and a tensor whose gradient is complete
    (`Sound.complete`). -/

namespace Dataflow

open Dataflow.Graph

/-! ## Section 1: The ops that are grown -/

/-- The tensor that a wire of a gradient op of `x` reads. -/
def Op.source? (x : Op) (w : GradWire) : Option TensorId :=
  match w.source with
  | .input => x.inputs.get? w.index
  | .output => x.outputs.get? w.index
  | .outputGrad => (x.outputs.get? w.index).map Naming.grad

/-- `o` is the gradient op that `spec` describes for op number `forward`, which
    is wired as `x` is. -/
structure IsGradOp (x : Op) (forward : OpId) (spec : GradSpec Operator) (o : Op) : Prop where
  operator : o.operator = spec.operator
  origin : o.origin? = some ⟨forward, spec.wires, spec.targets⟩
  inputs : ∀ slot t, o.inputs.get? slot = some t ↔
    ∃ w ∈ spec.wires, w.slot = slot ∧ x.source? w = some t
  outputs : ∀ i t, o.outputs.get? i = some t ↔
    ∃ index u, spec.targets[i]? = some index ∧ x.inputs.get? index = some u ∧
      t = Naming.edgeGrad u forward index
  settled : o.isSettled

/-- `o` sums `partials` into the gradient of `t`. -/
structure IsGradSum (t : TensorId) (partials : List TensorId) (o : Op) : Prop where
  operator : o.operator = Builtin.sum.operator
  name : o.settings.name = s!"GradSum:{t}"
  origin : o.origin? = none
  inputs : ∀ i, o.inputs.get? i = partials[i]?
  outputs : ∀ i u, o.outputs.get? i = some u ↔ i = 0 ∧ u = Naming.grad t
  settled : o.isSettled

namespace Growth

theorem slots_nodup {wires : List GradWire} {seen : List Nat}
    (h : repeatedSlot? wires seen = none) :
    (wires.map GradWire.slot).Nodup ∧ ∀ w ∈ wires, w.slot ∉ seen := by
  induction wires generalizing seen with
  | nil => exact ⟨List.nodup_nil, nofun⟩
  | cons w rest ih =>
    unfold repeatedSlot? at h
    split at h
    · cases h
    · rename_i hw
      obtain ⟨hnodup, hnew⟩ := ih h
      refine ⟨List.nodup_cons.2 ⟨fun hmem => ?_, hnodup⟩, fun v hv => ?_⟩
      · obtain ⟨v, hv, hslot⟩ := List.mem_map.1 hmem
        exact hnew v hv (by simp [hslot])
      · rcases List.mem_cons.1 hv with rfl | hv
        · simpa using hw
        · exact fun hseen => hnew v hv (List.mem_cons_of_mem _ hseen)

/-- Descriptions that pass the check wire each input once. -/
theorem checkSpecs_slots {label : String} {o : Op} {specs : List (GradSpec Operator)}
    {covered : List Nat} (h : checkSpecs label o specs covered = .ok ()) :
    ∀ spec ∈ specs, (spec.wires.map GradWire.slot).Nodup := by
  induction specs generalizing covered with
  | nil => nofun
  | cons spec rest ih =>
    obtain ⟨covered', -, hrest⟩ := except_bind_eq_ok.1 h
    split at hrest
    · cases hrest
    · rename_i hslots
      intro s hs
      rcases List.mem_cons.1 hs with rfl | hs
      · exact (slots_nodup hslots).1
      · exact ih hrest s hs

/-- Targets that pass the check are wired, and none of them is covered twice. -/
theorem checkTargets_eq_ok {label : String} {o : Op} {name : String} {pairs : List (Nat × Nat)}
    {covered covered' : List Nat} (h : checkTargets label o name pairs covered = .ok covered') :
    (∀ x ∈ pairs, (o.inputs.get? x.2).isSome) ∧ (pairs.map Prod.snd).Nodup ∧
      (∀ i ∈ pairs.map Prod.snd, i ∉ covered) ∧
      ∀ i, i ∈ covered' ↔ i ∈ pairs.map Prod.snd ∨ i ∈ covered := by
  induction pairs generalizing covered with
  | nil =>
    cases h
    exact ⟨nofun, List.nodup_nil, nofun, by simp⟩
  | cons x rest ih =>
    unfold checkTargets at h
    split at h
    · cases h
    · rename_i hwired
      split at h
      · cases h
      · rename_i hnew
        rw [List.contains_iff_mem] at hnew
        obtain ⟨hall, hnodup, hdisjoint, hmem⟩ := ih h
        have hx : (o.inputs.get? x.2).isSome := by
          have hindex : o.inputs.hasIndex x.2 = true := by simpa using hwired
          rwa [Ports.hasIndex, Std.ExtTreeMap.contains_eq_isSome_getElem?] at hindex
        refine ⟨?_, ?_, ?_, fun i => ?_⟩
        · intro y hy
          rcases List.mem_cons.1 hy with rfl | hy
          · exact hx
          · exact hall y hy
        · rw [List.map_cons, List.nodup_cons]
          exact ⟨fun hin => hdisjoint x.2 hin List.mem_cons_self, hnodup⟩
        · intro i hi
          rcases List.mem_cons.1 hi with rfl | hi
          · exact hnew
          · exact fun hin => hdisjoint i hi (List.mem_cons_of_mem _ hin)
        · rw [hmem, List.map_cons, List.mem_cons, List.mem_cons]
          tauto

/-- The inputs that the descriptions cover, one after the other. -/
def coveredInputs (specs : List (GradSpec Operator)) : List Nat :=
  specs.flatMap fun spec => spec.targets.toList.map Prod.snd

/-- Descriptions that pass the check cover wired inputs, each of them once. -/
theorem checkSpecs_targets {label : String} {o : Op} {specs : List (GradSpec Operator)}
    {covered : List Nat} (h : checkSpecs label o specs covered = .ok ()) :
    (∀ spec ∈ specs, ∀ x ∈ spec.targets.toList, (o.inputs.get? x.2).isSome) ∧
      (coveredInputs specs).Nodup ∧ ∀ i ∈ coveredInputs specs, i ∉ covered := by
  induction specs generalizing covered with
  | nil => exact ⟨nofun, List.nodup_nil, nofun⟩
  | cons spec rest ih =>
    obtain ⟨covered', hspec, hrest⟩ := except_bind_eq_ok.1 h
    obtain ⟨hwired, hnodup, hdisjoint, hmem⟩ := checkTargets_eq_ok hspec
    split at hrest
    · cases hrest
    · obtain ⟨hall, hnodup', hdisjoint'⟩ := ih hrest
      have hcons : coveredInputs (spec :: rest)
          = spec.targets.toList.map Prod.snd ++ coveredInputs rest := List.flatMap_cons
      rw [hcons]
      refine ⟨?_, ?_, ?_⟩
      · intro s hs
        rcases List.mem_cons.1 hs with rfl | hs
        · exact hwired
        · exact hall s hs
      · refine List.nodup_append.2 ⟨hnodup, hnodup', ?_⟩
        rintro i hi j hj rfl
        exact hdisjoint' i hj ((hmem i).2 (.inl hi))
      · intro i hi
        rcases List.mem_append.1 hi with hi | hi
        · exact hdisjoint i hi
        · exact fun hin => hdisjoint' i hi ((hmem i).2 (.inr hin))

/-- What a wire is found to read is what its description says, as soon as
    complete gradients have their proper names. -/
theorem source?_of_sourceOf? {gradOf : Std.ExtTreeMap TensorId TensorId} {x : Op} {w : GradWire}
    {t : TensorId} (hgrad : ∀ u d : TensorId, gradOf[u]? = some d → d = Naming.grad u)
    (h : sourceOf? gradOf x w = some t) : x.source? w = some t := by
  unfold sourceOf? at h
  unfold Op.source?
  cases hw : w.source with
  | input => simpa [hw] using h
  | output => simpa [hw] using h
  | outputGrad =>
    simp only [hw, Option.bind_eq_some_iff] at h
    obtain ⟨u, hu, hd⟩ := h
    simp [hu, hgrad u t hd]

theorem wiring_eq_ok {label : String} {x : Op} {spec : GradSpec Operator}
    {gradOf : Std.ExtTreeMap TensorId TensorId} {inputs : List (Nat × TensorId)}
    (hgrad : ∀ u d : TensorId, gradOf[u]? = some d → d = Naming.grad u)
    (h : wiring label x spec gradOf = .ok inputs) :
    List.Forall₂ (fun w y => y.1 = w.slot ∧ x.source? w = some y.2) spec.wires inputs := by
  refine (mapM_eq_ok h).imp fun w y hwy => ?_
  split at hwy
  · rename_i t ht
    cases hwy
    exact ⟨rfl, source?_of_sourceOf? hgrad ht⟩
  · cases hwy

/-- A gradient op has the wiring of its description. -/
theorem isGradOp_gradOp {options : GradientOptions} {forward : OpId} {phase? : Option Int}
    {label : String} {x : Op} {spec : GradSpec Operator}
    {gradOf : Std.ExtTreeMap TensorId TensorId} {inputs : List (Nat × TensorId)}
    {targets : List (Nat × Nat × TensorId)}
    (hslots : (spec.wires.map GradWire.slot).Nodup)
    (hgrad : ∀ u d : TensorId, gradOf[u]? = some d → d = Naming.grad u)
    (hinputs : wiring label x spec gradOf = .ok inputs)
    (htargets : targetTensors label x spec = .ok targets) :
    IsGradOp x forward spec (gradOp options forward phase? spec inputs targets) where
  operator := rfl
  origin := rfl
  inputs slot t := by
    have hall := wiring_eq_ok hgrad hinputs
    -- the wires are made in the order of the description, one for each
    have hfst : inputs.map Prod.fst = spec.wires.map GradWire.slot := by
      clear hslots hinputs htargets
      generalize spec.wires = wires at hall
      induction hall with
      | nil => rfl
      | cons hwy _ ih => rw [List.map_cons, List.map_cons, ih, hwy.1]
    show ((∅ : Ports).insertAll inputs).get? slot = some t ↔ _
    rw [Ports.get?_insertAll_empty (hfst ▸ hslots)]
    constructor
    · intro hmem
      obtain ⟨w, hw, hslot, hsource⟩ := forall₂_mem_right hall hmem
      exact ⟨w, hw, hslot.symm, hsource⟩
    · rintro ⟨w, hw, rfl, hsource⟩
      obtain ⟨⟨i, u⟩, hmem, rfl, hu⟩ := forall₂_mem_left hall hw
      rw [hsource] at hu
      cases hu
      exact hmem
  outputs i t := by
    have hall := targetTensors_eq_ok htargets
    show ((∅ : Ports).insertAll (edgeOutputs forward targets)).get? i = some t ↔ _
    rw [Ports.get?_insertAll_empty (nodup_edgeOutputs htargets forward)]
    unfold edgeOutputs
    rw [List.mem_map]
    constructor
    · rintro ⟨⟨j, index, u⟩, hmem, heq⟩
      cases heq
      obtain ⟨⟨j', index'⟩, hpair, rfl, rfl, hu⟩ := forall₂_mem_right hall hmem
      exact ⟨_, u, Std.ExtTreeMap.mem_toList_iff_getElem?_eq_some.1 hpair, hu, rfl⟩
    · rintro ⟨index, u, hpair, hu, rfl⟩
      obtain ⟨⟨j, index', u'⟩, hmem, rfl, rfl, hu'⟩ :=
        forall₂_mem_left hall (Std.ExtTreeMap.mem_toList_iff_getElem?_eq_some.2 hpair)
      rw [hu] at hu'
      cases hu'
      exact ⟨_, hmem, rfl⟩
  settled := rfl

/-- A sum has its inputs side by side, sorted by name. -/
theorem isGradSum_sumOp (t : TensorId) (partials : List TensorId) (phase? : Option Int) :
    IsGradSum t (Growth.byName partials) (sumOp t partials phase?) where
  operator := rfl
  name := rfl
  origin := rfl
  inputs i := by
    generalize hsorted : Growth.byName partials = sorted
    have hnodup : ((sorted.zipIdx.map Prod.swap).map Prod.fst).Nodup :=
      slots_zipIdx sorted ▸ List.nodup_range
    refine Option.ext fun u => ?_
    unfold sumOp
    rw [hsorted, Ports.get?_insertAll_empty hnodup]
    simp [List.mem_zipIdx_iff_getElem?]
  outputs i u := by
    unfold sumOp
    rw [Ports.get?_insertAll_empty (by simp)]
    simp
  settled := rfl

end Growth

/-! ## Section 2: The graph that has been grown so far -/

/-- One op that differentiation grows. -/
inductive Piece where
  /-- The gradient op of op number `forward` that `spec` describes. -/
  | gradient (forward : OpId) (spec : GradSpec Operator)
  /-- The sum of the partial gradients of `tensor`. -/
  | sum (tensor : TensorId) (partials : List TensorId)

namespace Piece

/-- The op that a gradient op belongs to. -/
def forward? : Piece → Option OpId
  | gradient forward _ => some forward
  | sum _ _ => none

/-- `o` is the op that the piece stands for, if `g` is differentiated. -/
def IsOp (g : Graph) (o : Op) : Piece → Prop
  | gradient forward spec => ∃ x, g.op? forward = some x ∧ IsGradOp x forward spec o
  | sum tensor partials => IsGradSum tensor (Growth.byName partials) o

end Piece

/-- All that is in `g` is still there, and only readers have joined. -/
structure Backward.Carries (g : Graph) (b : Backward) : Prop where
  wellWired : b.graph.WellWired
  later : g.nextOp ≤ b.graph.nextOp
  old : ∀ p < g.nextOp, b.graph.op? p = g.op? p
  tensor : ∀ t, (g.tensor? t).isSome →
    (b.graph.tensor? t).map Tensor.unread = (g.tensor? t).map Tensor.unread

/-- The pieces have been grown into `g`, one after the other, and nothing else
    has changed. -/
structure Backward.Extends (g : Graph) (pieces : List Piece) (b : Backward) : Prop
    extends Backward.Carries g b where
  nextOp : b.graph.nextOp = g.nextOp + pieces.length
  grown : b.grown = List.range' g.nextOp pieces.length
  new : List.Forall₂ (fun piece p => ∃ o, b.graph.op? p = some o ∧ piece.IsOp g o) pieces b.grown
  gradOf : ∀ t d : TensorId, b.gradOf[t]? = some d → d = Naming.grad t

namespace Backward.Carries

variable {g : Graph} {b b' : Backward}

/-- **One more op** changes nothing of what was there. -/
theorem grow (h : b.Carries g) {o : Op} (hgrown : Grown b.graph o b'.graph)
    (hwired : b'.graph.WellWired) : b'.Carries g where
  wellWired := hwired
  later := by
    rw [hgrown.nextOp]
    exact Nat.le_succ_of_le h.later
  old p hp := by
    have hne : p ≠ b.graph.nextOp := Nat.ne_of_lt (Nat.lt_of_lt_of_le hp h.later)
    rw [hgrown.op_old hne]
    exact h.old p hp
  tensor t ht := by
    have hkept := h.tensor t ht
    rw [← hkept]
    refine hgrown.kept t ?_
    obtain ⟨x, hx⟩ := Option.isSome_iff_exists.1 ht
    rw [hx] at hkept
    cases hb : b.graph.tensor? t with
    | none => simp [hb] at hkept
    | some y => rfl

/-- The ops of `g` are still what they were. -/
theorem op_old (h : b.Carries g) (hg : g.WellWired) {p : OpId} (hp : (g.op? p).isSome) :
    b.graph.op? p = g.op? p := h.old p (hg.fresh p hp)

theorem isSource (h : b.Carries g) (hg : g.WellWired) {ops : List OpId}
    (hops : ∀ op ∈ ops, (g.op? op).isSome) {t : TensorId} {op : OpId} {o : Op} {i : Nat}
    (hs : Growth.IsSourceOf b.graph ops t op o i) :
    op ∈ ops ∧ g.op? op = some o ∧ g.outputAt op i = some t := by
  have ho : g.op? op = some o := by rw [← h.op_old hg (hops op hs.mem)]; exact hs.op
  exact ⟨hs.mem, ho, by rw [outputAt_eq ho]; exact hs.output⟩

end Backward.Carries

namespace Backward.Extends

variable {g : Graph} {pieces : List Piece} {b b' : Backward}

/-- **One more op** that is described by one more piece. -/
theorem grow (h : b.Extends g pieces) {o : Op} {piece : Piece} (hgrown : Grown b.graph o b'.graph)
    (hwired : b'.graph.WellWired) (hpiece : piece.IsOp g o)
    (hlist : b'.grown = b.grown ++ [b.graph.nextOp])
    (hgradOf : ∀ t d : TensorId, b'.gradOf[t]? = some d → d = Naming.grad t) :
    b'.Extends g (pieces ++ [piece]) where
  toCarries := h.toCarries.grow hgrown hwired
  nextOp := by
    rw [hgrown.nextOp, h.nextOp, List.length_append, List.length_singleton]
    rfl
  grown := by
    rw [hlist, h.grown, h.nextOp, List.length_append, List.length_singleton,
      List.range'_concat, Nat.one_mul]
  new := by
    rw [hlist]
    refine List.rel_append (h.new.imp fun piece p hp => ?_) (.cons ⟨o, hgrown.op_new, hpiece⟩ .nil)
    obtain ⟨o', ho', hop⟩ := hp
    have hne : p ≠ b.graph.nextOp := by
      rintro rfl
      rw [h.wellWired.op?_nextOp] at ho'
      cases ho'
    exact ⟨o', by rwa [hgrown.op_old hne], hop⟩
  gradOf := hgradOf

end Backward.Extends

namespace Growth

variable {g : Graph} {pieces : List Piece} {b b' : Backward} {all delivered waived : List Reading}
  {taken : List TensorId}

/-- The readings along which the outputs of a gradient op are delivered. -/
def targetReadings (forward : OpId) (targets : List (Nat × Nat × TensorId)) : List Reading :=
  targets.map fun x => ⟨forward, x.2.1, x.2.2⟩

theorem deliveries_eq (forward : OpId) (targets : List (Nat × Nat × TensorId)) :
    deliveries forward targets = (targetReadings forward targets).forM fun r =>
      PartialGradients.insert r.tensor r.grad := by
  unfold deliveries targetReadings
  rw [List.forM_eq_forM, List.forM_eq_forM, List.forM_map]
  rfl

theorem mem_targetReadings {label : String} {x : Op} {spec : GradSpec Operator}
    {targets : List (Nat × Nat × TensorId)} (h : targetTensors label x spec = .ok targets)
    {forward : OpId} {r : Reading} :
    r ∈ targetReadings forward targets ↔ r.op = forward ∧
      x.inputs.get? r.index = some r.tensor ∧
      ∃ output : Nat, spec.targets[output]? = some r.index := by
  have hall := targetTensors_eq_ok h
  unfold targetReadings
  rw [List.mem_map]
  constructor
  · rintro ⟨⟨output, index, t⟩, hmem, rfl⟩
    obtain ⟨⟨output', index'⟩, hpair, rfl, rfl, ht⟩ := forall₂_mem_right hall hmem
    exact ⟨rfl, ht, _, Std.ExtTreeMap.mem_toList_iff_getElem?_eq_some.1 hpair⟩
  · rintro ⟨hop, hin, output, hpair⟩
    obtain ⟨y, hmem, -, hindex, ht⟩ :=
      forall₂_mem_left hall (Std.ExtTreeMap.mem_toList_iff_getElem?_eq_some.2 hpair)
    have htensor : r.tensor = y.2.2 := Option.some.inj (hin.symm.trans ht)
    exact ⟨y, hmem, by rw [← hop, hindex, ← htensor]⟩

/-- **All gradient ops of one op**: one piece for each description, and every
    input that one of them covers receives its partial gradient. -/
theorem forM_growGradOp {options : GradientOptions} {forward : OpId} {label : String}
    {specs : List (GradSpec Operator)} {phase? : Option Int} {x : Op} {u : Unit}
    (h : b.Extends g pieces) (hg : g.WellWired) (hx : g.op? forward = some x)
    (hslots : ∀ spec ∈ specs, (spec.wires.map GradWire.slot).Nodup)
    (htracks : b.partials.Tracks all delivered waived taken)
    (hrun : specs.forM (fun spec => growGradOp options forward label spec phase?) b = .ok u b') :
    ∃ rs, b'.Extends g (pieces ++ specs.map (.gradient forward)) ∧
      b'.partials.Tracks all (delivered ++ rs) waived taken ∧
      (∀ r, r ∈ rs ↔ r.op = forward ∧ x.inputs.get? r.index = some r.tensor ∧
        ∃ spec ∈ specs, ∃ output : Nat, spec.targets[output]? = some r.index) ∧
      b' = { b with graph := b'.graph, partials := b'.partials, grown := b'.grown } := by
  induction specs generalizing b pieces delivered with
  | nil =>
    obtain ⟨-, rfl⟩ := pure_eq_ok.1 hrun
    exact ⟨[], by simpa using h, by simpa using htracks, by simp, rfl⟩
  | cons spec rest ih =>
    obtain ⟨_, b₁, hspec, hrest⟩ := forM_cons_eq_ok.1 hrun
    have hwired : b₁.graph.WellWired :=
      (keptByEdits_wellWired.growGradOp _ _ _ _ _).ok h.wellWired hspec
    obtain ⟨o, inputs, targets, g₁, l, ho, hinputs, htargets, hgrown, hl, rfl⟩ :=
      growGradOp_eq_ok hspec
    rw [h.op_old hg (by simp [hx]), hx] at ho
    cases ho
    have hpiece : Piece.IsOp g (gradOp options forward phase? spec inputs targets)
        (.gradient forward spec) := ⟨x, hx,
      isGradOp_gradOp (hslots spec List.mem_cons_self) h.gradOf hinputs htargets⟩
    rw [deliveries_eq] at hl
    obtain ⟨rs, hext, htracks', hrs, hframe⟩ := ih
      (h.grow hgrown hwired hpiece rfl h.gradOf)
      (fun s hs => hslots s (List.mem_cons_of_mem spec hs)) (htracks.inserts hl) hrest
    refine ⟨targetReadings forward targets ++ rs, ?_, ?_, fun r => ?_, ?_⟩
    · rwa [List.map_cons, ← List.singleton_append, ← List.append_assoc]
    · rwa [← List.append_assoc]
    · rw [List.mem_append, mem_targetReadings htargets, hrs]
      simp only [List.exists_mem_cons_iff]
      tauto
    · rw [hframe]

/-- **A sum**: one piece more, and nothing else changes. -/
theorem growSum_extends {t total : TensorId} {partials : List TensorId} (h : b.Extends g pieces)
    (hrun : growSum t partials b = .ok total b') :
    total = Naming.grad t ∧ b'.Extends g (pieces ++ [.sum t partials]) ∧
      b'.partials = b.partials ∧ b'.outputs = b.outputs ∧ b'.gradients = b.gradients := by
  have hwired : b'.graph.WellWired := (keptByEdits_wellWired.growSum _ _).ok h.wellWired hrun
  obtain ⟨rfl, phase?, g', -, hgrown, rfl⟩ := growSum_eq_ok hrun
  refine ⟨rfl, h.grow hgrown hwired (isGradSum_sumOp t partials phase?) rfl ?_, rfl, rfl, rfl⟩
  intro s d hd
  by_cases hs : t = s
  · subst hs
    simpa using hd.symm
  · exact h.gradOf s d (by simpa [Std.ExtTreeMap.getElem?_insert, hs] using hd)

end Growth

/-! ## Section 3: Histories -/

/-- What has happened so far. -/
structure History where
  /-- The readings along which a partial gradient has been delivered. -/
  delivered : List Reading := []
  /-- The readings along which none will ever be. -/
  waived : List Reading := []
  /-- The outputs whose gradient is complete. -/
  told : List (OpId × Nat) := []
  /-- The outputs that will never have a gradient. -/
  struck : List (OpId × Nat) := []
  /-- The ops whose gradient ops have been grown. -/
  requested : List OpId := []
  /-- The ops that have been given up. -/
  retired : List OpId := []
  /-- The tensors of which nothing more is to come. -/
  settled : List TensorId := []
  /-- The ops that have been grown. -/
  pieces : List Piece := []

namespace History

/-- The names of the partial gradients of a tensor that have been delivered. -/
def arrivals (h : History) (t : TensorId) : List TensorId :=
  (readsOf h.delivered t).map Reading.grad

/-- What the ops are told of their outputs: of the loss, and of each tensor that
    has been dealt with, whether a gradient has come of it or not. -/
structure Reported (g : Graph) (loss : TensorId) (ops : List OpId) (h : History) : Prop where
  told : ∀ op i, (op, i) ∈ h.told ↔ op ∈ ops ∧ ∃ t, g.outputAt op i = some t ∧
    (t = loss ∨ t ∈ h.settled ∧ h.arrivals t ≠ [])
  struck : ∀ t ∈ h.settled, h.arrivals t = [] → ∀ op ∈ ops, ∀ i, g.outputAt op i = some t →
    (op, i) ∈ h.struck

/-- What holds of every history: each event is there if and only if there was
    a reason for it. -/
structure Sound (g : Graph) (options : GradientOptions) (ops : List OpId) (h : History) : Prop
    extends Reported g options.loss ops h where
  delivered : ∀ r, r ∈ h.delivered ↔
    r ∈ g.readings ops ∧ r.op ∈ h.requested ∧ g.Covers r.op r.index
  waived : ∀ r, r ∈ h.waived ↔ r ∈ g.readings ops ∧
    (r.op ∈ h.requested ∧ ¬ g.Covers r.op r.index ∨ r.op ∈ h.retired)
  active : ∀ op ∈ h.requested, g.HasActiveOutput options.loss op
  described : ∀ op ∈ h.requested, ∃ x, g.op? op = some x ∧
    x.operator.gradSpecs (g.view op x) = .ok (g.specsOf op)
  /-- The gradient ops are those of the requested ops, in order. -/
  gradOps : h.pieces.filter (·.forward?.isSome) =
    h.requested.flatMap fun op => (g.specsOf op).map (.gradient op)
  /-- The sums are those of the settled tensors that have partial gradients
      and are wanted. -/
  sums : ∀ t xs, .sum t xs ∈ h.pieces ↔
    t ∈ h.settled ∧ g.Wants options t ∧ h.arrivals t ≠ [] ∧ xs = h.arrivals t

variable {g : Graph} {options : GradientOptions} {loss : TensorId} {ops : List OpId}
  {h : History}

/-- In the beginning, only the gradient of the loss is known. -/
theorem Reported.start {output : OpId × Nat}
    (hloss : ∀ op i, (op, i) = output ↔ op ∈ ops ∧ g.outputAt op i = some loss) :
    Reported g loss ops { told := [output] } where
  told op i := by
    rw [List.mem_singleton, hloss]
    simp
  struck := nofun

/-- Nothing is reported when the gradient ops of an op are grown, as long as
    nothing arrives any more at tensors that have been dealt with. -/
theorem Reported.request (hr : h.Reported g loss ops) {h' : History} (htold : h'.told = h.told)
    (hstruck : h'.struck = h.struck) (hsettled : h'.settled = h.settled)
    (hfinal : ∀ t ∈ h.settled, h'.arrivals t = h.arrivals t) : h'.Reported g loss ops where
  told op i := by
    rw [htold, hsettled]
    refine (hr.told op i).trans (and_congr_right fun _ => exists_congr fun t =>
      and_congr_right fun _ => or_congr_right (and_congr_right fun ht => ?_))
    rw [hfinal t ht]
  struck t ht harrived := by
    rw [hsettled] at ht
    rw [hfinal t ht] at harrived
    rw [hstruck]
    exact hr.struck t ht harrived

/-- Nothing arrives at a tensor: the output it comes from is struck off. -/
theorem Reported.giveUp (hr : h.Reported g loss ops) {h' : History} {t : TensorId}
    (hnone : h.arrivals t = []) {struck : List (OpId × Nat)} (htold : h'.told = h.told)
    (hstruck : h'.struck = h.struck ++ struck) (hsettled : h'.settled = h.settled ++ [t])
    (harrivals : ∀ s, h'.arrivals s = h.arrivals s)
    (hout : ∀ op ∈ ops, ∀ i, g.outputAt op i = some t → (op, i) ∈ struck) :
    h'.Reported g loss ops where
  told op i := by
    rw [htold, hsettled]
    refine (hr.told op i).trans (and_congr_right fun _ => exists_congr fun s =>
      and_congr_right fun _ => or_congr_right ?_)
    rw [harrivals, List.mem_append, List.mem_singleton]
    constructor
    · exact fun hmem => ⟨.inl hmem.1, hmem.2⟩
    · rintro ⟨hmem | rfl, harrived⟩
      · exact ⟨hmem, harrived⟩
      · exact absurd hnone harrived
  struck s hmem harrived op hop i hi := by
    rw [hsettled] at hmem
    rw [harrivals] at harrived
    rw [hstruck]
    rcases List.mem_append.1 hmem with hmem | hmem
    · exact List.mem_append_left _ (hr.struck s hmem harrived op hop i hi)
    · rw [List.mem_singleton.1 hmem] at hi
      exact List.mem_append_right _ (hout op hop i hi)

/-- The gradient of a tensor is complete: the output it comes from is told. -/
theorem Reported.complete (hr : h.Reported g loss ops) {h' : History} {t : TensorId}
    (hsome : h.arrivals t ≠ []) {told : List (OpId × Nat)} (htold : h'.told = h.told ++ told)
    (hstruck : h'.struck = h.struck) (hsettled : h'.settled = h.settled ++ [t])
    (harrivals : ∀ s, h'.arrivals s = h.arrivals s)
    (hout : ∀ op i, (op, i) ∈ told ↔ op ∈ ops ∧ g.outputAt op i = some t) :
    h'.Reported g loss ops where
  told op i := by
    rw [htold, hsettled, List.mem_append, hr.told, hout]
    simp only [harrivals]
    constructor
    · rintro (⟨hop, s, hi, rfl | ⟨hmem, harrived⟩⟩ | ⟨hop, hi⟩)
      · exact ⟨hop, _, hi, .inl rfl⟩
      · exact ⟨hop, s, hi, .inr ⟨List.mem_append_left _ hmem, harrived⟩⟩
      · exact ⟨hop, t, hi, .inr ⟨by simp, hsome⟩⟩
    · rintro ⟨hop, s, hi, rfl | ⟨hmem, harrived⟩⟩
      · exact .inl ⟨hop, _, hi, .inl rfl⟩
      · rcases List.mem_append.1 hmem with hmem | hmem
        · exact .inl ⟨hop, s, hi, .inr ⟨hmem, harrived⟩⟩
        · rw [List.mem_singleton.1 hmem] at hi
          exact .inr ⟨hop, hi⟩
  struck s hmem harrived := by
    rw [hsettled] at hmem
    rw [harrivals] at harrived
    rw [hstruck]
    rcases List.mem_append.1 hmem with hmem | hmem
    · exact hr.struck s hmem harrived
    · rw [List.mem_singleton.1 hmem] at harrived
      exact absurd harrived hsome

theorem Sound.start {output : OpId × Nat}
    (hloss : ∀ op i, (op, i) = output ↔ op ∈ ops ∧ g.outputAt op i = some options.loss) :
    Sound g options ops { told := [output] } where
  toReported := Reported.start hloss
  delivered := by simp
  waived := by simp
  active := nofun
  described := nofun
  gradOps := rfl
  sums := by simp

/-- A tensor with partial gradients is active. -/
theorem Sound.active_of_arrivals (hs : h.Sound g options ops) {t : TensorId}
    (ht : h.arrivals t ≠ []) : g.Active options.loss t := by
  have hne : readsOf h.delivered t ≠ [] := fun hnil => ht (by simp [arrivals, hnil])
  obtain ⟨r, hr⟩ := List.exists_mem_of_ne_nil _ hne
  obtain ⟨hmem, rfl⟩ := mem_readsOf.1 hr
  obtain ⟨hread, hop, hcover⟩ := (hs.delivered r).1 hmem
  obtain ⟨output, u, hout, hu⟩ := hs.active r.op hop
  exact .input hout hu hcover (mem_readings.1 hread).2

/-- An op that has been told of an output has an active one. -/
theorem Sound.active_of_told (hs : h.Sound g options ops) {op : OpId} {i : Nat}
    (ht : (op, i) ∈ h.told) : op ∈ ops ∧ g.HasActiveOutput options.loss op := by
  obtain ⟨hop, t, hout, hwhy⟩ := (hs.told op i).1 ht
  refine ⟨hop, i, t, hout, ?_⟩
  rcases hwhy with rfl | ⟨-, harrived⟩
  · exact .loss
  · exact hs.active_of_arrivals harrived

/-- **A request**: the gradient ops of `op` are grown, the inputs that they
    cover receive their partial gradients, and the others never will. -/
theorem Sound.request (hs : h.Sound g options ops) {op : OpId} {rs ws : List Reading}
    (hop : op ∈ ops) (hactive : g.HasActiveOutput options.loss op) {x : Op} (hx : g.op? op = some x)
    (hspecs : x.operator.gradSpecs (g.view op x) = .ok (g.specsOf op))
    (hrs : ∀ r, r ∈ rs ↔ r.op = op ∧ g.inputAt op r.index = some r.tensor ∧ g.Covers op r.index)
    (hws : ∀ r, r ∈ ws ↔ r.op = op ∧ g.inputAt op r.index = some r.tensor ∧ ¬ g.Covers op r.index)
    (hfinal : ∀ t ∈ h.settled, readsOf (h.delivered ++ rs) t = readsOf h.delivered t) :
    Sound g options ops { h with
      delivered := h.delivered ++ rs
      waived := h.waived ++ ws
      requested := h.requested ++ [op]
      pieces := h.pieces ++ (g.specsOf op).map (.gradient op) } := by
  -- nothing arrives any more at tensors that have been dealt with
  have harrivals : ∀ t ∈ h.settled,
      (readsOf (h.delivered ++ rs) t).map Reading.grad = h.arrivals t := by
    intro t ht
    rw [hfinal t ht]
    rfl
  refine ⟨hs.toReported.request rfl rfl rfl harrivals, ?_, ?_, ?_, ?_, ?_, ?_⟩
  · -- delivered: the covered readings by `op` join
    intro r
    show r ∈ h.delivered ++ rs ↔ _ ∧ r.op ∈ h.requested ++ [op] ∧ _
    rw [List.mem_append, hs.delivered, hrs, List.mem_append, List.mem_singleton, mem_readings]
    constructor
    · rintro (⟨hread, hreq, hcover⟩ | ⟨rfl, hin, hcover⟩)
      · exact ⟨hread, .inl hreq, hcover⟩
      · exact ⟨⟨hop, hin⟩, .inr rfl, hcover⟩
    · rintro ⟨hread, hreq | rfl, hcover⟩
      · exact .inl ⟨hread, hreq, hcover⟩
      · exact .inr ⟨rfl, hread.2, hcover⟩
  · -- waived: the other readings by `op` join
    intro r
    show r ∈ h.waived ++ ws ↔ _ ∧ (r.op ∈ h.requested ++ [op] ∧ _ ∨ _)
    rw [List.mem_append, hs.waived, hws, List.mem_append, List.mem_singleton, mem_readings]
    constructor
    · rintro (⟨hread, ⟨hreq, hcover⟩ | hretired⟩ | ⟨rfl, hin, hcover⟩)
      · exact ⟨hread, .inl ⟨.inl hreq, hcover⟩⟩
      · exact ⟨hread, .inr hretired⟩
      · exact ⟨⟨hop, hin⟩, .inl ⟨.inr rfl, hcover⟩⟩
    · rintro ⟨hread, ⟨hreq | rfl, hcover⟩ | hretired⟩
      · exact .inl ⟨hread, .inl ⟨hreq, hcover⟩⟩
      · exact .inr ⟨rfl, hread.2, hcover⟩
      · exact .inl ⟨hread, .inr hretired⟩
  · intro p hp
    rcases List.mem_append.1 hp with hp | hp
    · exact hs.active p hp
    · rw [List.mem_singleton.1 hp]
      exact hactive
  · intro p hp
    rcases List.mem_append.1 hp with hp | hp
    · exact hs.described p hp
    · rw [List.mem_singleton.1 hp]
      exact ⟨x, hx, hspecs⟩
  · -- all new pieces are gradient ops of `op`
    show (h.pieces ++ (g.specsOf op).map (Piece.gradient op)).filter _ =
      (h.requested ++ [op]).flatMap _
    rw [List.filter_append, hs.gradOps, List.flatMap_append, List.flatMap_singleton]
    refine congrArg _ (List.filter_eq_self.2 fun piece hpiece => ?_)
    obtain ⟨spec, -, rfl⟩ := List.mem_map.1 hpiece
    rfl
  · intro t xs
    show .sum t xs ∈ h.pieces ++ (g.specsOf op).map (.gradient op) ↔ _
    have hnot : Piece.sum t xs ∉ (g.specsOf op).map (Piece.gradient op) := by simp
    rw [List.mem_append, or_iff_left hnot, hs.sums]
    refine and_congr_right fun ht => and_congr_right fun _ => ?_
    show _ ↔ (readsOf (h.delivered ++ rs) t).map Reading.grad ≠ [] ∧
      xs = (readsOf (h.delivered ++ rs) t).map Reading.grad
    rw [harrivals t ht]

/-- **Nothing arrives** at a tensor: the output it comes from is struck off,
    and if its op is given up for that, the op's inputs get nothing either. -/
theorem Sound.giveUp (hs : h.Sound g options ops) {t : TensorId} (hnone : h.arrivals t = [])
    {struck : List (OpId × Nat)} {retired : List OpId} {ws : List Reading}
    (hstruck : ∀ op ∈ ops, ∀ i, g.outputAt op i = some t → (op, i) ∈ struck)
    (hws : ∀ r, r ∈ ws ↔ r ∈ g.readings ops ∧ r.op ∈ retired) :
    Sound g options ops { h with
      settled := h.settled ++ [t]
      struck := h.struck ++ struck
      retired := h.retired ++ retired
      waived := h.waived ++ ws } := by
  have hold : ∀ s, s ∈ h.settled ++ [t] ∧ h.arrivals s ≠ [] ↔
      s ∈ h.settled ∧ h.arrivals s ≠ [] := by
    intro s
    rw [List.mem_append, List.mem_singleton]
    constructor
    · rintro ⟨hmem | rfl, harrived⟩
      · exact ⟨hmem, harrived⟩
      · exact absurd hnone harrived
    · exact fun hmem => ⟨.inl hmem.1, hmem.2⟩
  refine { hs with
    toReported := hs.toReported.giveUp hnone rfl rfl rfl (fun _ => rfl) hstruck
    waived := ?_
    sums := ?_ }
  · intro r
    show r ∈ h.waived ++ ws ↔ _ ∧ (_ ∨ r.op ∈ h.retired ++ retired)
    rw [List.mem_append, hs.waived, hws, List.mem_append]
    tauto
  · intro s xs
    show _ ↔ s ∈ h.settled ++ [t] ∧ _ ∧ h.arrivals s ≠ [] ∧ xs = h.arrivals s
    rw [hs.sums]
    have := hold s
    tauto

/-- **A complete gradient**: the partial gradients of a tensor are summed if it
    is wanted, and the output it comes from is told. -/
theorem Sound.complete (hs : h.Sound g options ops) {t : TensorId} (hsome : h.arrivals t ≠ [])
    {told : List (OpId × Nat)} {pieces : List Piece}
    (htold : ∀ op i, (op, i) ∈ told ↔ op ∈ ops ∧ g.outputAt op i = some t)
    (hpieces : g.Wants options t ∧ pieces = [.sum t (h.arrivals t)] ∨
      ¬ g.Wants options t ∧ pieces = []) :
    Sound g options ops { h with
      settled := h.settled ++ [t]
      told := h.told ++ told
      pieces := h.pieces ++ pieces } := by
  refine { hs with
    toReported := hs.toReported.complete hsome rfl rfl rfl (fun _ => rfl) htold
    gradOps := ?_
    sums := ?_ }
  · show (h.pieces ++ pieces).filter _ = _
    have hnone : pieces.filter (·.forward?.isSome) = [] := by
      rcases hpieces with ⟨-, rfl⟩ | ⟨-, rfl⟩ <;> rfl
    rw [List.filter_append, hnone, List.append_nil]
    exact hs.gradOps
  · -- sums: that of `t` joins if it is wanted
    intro s xs
    show .sum s xs ∈ h.pieces ++ pieces ↔ s ∈ h.settled ++ [t] ∧ _ ∧ h.arrivals s ≠ [] ∧
      xs = h.arrivals s
    have hnew : Piece.sum s xs ∈ pieces ↔ s = t ∧ g.Wants options s ∧ xs = h.arrivals s := by
      rcases hpieces with ⟨hwants, rfl⟩ | ⟨hwants, rfl⟩
      · rw [List.mem_singleton, Piece.sum.injEq]
        constructor
        · rintro ⟨rfl, rfl⟩
          exact ⟨rfl, hwants, rfl⟩
        · rintro ⟨rfl, -, rfl⟩
          exact ⟨rfl, rfl⟩
      · simp only [List.not_mem_nil, false_iff]
        rintro ⟨rfl, hw, -⟩
        exact hwants hw
    rw [List.mem_append, hs.sums, hnew, List.mem_append, List.mem_singleton]
    constructor
    · rintro (⟨hmem, hw, harrived, rfl⟩ | ⟨rfl, hw, rfl⟩)
      · exact ⟨.inl hmem, hw, harrived, rfl⟩
      · exact ⟨.inr rfl, hw, hsome, rfl⟩
    · rintro ⟨hmem | rfl, hw, harrived, rfl⟩
      · exact .inl ⟨hmem, hw, harrived, rfl⟩
      · exact .inr ⟨rfl, hw, rfl⟩

end History

end Dataflow
