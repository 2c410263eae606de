import Dataflow.Proofs.Audit
import Dataflow.Proofs.Building
import Dataflow.Proofs.Descriptions
import Dataflow.Proofs.Phases
import Dataflow.Proofs.Rounds

/-! # Shapes of gradients

    Whatever differentiation grows as a gradient of a tensor has the type of
    that tensor, element by element and dimension by dimension, and what a run
    that fails leaves behind is no exception (`Graph.Shapes`).  For the builtin
    operators nothing can go wrong on the way, but that a name is taken.

    The argument goes from turn to turn: what is held in the ledgers has the
    right type, so what an op is told of has, so inference accepts the wires of
    its gradient ops and gives them outputs of the right types. -/

namespace Dataflow

open Dataflow.Graph Relation

/-! ## Section 1: Types of one more op -/

namespace Graph

variable {g s s' : Graph} {o : Op} {outs : List TensorType}

/-- Inference accepts the types that the inputs of `o` have in `s`, and gives
    `outs`, one type at least for each output. -/
structure Accepts (s : Graph) (o : Op) (outs : List TensorType) : Prop where
  known : ∀ i t, o.inputs.get? i = some t → (s.type? t).isSome
  infer : o.operator.infer (s.inputTypes o.inputs) = .ok outs
  enough : ∀ i t, o.outputs.get? i = some t → i < outs.length

/-- From the types that wires carry to the slots of an op. -/
theorem Accepts.of_wires {wires : List (Nat × TensorId)} (types : List TensorType)
    (hinputs : o.inputs = (∅ : Ports).insertAll wires)
    (hslots : wires.map Prod.fst = List.range wires.length)
    (htypes : wires.map (fun w => s.type? w.2) = types.map some)
    (hinfer : o.operator.infer (types.map some) = .ok outs)
    (henough : ∀ i t, o.outputs.get? i = some t → i < outs.length) : s.Accepts o outs := by
  refine ⟨fun i t hi => ?_, ?_, henough⟩
  · rw [hinputs, Ports.get?_insertAll_empty (hslots ▸ List.nodup_range)] at hi
    have hmem : s.type? t ∈ types.map some := by
      rw [← htypes]
      exact List.mem_map_of_mem (f := fun w => s.type? w.2) hi
    obtain ⟨type, -, htype⟩ := List.mem_map.1 hmem
    rw [← htype]
    rfl
  · rw [hinputs, inputTypes_insertAll s hslots, htypes]
    exact hinfer

/-- Only the types of the inputs matter. -/
theorem Accepts.congr (h : s.Accepts o outs)
    (hsame : ∀ i t, o.inputs.get? i = some t → s'.type? t = s.type? t) : s'.Accepts o outs := by
  refine ⟨fun i t hi => ?_, ?_, h.enough⟩
  · rw [hsame i t hi]
    exact h.known i t hi
  · have htypes : s'.inputTypes o.inputs = s.inputTypes o.inputs := by
      unfold inputTypes
      refine List.map_congr_left fun i _ => ?_
      cases hi : o.inputs.get? i with
      | none => rfl
      | some t => exact hsame i t hi
    rw [htypes]
    exact h.infer

/-- **An op that inference accepts can be settled.** -/
theorem Growing.settles (h : Growing s o s') (haccepts : s.Accepts o outs) {e : GraphError} :
    ¬ SettlingFails s' s.nextOp o e := by
  have haccepts' : s'.Accepts o outs := haccepts.congr fun i t hi =>
    type?_of_unread (h.kept t (h.inputs_old i t hi))
  intro hfails
  cases hfails with
  | input hi ht =>
    have hknown := haccepts'.known _ _ hi
    rw [ht] at hknown
    cases hknown
  | infer he =>
    rw [haccepts'.infer] at he
    cases he
  | outputs htypes hi hlength =>
    rw [haccepts'.infer] at htypes
    cases htypes
    exact absurd (haccepts'.enough _ _ hi) (Nat.not_lt.2 hlength)

/-- **The outputs of a new op** have the types that inference gives. -/
theorem Grown.type?_new (h : Grown s o s') (hdate : s'.UpToDate s.nextOp)
    (haccepts : s.Accepts o outs) {i : Nat} {x : TensorId} (hx : o.outputs.get? i = some x) :
    s'.type? x = outs[i]? := by
  have haccepts' : s'.Accepts o outs := haccepts.congr fun j t hj =>
    h.type?_old (h.inputs_old j t hj)
  obtain ⟨types, hinfer, htypes⟩ := hdate
  obtain ⟨o', ho', -, hinfer⟩ := inferOp_none_eq_ok.1 hinfer
  cases ho'.symm.trans h.op_new
  rw [haccepts'.infer] at hinfer
  cases hinfer
  obtain ⟨type, htype, hx'⟩ := htypes i x (by rw [outputAt_eq h.op_new]; exact hx)
  rw [hx', htype]

/-! ## Section 2: Gradients and what they belong to -/

/-- What `x` is the gradient of.  The outputs of an op that has an origin are
    partial gradients, and any other gradient is a complete one. -/
def GradientOf (s : Graph) (x t : TensorId) : Prop :=
  match ((s.producer? x).bind s.op?).bind Op.origin? with
  | some origin => ∃ output input : Nat, origin.targets[output]? = some input ∧
      s.inputAt origin.forward input = some t ∧ x = Naming.edgeGrad t origin.forward input
  | none => x = Naming.grad t

theorem GradientOf.edge (origin : GradOrigin) {t : TensorId} {output input : Nat}
    (horigin : ((s.producer? (Naming.edgeGrad t origin.forward input)).bind s.op?).bind Op.origin?
      = some origin) (htarget : origin.targets[output]? = some input)
    (hread : s.inputAt origin.forward input = some t) :
    s.GradientOf (Naming.edgeGrad t origin.forward input) t := by
  unfold GradientOf
  rw [horigin]
  exact ⟨output, input, htarget, hread, rfl⟩

theorem GradientOf.complete {t : TensorId}
    (horigin : ((s.producer? (Naming.grad t)).bind s.op?).bind Op.origin? = none) :
    s.GradientOf (Naming.grad t) t := by
  unfold GradientOf
  rw [horigin]

theorem GradientOf.unique {x t u : TensorId} (ht : s.GradientOf x t) (hu : s.GradientOf x u) :
    t = u := by
  unfold GradientOf at ht hu
  generalize ((s.producer? x).bind s.op?).bind Op.origin? = origin? at ht hu
  cases origin? with
  | none => exact Naming.grad_inj (ht.symm.trans hu)
  | some origin =>
    obtain ⟨_, _, -, -, hx⟩ := ht
    obtain ⟨_, _, -, -, hx'⟩ := hu
    exact (edgeGrad_inj (hx.symm.trans hx')).1

/-- `x` has in `s` the type that `t` has in `g`. -/
def Alike (g s : Graph) (x t : TensorId) : Prop := (g.type? t).isSome ∧ s.type? x = g.type? t

/-- Whatever `s` has beyond the tensors of `g` is a gradient of one of them, and
    has its type. -/
def Shapes (g s : Graph) : Prop :=
  ∀ x, (s.tensor? x).isSome → g.tensor? x = none → ∃ t, s.GradientOf x t ∧ g.Alike s x t

theorem Shapes.refl (g : Graph) : g.Shapes g := by
  intro x hx hfree
  rw [hfree] at hx
  cases hx

theorem Alike.isSome {x t : TensorId} (h : g.Alike s x t) : (s.type? x).isSome := by
  rw [h.2]
  exact h.1

theorem Alike.kept {x t : TensorId} (h : g.Alike s x t)
    (hkept : (s.tensor? x).isSome → s'.type? x = s.type? x) : g.Alike s' x t :=
  ⟨h.1, (hkept (tensor_of_type h.isSome)).trans h.2⟩

/-- What a tensor is the gradient of does not change when an op is grown. -/
theorem GradientOf.sprouted {x t : TensorId} (h : s.GradientOf x t) (hs : s.WellWired)
    (hsprouted : Sprouted s o s') (hx : (s.tensor? x).isSome) : s'.GradientOf x t := by
  have hold : ∀ p, (s.op? p).isSome → s'.op? p = s.op? p := by
    intro p hp
    rw [hsprouted.op, if_neg (Nat.ne_of_lt (hs.fresh p hp))]
  have hproducer := producer?_of_unread (hsprouted.kept x hx)
  have horigin : (s'.producer? x).bind s'.op? = (s.producer? x).bind s.op? := by
    rw [hproducer]
    cases hp : s.producer? x with
    | none => rfl
    | some p =>
      obtain ⟨y, hy⟩ := hs.producer_exists hp
      exact hold p (by simp [hy])
  unfold GradientOf at h ⊢
  rw [horigin]
  split at h
  · obtain ⟨output, input, htarget, hin, hname⟩ := h
    refine ⟨output, input, htarget, ?_, hname⟩
    obtain ⟨y, hy, -⟩ := inputAt_eq_some.1 hin
    rw [inputAt, hold _ (by simp [hy])]
    exact hin
  · exact h

/-- **One more op** has to answer for its outputs only. -/
theorem Shapes.sprouted (h : g.Shapes s) (hs : s.WellWired) (hsprouted : Sprouted s o s')
    (hnew : ∀ i x, o.outputs.get? i = some x → ∃ t, s'.GradientOf x t ∧ g.Alike s' x t) :
    g.Shapes s' := by
  intro x hx hfree
  rcases hsprouted.old_or_new hx with hold | ⟨i, hi⟩
  · obtain ⟨t, hgradient, halike⟩ := h x hold hfree
    exact ⟨t, hgradient.sprouted hs hsprouted hold,
      halike.kept fun hsome => type?_of_unread (hsprouted.kept x hsome)⟩
  · exact hnew i x hi

/-- An op without outputs changes nothing. -/
theorem Shapes.barren (h : g.Shapes s) (hs : s.WellWired) {names : TensorId → Prop}
    (hnames : ∀ x, ¬ names x) (hsprouting : Sprouting names s s') : g.Shapes s' := by
  rcases hsprouting with rfl | ⟨o, hsprouted, hout⟩
  · exact h
  · exact h.sprouted hs hsprouted fun i x hi => absurd (hout i x hi) (hnames x)

end Graph

/-! ## Section 3: Ledgers -/

/-- Whatever has arrived, is taken out with `ts`, or is complete, has the type of
    the tensor that it is a gradient of. -/
structure Backward.Shaped (g : Graph) (ts : List (TensorId × List TensorId)) (b : Backward) :
    Prop where
  graph : g.Shapes b.graph
  arrived : ∀ t x, b.partials.Holds t x ∨ (∃ xs, (t, xs) ∈ ts ∧ x ∈ xs) → g.Alike b.graph x t
  gradOf : ∀ t d : TensorId, b.gradOf[t]? = some d → g.Alike b.graph d t

namespace Backward.Shaped

variable {g : Graph} {ts : List (TensorId × List TensorId)} {b b' : Backward}

/-- A step that enters nothing new in the ledger of partial gradients. -/
theorem enter (h : b.Shaped g ts) {l : PartialGradients}
    (hl : ∀ t x, l.Holds t x → b.partials.Holds t x) : Shaped g ts { b with partials := l } where
  graph := h.graph
  arrived t x hx := h.arrived t x (hx.imp_left (hl t x))
  gradOf := h.gradOf

/-- The first tensor has had its turn. -/
theorem drop {x : TensorId × List TensorId} (h : b.Shaped g (x :: ts)) : b.Shaped g ts where
  graph := h.graph
  arrived t y hy := h.arrived t y (hy.imp_right fun ⟨ys, hys, hmem⟩ =>
    ⟨ys, List.mem_cons_of_mem x hys, hmem⟩)
  gradOf := h.gradOf

/-- **A new round.** -/
theorem takeComplete (h : b.Shaped g []) :
    Shaped g b.round.arrivals b.cleared where
  graph := h.graph
  arrived t x hx := by
    refine h.arrived t x (.inl ?_)
    rcases hx with hheld | ⟨xs, hxs, hmem⟩
    · exact PartialGradients.holds_of_takeComplete.1 hheld
    · exact PartialGradients.holds_of_takeComplete.2 xs hxs hmem
  gradOf := h.gradOf

/-- **One more op** has to answer for what is new only. -/
theorem grow (h : b.Shaped g ts) (hb : b.graph.WellWired) {o : Op}
    (hgrown : Grown b.graph o b'.graph)
    (hnew : ∀ i x, o.outputs.get? i = some x →
      ∃ t, b'.graph.GradientOf x t ∧ g.Alike b'.graph x t)
    (harrived : ∀ t x, b'.partials.Holds t x → b.partials.Holds t x ∨ g.Alike b'.graph x t)
    (hgradOf : ∀ t d : TensorId, b'.gradOf[t]? = some d →
      b.gradOf[t]? = some d ∨ g.Alike b'.graph d t) : b'.Shaped g ts where
  graph := h.graph.sprouted hb hgrown.sprouted hnew
  arrived t x hx := by
    have hkept : g.Alike b.graph x t → g.Alike b'.graph x t := fun hold =>
      hold.kept fun hsome => hgrown.type?_old hsome
    rcases hx with hheld | hpending
    · exact (harrived t x hheld).elim (fun hold => hkept (h.arrived t x (.inl hold))) id
    · exact hkept (h.arrived t x (.inr hpending))
  gradOf t d hd := by
    rcases hgradOf t d hd with hold | halike
    · exact (h.gradOf t d hold).kept fun hsome => hgrown.type?_old hsome
    · exact halike

end Backward.Shaped

/-! ## Section 4: Turns -/

/-- The error is one that suitable descriptions do not rule out: a name is
    taken, or a contract is broken. -/
def GradientError.Remains (e : GradientError) : Prop :=
  e.isInternal = true ∨ ∃ t, e = .graph (.duplicateTensor t)

/-- A step has failed with such an error, and all gradients in the graph that it
    has left have the right types. -/
def Graph.FailsInShape (g : Graph) (e : GradientError) (s : Graph) : Prop := e.Remains ∧ g.Shapes s

namespace Growth

/-- **Settling an op that inference accepts** succeeds, and its outputs have
    the types that inference gives. -/
theorem ends_settleNew_of_accepts {E : GradientError → Backward → Prop} {s : Graph} {o : Op}
    {outs : List TensorType} {b : Backward} (hgrowing : Growing s o b.graph)
    (hb : b.graph.WellWired) (haccepts : s.Accepts o outs) :
    Ends E (settleNew s.nextOp) b fun _ b' =>
      ∃ s', Grown s { o with isSettled := true } s' ∧
        (∀ i x, o.outputs.get? i = some x → s'.type? x = outs[i]?) ∧
        b' = { b with graph := s', grown := b.grown ++ [s.nextOp] } := by
  refine ⟨fun u b' hrun => ?_, ?_⟩
  · obtain ⟨_, b₁, hsettle, hnote⟩ := bind_eq_ok.1 hrun
    obtain ⟨s', hsettled, rfl⟩ := edit_eq_ok.1 hsettle
    have hsettled := Edit.settle_eq_ok.1 hsettled
    have hgrown := hgrowing.settle hsettled
    have haccepts' : s.Accepts { o with isSettled := true } outs := { haccepts with }
    refine ⟨s', hgrown, fun i x hx => ?_, modify_eq_ok.1 hnote⟩
    exact hgrown.type?_new (hgrowing.upToDate hb hsettled) haccepts' hx
  · have hends := ends_settleNew (E := E) hgrowing fun _ hfails =>
      absurd hfails (hgrowing.settles haccepts)
    exact hends.error

/-- **An output with the type of its tensor** passes the inspection. -/
theorem inspect_of_type {P : GradientError → Prop} {b : Backward} {label : String} {op : OpId}
    {output : Nat} {tensor grad : TensorId} {o : Op} {type : TensorType}
    (ho : b.graph.op? op = some o) (hout : o.outputs.get? output = some grad)
    (htensor : b.graph.type? tensor = some type) (hgrad : b.graph.type? grad = some type) :
    FailsOnly P (inspect label op output tensor) b := by
  rw [← typeOf_eq_ok] at htensor hgrad
  refine failsOnly_inspect ho hout ?_ ?_ fun hne => absurd (hgrad.trans htensor.symm) hne
  · rw [htensor]
    exact .ok _
  · rw [hgrad]
    exact .ok _

end Growth

/-- The only output of the op has type `out`, and it has got its gradient. -/
def Backward.ReadyFor (g : Graph) (o : Op) (out : TensorType) (b : Backward) : Prop :=
  ∃ t, o.outputs.get? 0 = some t ∧ g.type? t = some out ∧ t ∈ b.gradOf

/-- A gradient op of op number `op` with one target, which is `t` at input `i`:
    inference accepts what it reads, and gives the type of the target. -/
structure Backward.Draft (g : Graph) (b : Backward) (op : OpId) (label : String)
    (spec : GradSpec Operator) (o : Op) (inputs : List (Nat × TensorId)) (i : Nat)
    (t : TensorId) : Prop where
  drafted : Growth.Drafted b op label spec o inputs [(0, i, t)]
  pair : spec.targets.toList = [(0, i)]
  read : o.inputs.get? i = some t
  slots : (inputs.map Prod.fst).Nodup
  accepts : ∀ options phase?, ∃ type, g.type? t = some type ∧
    b.graph.Accepts (Growth.gradOp options op phase? spec inputs [(0, i, t)]) [type]

namespace Backward.Shaped

variable {g : Graph} {ops os : List OpId} {ts : List (TensorId × List TensorId)} {b : Backward}
  {options : GradientOptions}

theorem fails (h : b.Shaped g ts) (reason : String) :
    g.FailsInShape (.internal reason) b.graph := ⟨.inl rfl, h.graph⟩

/-- **What a wire carries** is what the description takes for granted. -/
theorem source (h : b.Shaped g ts) (hcarries : b.Carries g) {o : Op} {out : TensorType}
    (hready : b.ReadyFor g o out) {w : GradWire} {type : TensorType}
    (hw : w.carried (g.inputTypes o.inputs) [out] = some type) :
    ∃ t, Growth.sourceOf? b.gradOf o w = some t ∧ b.graph.type? t = some type := by
  have hkept : ∀ t, g.type? t = some type → b.graph.type? t = some type := by
    intro t ht
    rw [type?_of_unread (hcarries.tensor t (tensor_of_type (by simp [ht])))]
    exact ht
  obtain ⟨t, ht, hout, hmem⟩ := hready
  -- the only output is the first one
  have honly : [out][w.index]? = some type → w.index = 0 ∧ g.type? t = some type := by
    intro hindex
    obtain ⟨hlt, htype⟩ := List.getElem?_eq_some_iff.1 hindex
    have hzero : w.index = 0 := Nat.lt_one_iff.1 hlt
    refine ⟨hzero, ?_⟩
    rw [hout, ← hindex, hzero]
    rfl
  unfold GradWire.carried at hw
  unfold Growth.sourceOf?
  cases hsource : w.source with
  | input =>
    simp only [hsource] at hw
    rw [getElem?_inputTypes] at hw
    obtain ⟨x, hx, htype⟩ := Option.bind_eq_some_iff.1 hw
    exact ⟨x, hx, hkept x htype⟩
  | output =>
    simp only [hsource] at hw
    obtain ⟨hzero, htype⟩ := honly hw
    exact ⟨t, by rw [hzero]; exact ht, hkept t htype⟩
  | outputGrad =>
    simp only [hsource] at hw
    obtain ⟨hzero, htype⟩ := honly hw
    obtain ⟨d, hd⟩ := Option.isSome_iff_exists.1 (Std.ExtTreeMap.mem_iff_isSome_getElem?.1 hmem)
    refine ⟨d, by simp [hzero, ht, hd], ?_⟩
    rw [(h.gradOf t d hd).2]
    exact htype

/-- A gradient op with one target has one output, called after the edge. -/
theorem output_gradOp {op : OpId} {spec : GradSpec Operator} {inputs : List (Nat × TensorId)}
    {i j : Nat} {t x : TensorId} {phase? : Option Int}
    (h : (Growth.gradOp options op phase? spec inputs [(0, i, t)]).outputs.get? j = some x) :
    j = 0 ∧ x = Naming.edgeGrad t op i := by
  have hmem := (Ports.get?_insertAll_empty (by simp [Growth.edgeOutputs])).1 h
  simpa [Growth.edgeOutputs] using hmem

/-- **A suitable description** leads to a draft. -/
theorem draft (h : b.Shaped g ts) (hcarries : b.Carries g) {op : OpId} {o : Op} {out : TensorType}
    (hop : b.graph.op? op = some o) (hready : b.ReadyFor g o out) {spec : GradSpec Operator}
    (hsuits : spec.Suits (g.inputTypes o.inputs) [out]) (label : String) :
    ∃ inputs i t, Draft g b op label spec o inputs i t := by
  obtain ⟨types, type, i, hcarried, hinfer, hpair, htype⟩ := hsuits.typed
  obtain ⟨inputs, hwiring, hslots, htypes⟩ : ∃ inputs,
      Growth.wiring label o spec b.gradOf = .ok inputs ∧
      inputs.map Prod.fst = spec.wires.map GradWire.slot ∧
      inputs.map (fun x => b.graph.type? x.2) = types.map some :=
    Growth.wiring_typed hcarried fun w _ type hw => h.source hcarries hready hw
  rw [getElem?_inputTypes] at htype
  obtain ⟨t, ht, htype⟩ := Option.bind_eq_some_iff.1 htype
  have hlength : inputs.length = spec.wires.length := by
    simpa using congrArg List.length hslots
  have hrange : inputs.map Prod.fst = List.range inputs.length := by
    rw [hslots, hsuits.slots, hlength]
  refine ⟨inputs, i, t, ⟨hop, hwiring, Growth.targetTensors_singleton hpair ht⟩, hpair, ht,
    hrange ▸ List.nodup_range, fun options phase? => ⟨type, htype, ?_⟩⟩
  refine Accepts.of_wires types rfl hrange htypes hinfer fun j x hj => ?_
  rw [(output_gradOp hj).1]
  exact Nat.zero_lt_one

/-- **Wiring a gradient op** fails only if a name is taken, and then the op has
    no outputs. -/
theorem wireGradOp (h : b.Shaped g ts) (hb : b.graph.WellWired) {op : OpId} {o : Op}
    {spec : GradSpec Operator} {label : String} {inputs : List (Nat × TensorId)} {i : Nat}
    {t : TensorId} (hdraft : Draft g b op label spec o inputs i t) (phase? : Option Int) :
    Ends (fun e b' => g.FailsInShape e b'.graph) (Growth.wireGradOp options op label spec phase?) b
      fun y b' => y = (b.graph.nextOp, [(0, i, t)]) ∧
        ∃ s, s.WellWired ∧ b' = { b with graph := s } ∧ Growing b.graph
          { Growth.gradOp options op phase? spec inputs [(0, i, t)] with isSettled := false }
          s := by
  refine ⟨fun y b' hrun => ?_, fun e b' hrun => ?_⟩
  · have hwired : b'.graph.WellWired := (keptByEdits_wellWired.wireGradOp _ _ _ _ _).ok hb hrun
    obtain ⟨n, targets⟩ := y
    obtain ⟨o', inputs', s, hop, hwiring, htargets, hgrowing, rfl, rfl⟩ :=
      Growth.wireGradOp_eq_ok hrun
    cases hop.symm.trans hdraft.drafted.op
    cases hwiring.symm.trans hdraft.drafted.inputs
    cases htargets.symm.trans hdraft.drafted.targets
    exact ⟨rfl, s, hwired, rfl, hgrowing⟩
  · obtain ⟨hfails, hsprouting⟩ := (Growth.ends_wireGradOp ..).error e b' hrun
    refine ⟨?_, h.graph.barren hb (fun x hx => ?_) hsprouting⟩
    · cases hfails with
      | op hnone =>
        rw [hdraft.drafted.op] at hnone
        cases hnone
      | inputs ho he =>
        cases ho.symm.trans hdraft.drafted.op
        rw [hdraft.drafted.inputs] at he
        cases he
      | targets ho he =>
        cases ho.symm.trans hdraft.drafted.op
        rw [hdraft.drafted.targets] at he
        cases he
      | @input o' inputs' _ x hdraft' hx hnone =>
        cases hdraft'.op.symm.trans hdraft.drafted.op
        cases hdraft'.inputs.symm.trans hdraft.drafted.inputs
        -- what the wires carry has a type, so it is there
        obtain ⟨_, -, haccepts⟩ := hdraft.accepts options phase?
        have hthere := tensor_of_type
          (haccepts.known x.1 x.2 ((Ports.get?_insertAll_empty hdraft.slots).2 hx))
        rw [hnone] at hthere
        cases hthere
      | output => exact .inr ⟨_, rfl⟩
    · obtain ⟨y, hy, -⟩ := hx
      rw [hdraft.pair] at hy
      cases hy

/-- What comes out of a draft is a gradient of the target. -/
theorem gradientOf_draft {op : OpId} {o : Op} {spec : GradSpec Operator} {label : String}
    {inputs : List (Nat × TensorId)} {i : Nat} {t : TensorId} {phase? : Option Int} {s : Graph}
    (hdraft : Draft g b op label spec o inputs i t) (hb : b.graph.WellWired)
    (hgrown : Grown b.graph (Growth.gradOp options op phase? spec inputs [(0, i, t)]) s)
    (hout : (Growth.gradOp options op phase? spec inputs [(0, i, t)]).outputs.get? 0
      = some (Naming.edgeGrad t op i)) : s.GradientOf (Naming.edgeGrad t op i) t := by
  have hread : s.inputAt op i = some t := by
    have hop := hdraft.drafted.op
    have hne : op ≠ b.graph.nextOp := Nat.ne_of_lt (hb.fresh op (by simp [hop]))
    rw [inputAt_eq ((hgrown.op_old hne).trans hop)]
    exact hdraft.read
  have htarget : spec.targets[0]? = some i :=
    Std.ExtTreeMap.mem_toList_iff_getElem?_eq_some.1 (by simp [hdraft.pair])
  refine .edge ⟨op, spec.wires, spec.targets⟩ ?_ htarget hread
  rw [hgrown.producer?_new hout]
  simp only [Option.bind_some, hgrown.op_new]
  rfl

/-- **One gradient op.**  Its output is a partial gradient with the type of its
    tensor, so that it can be delivered. -/
theorem growGradOp (h : b.Shaped g ts) (hcarries : b.Carries g) (options : GradientOptions)
    {op : OpId} {o : Op} {spec : GradSpec Operator} {label : String}
    {inputs : List (Nat × TensorId)} {i : Nat} {t : TensorId}
    (hdraft : Draft g b op label spec o inputs i t) (phase? : Option Int) :
    Ends (fun e b' => g.FailsInShape e b'.graph) (Growth.growGradOp options op label spec phase?) b
      fun _ b' => b'.Shaped g ts := by
  have hb := hcarries.wellWired
  refine (h.wireGradOp hb hdraft phase?).bind fun y b₁ ⟨hy, s, hs, hb₁, hgrowing⟩ => ?_
  subst hy hb₁
  obtain ⟨type, htype, haccepts⟩ := hdraft.accepts options phase?
  have hdrafted : b.graph.Accepts
    { Growth.gradOp options op phase? spec inputs [(0, i, t)] with isSettled := false } [type] :=
    { haccepts with }
  refine (Growth.ends_settleNew_of_accepts hgrowing hs hdrafted).bind
    fun _ b₂ ⟨s', hgrown, htypes, hb₂⟩ => ?_
  subst hb₂
  have hout : (Growth.gradOp options op phase? spec inputs [(0, i, t)]).outputs.get? 0
      = some (Naming.edgeGrad t op i) :=
    Growth.get?_gradOp hdraft.drafted.targets (0, i, t) (List.mem_singleton.2 rfl)
  have halike : g.Alike s' (Naming.edgeGrad t op i) t := by
    refine ⟨by simp [htype], ?_⟩
    rw [htypes 0 _ hout, htype]
    rfl
  have hnew : ∀ j x, (Growth.gradOp options op phase? spec inputs [(0, i, t)]).outputs.get? j
      = some x → ∃ u, s'.GradientOf x u ∧ g.Alike s' x u := by
    intro j x hx
    rw [(output_gradOp hx).2]
    exact ⟨t, gradientOf_draft hdraft hb hgrown hout, halike⟩
  have hshapes := h.graph.sprouted hb hgrown.sprouted hnew
  refine ⟨fun _ b' hrun => ?_, fun e b' hrun => ?_⟩
  · obtain ⟨l, hl, rfl⟩ := Growth.forM_deliver_eq_ok hgrown.op_new
      (Growth.get?_gradOp hdraft.drafted.targets) hrun
    refine h.grow hb hgrown hnew (fun u x hx => ?_) fun _ _ hd => .inl hd
    rcases Growth.holds_of_deliveries hl hx with hold | ⟨target, htarget, rfl, rfl⟩
    · exact .inl hold
    · cases List.mem_singleton.1 htarget
      exact .inr halike
  · refine Growth.error_of_keeps (E := g.FailsInShape)
      (Keeps.forM (fun _ => Growth.keeps_deliver _ _ _ _) _)
      (Growth.failsOnly_delivers (fun _ => ⟨.inl rfl, hshapes⟩) fun x hx b' hb' => ?_) hrun
    cases List.mem_singleton.1 hx
    have hold : b.graph.type? t = some type :=
      (type?_of_unread (hcarries.tensor t (tensor_of_type halike.1))).trans htype
    have hkept := hgrown.type?_old (tensor_of_type (Option.isSome_of_eq_some hold))
    have hgraph : b'.graph = s' := hb'
    rw [← hgraph] at hgrown hkept halike
    exact Growth.inspect_of_type hgrown.op_new hout (hkept.trans hold) (halike.2.trans htype)

/-- **Inference accepts a sum** of tensors that all have one type. -/
theorem accepts_sumOp {s : Graph} {t : TensorId} {xs : List TensorId} {type : TensorType}
    (hne : xs ≠ []) (htypes : ∀ x ∈ xs, s.type? x = some type) (phase? : Option Int) :
    s.Accepts (Growth.sumOp t xs phase?) [type] := by
  obtain ⟨n, hn⟩ : ∃ n, (Growth.byName xs).length = n + 1 := by
    refine Nat.exists_eq_succ_of_ne_zero fun hzero => hne ?_
    refine List.eq_nil_iff_forall_not_mem.2 fun x hx => ?_
    have hmem := Growth.mem_byName.2 hx
    rw [List.length_eq_zero_iff.1 hzero] at hmem
    cases hmem
  refine Accepts.of_wires (List.replicate (n + 1) type) rfl ?_ ?_ ?_ fun i x hi => ?_
  · rw [Growth.slots_zipIdx, List.length_map, List.length_zipIdx]
  · rw [List.map_replicate]
    refine List.eq_replicate_iff.2 ⟨by simp [hn], fun y hy => ?_⟩
    obtain ⟨w, hw, rfl⟩ := List.mem_map.1 hy
    obtain ⟨z, hz, rfl⟩ := List.mem_map.1 hw
    have hmem : z.1 ∈ Growth.byName xs := List.mem_of_getElem? (List.mem_zipIdx_iff_getElem?.1 hz)
    exact htypes z.1 (Growth.mem_byName.1 hmem)
  · rw [List.map_replicate]
    exact Rule.variadic_replicate _ type n
  · rw [(((Growth.isGradSum_sumOp t xs phase?).outputs i x).1 hi).1]
    exact Nat.zero_lt_one

/-- **Wiring a sum** fails only if the name is taken, and then the op has no
    outputs. -/
theorem wireSum (h : b.Shaped g ts) (hb : b.graph.WellWired) {t : TensorId} {xs : List TensorId}
    (hthere : ∀ x ∈ xs, (b.graph.tensor? x).isSome) :
    Ends (fun e b' => g.FailsInShape e b'.graph) (Growth.wireSum t xs) b
      fun op b' => op = b.graph.nextOp ∧ ∃ phase? s, s.WellWired ∧ b' = { b with graph := s } ∧
        Growing b.graph { Growth.sumOp t xs phase? with isSettled := false } s := by
  refine ⟨fun op b' hrun => ?_, fun e b' hrun => ?_⟩
  · have hwired : b'.graph.WellWired := (keptByEdits_wellWired.wireSum _ _).ok hb hrun
    obtain ⟨phase?, s, -, hgrowing, rfl, rfl⟩ := Growth.wireSum_eq_ok hrun
    exact ⟨rfl, phase?, s, hwired, rfl, hgrowing⟩
  · obtain ⟨hfails, hsprouting⟩ := (Growth.ends_wireSum ..).error e b' hrun
    refine ⟨?_, h.graph.barren hb (fun _ hx => hx) hsprouting⟩
    cases hfails with
    | input hx hnone =>
      have hsome := hthere _ (Growth.mem_byName.1 hx)
      rw [hnone] at hsome
      cases hsome
    | output => exact .inr ⟨_, rfl⟩

/-- **One sum.**  Its output is the complete gradient, with the type of the
    partial ones. -/
theorem growSum {t : TensorId} {xs : List TensorId} (h : b.Shaped g ((t, xs) :: ts))
    (hb : b.graph.WellWired) (hne : xs ≠ []) :
    Ends (fun e b' => g.FailsInShape e b'.graph) (Growth.growSum t xs) b
      fun _ b' => b'.Shaped g ts := by
  have hpartial : ∀ x ∈ xs, g.Alike b.graph x t := fun x hx =>
    h.arrived t x (.inr ⟨xs, List.mem_cons_self, hx⟩)
  obtain ⟨first, hfirst⟩ := List.exists_mem_of_ne_nil xs hne
  obtain ⟨type, htype⟩ := Option.isSome_iff_exists.1 (hpartial first hfirst).1
  refine (h.drop.wireSum hb fun x hx => tensor_of_type (hpartial x hx).isSome).bind
    fun op b₁ ⟨hop, phase?, s, hs, hb₁, hgrowing⟩ => ?_
  subst hop hb₁
  have haccepts := accepts_sumOp (t := t) hne (fun x hx => (hpartial x hx).2.trans htype) phase?
  have hdrafted : b.graph.Accepts { Growth.sumOp t xs phase? with isSettled := false } [type] :=
    { haccepts with }
  refine (Growth.ends_settleNew_of_accepts hgrowing hs hdrafted).bind
    fun _ b₂ ⟨s', hgrown, htypes, hb₂⟩ => ?_
  subst hb₂
  have hsum := Growth.isGradSum_sumOp t xs phase?
  have hout := (hsum.outputs 0 _).2 ⟨rfl, rfl⟩
  have halike : g.Alike s' (Naming.grad t) t := by
    refine ⟨by simp [htype], ?_⟩
    rw [htypes 0 _ hout, htype]
    rfl
  have hgradient : s'.GradientOf (Naming.grad t) t := by
    refine .complete ?_
    rw [hgrown.producer?_new hout]
    simp only [Option.bind_some, hgrown.op_new]
    rfl
  refine ⟨fun _ b' hrun => ?_, fun e b' hrun => ?_⟩
  · obtain ⟨_, b₃, hnote, hpure⟩ := bind_eq_ok.1 hrun
    obtain ⟨-, rfl⟩ := pure_eq_ok.1 hpure
    rw [modify_eq_ok.1 hnote]
    refine h.drop.grow hb hgrown (fun i x hx => ?_) (fun _ _ hx => .inl hx) fun u d hd => ?_
    · rw [((hsum.outputs i x).1 hx).2]
      exact ⟨t, hgradient, halike⟩
    · simp only [Std.ExtTreeMap.getElem?_insert] at hd
      split at hd
      · rename_i heq
        cases hd
        rw [← Std.LawfulEqCmp.eq_of_compare heq]
        exact .inr halike
      · exact .inl hd
  · rcases bind_eq_error.1 hrun with hnote | ⟨_, _, -, hpure⟩
    · cases hnote
    · cases hpure

/-- **Telling a producer** changes no gradient. -/
theorem tellProducer (h : b.Shaped g ts) (hb : b.graph.WellWired) {t : TensorId}
    (ht : (b.graph.tensor? t).isSome) :
    Ends (fun e b' => g.FailsInShape e b'.graph) (Growth.tellProducer ops t) b
      fun _ b' => b'.Shaped g ts := by
  refine ⟨fun _ b' hrun => ?_, fun e b' hrun => ?_⟩
  · rcases Growth.tellProducer_eq_ok hb hrun with ⟨rfl, -⟩ | ⟨_, _, _, l, -, -, rfl⟩
    · exact h
    · exact { h with }
  · refine Growth.error_of_keeps (E := g.FailsInShape) (Growth.keeps_tellProducer _ _)
      (Growth.failsOnly_tellProducer hb (fun hnone => ?_) fun _ _ _ _ =>
        OutputGradients.failsOnly_insert h.fails _ _ _ _) hrun
    rw [hnone] at ht
    cases ht

/-- **Giving up a producer** changes no gradient. -/
theorem giveUpProducer (h : b.Shaped g ts) (hb : b.graph.WellWired) {t : TensorId}
    (ht : (b.graph.tensor? t).isSome) :
    Ends (fun e b' => g.FailsInShape e b'.graph) (Growth.giveUpProducer ops t) b
      fun _ b' => b'.Shaped g ts := by
  refine ⟨fun _ b' hrun => ?_, fun e b' hrun => ?_⟩
  · rcases Growth.giveUpProducer_eq_ok hb hrun with ⟨rfl, -⟩ |
      ⟨_, o, _, given, l, ps, -, -, hps, rfl⟩
    · exact h
    · have hheld : ∀ t x, ps.Holds t x → b.partials.Holds t x := by
        cases given with
        | true => exact fun t x hx => PartialGradients.holds_of_waives hps hx
        | false =>
          cases hps
          exact fun _ _ hx => hx
      exact { h.enter hheld with }
  · refine Growth.error_of_keeps (E := g.FailsInShape) (Growth.keeps_giveUpProducer _ _)
      (Growth.failsOnly_giveUpProducer hb (fun hnone => ?_) h.fails) hrun
    rw [hnone] at ht
    cases ht

end Backward.Shaped

/-- What the shapes of gradients rest on: a graph fresh from a model, with
    builtin operators only. -/
structure BuiltinSetting (g : Graph) (loss : TensorId) (ops : List OpId) : Prop where
  wellWired : g.WellWired
  pristine : g.Pristine
  upstream : g.Upstream loss ops
  builtin : ∀ op o, g.op? op = some o → ∃ k : Builtin, o.operator = k.operator

namespace BuiltinSetting

variable {g : Graph} {loss : TensorId} {ops os : List OpId} {op : OpId}
  {ts : List (TensorId × List TensorId)} {b : Backward} {options : GradientOptions}

/-- What an operator is shown in the backward graph has the types of old. -/
theorem shows (hg : BuiltinSetting g loss ops) (hcarries : b.Carries g) {o : Op}
    (ho : g.op? op = some o) : (b.graph.view op o).Shows (g.inputTypes o.inputs) where
  typed i x hx := by
    obtain ⟨y, hy⟩ := hg.wellWired.input_exists (inputAt_eq_some.2 ⟨o, ho, hx⟩)
    have hthere : (g.tensor? x).isSome := by simp [hy]
    obtain ⟨type, htype⟩ := Option.isSome_iff_exists.1 (hg.pristine.typed x hthere)
    refine ⟨type, typeOf_eq_ok.2 ((type?_of_unread (hcarries.tensor x hthere)).trans htype), ?_⟩
    have hx : o.inputs.get? i = some x := hx
    rw [getElem?_inputTypes, hx]
    exact htype
  wired i type htype := by
    rw [getElem?_inputTypes] at htype
    obtain ⟨x, hx, -⟩ := Option.bind_eq_some_iff.1 htype
    exact Option.isSome_of_eq_some hx

/-- **What an op asks for** in its turn suits its types, and passes the check. -/
theorem described (hg : BuiltinSetting g loss ops) (h : b.Orderly g ops (op :: os) ts) :
    ∃ o out specs, g.op? op = some o ∧ b.ReadyFor g o out ∧
      o.operator.gradSpecs (b.graph.view op o) = .ok specs ∧
      Growth.checkSpecs (o.label op) o specs [] = .ok () ∧
      ∀ spec ∈ specs, spec.Suits (g.inputTypes o.inputs) [out] := by
  obtain ⟨-, i, hmem, t, hout, ht⟩ := h.taken op List.mem_cons_self
  obtain ⟨types, hinfer, htypes⟩ := hg.pristine.upToDate op (hg.upstream.exist op hmem)
  obtain ⟨o, ho, -, hinfer⟩ := inferOp_none_eq_ok.1 hinfer
  obtain ⟨k, hk⟩ := hg.builtin op o ho
  have hshows := hg.shows h.carries ho
  rw [hk] at hinfer
  obtain ⟨hlength, specs, hspecs, hnodup, hsuits⟩ := Builtin.suits hinfer hshows
  obtain ⟨out, rfl⟩ := List.length_eq_one_iff.1 hlength
  refine ⟨o, out, specs, ho, ⟨t, ?_⟩, hk ▸ hspecs,
    Growth.checkSpecs_of_suits hnodup hsuits hshows.wired, hsuits⟩
  -- the output that has got its gradient is the only one
  obtain ⟨type, htype, hgiven⟩ := htypes i t hout
  obtain ⟨hlt, heq⟩ := List.getElem?_eq_some_iff.1 htype
  have hzero : i = 0 := Nat.lt_one_iff.1 hlt
  subst hzero
  rw [outputAt_eq ho] at hout
  exact ⟨hout, hgiven.trans (congrArg some heq.symm), ht⟩

/-- **The turn of an op.** -/
theorem growGradOps (hg : BuiltinSetting g loss ops) (horderly : b.Orderly g ops (op :: os) ts)
    (h : b.Shaped g ts) :
    Ends (fun e b' => g.FailsInShape e b'.graph) (Growth.growGradOps options op) b
      fun _ b' => b'.Orderly g ops os ts ∧ b'.Shaped g ts := by
  obtain ⟨o, out, specs, ho, hready, hspecs, hcheck, hsuits⟩ := hg.described horderly
  have hold : ∀ b : Backward, b.Carries g → b.graph.op? op = some o := by
    intro b hb
    rw [hb.op_old hg.wellWired (by simp [ho])]
    exact ho
  have hop := hold b horderly.carries
  refine Growth.ends_growGradOps (E := g.FailsInShape)
    (I := fun rest b' => b'.Orderly g ops os ts ∧ b'.Shaped g ts ∧ b'.ReadyFor g o out ∧
      ∀ spec ∈ rest, spec.Suits (g.inputTypes o.inputs) [out])
    hop ?_ (fun specs' hspecs' _ => ?_) (fun spec rest b' ⟨hb', hshaped, hready', hrest⟩ => ?_)
    (fun b' ⟨hb', _⟩ => ?_) (fun b' reason ⟨_, hshaped, _⟩ => hshaped.fails reason)
    fun b' l xs ⟨hb', hshaped, _⟩ hrun => ?_
  · refine Growth.failsOnly_describe hop (fun hgradient => ?_) ?_ fun specs' hspecs' => ?_
    · rw [hg.pristine.forward op o ho] at hgradient
      cases hgradient
    · rw [hspecs]
      exact .ok _
    · cases hspecs'.symm.trans hspecs
      rw [hcheck]
      exact .ok _
  · cases hspecs'.symm.trans hspecs
    exact ⟨horderly.next, h, hready, hsuits⟩
  · obtain ⟨inputs, i, t, hdraft⟩ := hshaped.draft hb'.carries (hold b' hb'.carries) hready'
      (hrest spec List.mem_cons_self) (o.label op)
    have hends := hshaped.growGradOp hb'.carries options hdraft o.settings.phase?
    refine ⟨fun u b'' hrun => ?_, hends.error⟩
    obtain ⟨horderly', hadvances⟩ := hb'.growGradOp hrun
    obtain ⟨t, hout, htype, ht⟩ := hready'
    exact ⟨horderly', hends.ok u b'' hrun, ⟨t, hout, htype, hadvances.gradOf t ht⟩,
      fun s hs => hrest s (List.mem_cons_of_mem spec hs)⟩
  · rw [hold b' hb'.carries]
    rfl
  · exact ⟨(hb'.waives hrun).1, hshaped.enter fun t x => PartialGradients.holds_of_waives hrun⟩

/-- **The turn of a tensor.** -/
theorem growGradient (hg : BuiltinSetting g loss ops) {t : TensorId} {xs : List TensorId}
    (horderly : b.Orderly g ops os ((t, xs) :: ts)) (h : b.Shaped g ((t, xs) :: ts)) :
    Ends (fun e b' => g.FailsInShape e b'.graph) (Growth.growGradient options ops t xs) b
      fun _ b' => b'.Orderly g ops os ts ∧ b'.Shaped g ts := by
  obtain ⟨op, -, i, hin⟩ := horderly.read t (.inr List.mem_cons_self)
  obtain ⟨x, hx⟩ := hg.wellWired.input_exists hin
  have hthere : ∀ b : Backward, b.Carries g → (b.graph.tensor? t).isSome := fun b hb =>
    hb.there (by simp [hx])
  have hb := horderly.carries
  have hends : Ends (fun e b' => g.FailsInShape e b'.graph)
      (Growth.growGradient options ops t xs) b fun _ b' => b'.Shaped g ts := by
    refine Growth.ends_growGradient (R := fun _ b' => b'.Carries g ∧ b'.Shaped g ts)
      (hthere b hb) (fun _ => h.drop.giveUpProducer hb.wellWired (hthere b hb)) h.drop
      (fun hne => ?_) (fun _ b' hb' => { hb'.2 with })
      fun _ b' hb' => hb'.2.tellProducer hb'.1.wellWired (hthere b' hb'.1)
    have hsum := h.growSum hb.wellWired hne
    exact ⟨fun total b' hrun => ⟨(horderly.drop.growSum hrun).1.carries, hsum.ok total b' hrun⟩,
      hsum.error⟩
  refine ⟨fun u b' hrun => ⟨?_, hends.ok u b' hrun⟩, hends.error⟩
  exact (horderly.growGradient hg.wellWired hg.upstream.exist hrun).1

/-- What the seed adds is the gradient of the loss by itself. -/
theorem shapes_seed {type : TensorType} {data : Payload} {s : Graph}
    (htype : g.type? loss = some type)
    (hadd : Edit.addInitialised (Naming.grad loss) .const type data g = .ok () s) :
    g.Shapes s ∧ g.Alike s (Naming.grad loss) loss := by
  obtain ⟨rfl, -⟩ := Edit.addInitialised_eq_ok hadd
  have halike : g.Alike (g.insertTensor (Naming.grad loss)
      { kind := .const, type? := some type, data? := some data }) (Naming.grad loss) loss :=
    ⟨by simp [htype], by rw [htype]; simp [type?]⟩
  refine ⟨fun x hx hfree => ?_, halike⟩
  rw [tensor?_insertTensor] at hx
  split at hx
  · rename_i heq
    subst heq
    exact ⟨loss, .complete (by simp [producer?]), halike⟩
  · rw [hfree] at hx
    cases hx

/-- **The seed.** -/
theorem seed (hg : BuiltinSetting g loss ops) {type : TensorType}
    (htype : g.type? loss = some type) (hcount : type.count = 1) :
    Ends (fun e b' => g.FailsInShape e b'.graph) (Growth.seed loss type ops)
      (Backward.start g loss ops) fun _ b' => b'.Orderly g ops [] [] ∧ b'.Shaped g [] := by
  have hthere : (g.tensor? loss).isSome := tensor_of_type (by simp [htype])
  refine FailsOnly.ends (R := fun b' : Backward => g.Shapes b'.graph) ?_ ?_ fun _ b' hrun => ?_
  · refine Growth.failsOnly_seed (fun _ => .inr ⟨_, rfl⟩) (fun hmisfit => ?_) fun s hadd => ?_
    · rw [Growth.fits_one_of_count hcount] at hmisfit
      cases hmisfit
    · have hextends := Backward.extends_start ops hg.wellWired hadd
      refine Growth.failsOnly_tellProducer hextends.wellWired (fun hnone => ?_) fun _ _ _ _ =>
        OutputGradients.failsOnly_insert (fun _ => .inl rfl) _ _ _ _
      have hkept := hextends.toCarries.there hthere
      rw [hnone] at hkept
      cases hkept
  · rcases Growth.graph_seed loss type ops (Backward.start g loss ops) with heq | hadd
    · rw [heq]
      exact .refl g
    · exact (shapes_seed htype hadd).1
  · obtain ⟨horderly, hpartials⟩ := Backward.Orderly.seed hg.wellWired hg.upstream.exist hrun
    obtain ⟨s, hadd, htell⟩ := Growth.seed_eq_ok hrun
    obtain ⟨hshapes, halike⟩ := shapes_seed htype hadd
    have hstart : Backward.Shaped g [] { Backward.start g loss ops with
        graph := s
        gradOf := (∅ : Std.ExtTreeMap TensorId TensorId).insert loss (Naming.grad loss) } := {
      graph := hshapes
      arrived := by
        rintro t x (hheld | ⟨_, hnone, -⟩)
        · simp [Backward.start, PartialGradients.Holds, PartialGradients.arrived] at hheld
        · cases hnone
      gradOf := by
        intro t d hgradOf
        simp only [Std.ExtTreeMap.getElem?_insert] at hgradOf
        split at hgradOf
        · rename_i heq
          cases hgradOf
          rw [← Std.LawfulEqCmp.eq_of_compare heq]
          exact halike
        · simp at hgradOf }
    have hcarries := (Backward.extends_start ops hg.wellWired hadd).toCarries
    exact ⟨horderly, (hstart.tellProducer hcarries.wellWired
      (hcarries.there hthere)).ok _ b' htell⟩

/-- **The whole backward graph.** -/
theorem growth (hg : BuiltinSetting g options.loss ops) {type : TensorType}
    (htype : g.type? options.loss = some type) (hcount : type.count = 1) (rounds : Nat) :
    Ends (fun e b' => g.FailsInShape e b'.graph) (do
        Growth.seed options.loss type ops
        Growth.propagate options ops rounds)
      (Backward.start g options.loss ops) fun _ b' => g.Shapes b'.graph := by
  refine (hg.seed htype hcount).bind fun _ b hb => ?_
  refine (Growth.ends_propagate
    (I := fun os ts b => b.Orderly g ops os ts ∧ b.Shaped g ts)
    (fun b ⟨horderly, h⟩ => ⟨horderly.takeComplete, h.takeComplete⟩)
    (fun op os ts b ⟨horderly, h⟩ => hg.growGradOps horderly h)
    (fun x ts b ⟨horderly, h⟩ => hg.growGradient horderly h) rounds hb).mono
    fun _ b' ⟨_, h⟩ => h.graph

/-- The ops of such a graph break no contract. -/
theorem footing (hg : BuiltinSetting g loss ops) : Footing g loss ops where
  wellWired := hg.wellWired
  upstream := hg.upstream
  prompt op o ho := by
    obtain ⟨k, hk⟩ := hg.builtin op o ho
    obtain ⟨types, hinfer, htypes⟩ := hg.pristine.upToDate op (by simp [ho])
    obtain ⟨o', ho', -, hinfer⟩ := inferOp_none_eq_ok.1 hinfer
    cases ho'.symm.trans ho
    have hfits : o.Fits := fun _ => ⟨_, types, hinfer, fun i t hi => by
      obtain ⟨type, htype, -⟩ := htypes i t (by rw [outputAt_eq ho]; exact hi)
      exact (List.getElem?_eq_some_iff.1 htype).1⟩
    exact hfits.prompt (hg.pristine.settled op o ho) (hk ▸ k.waits)
  knows op hop o ho i t ht := by
    refine hg.pristine.typed t ?_
    rcases ht with hin | hout
    · obtain ⟨x, hx⟩ := hg.wellWired.input_exists (inputAt_eq_some.2 ⟨o, ho, hin⟩)
      simp [hx]
    · obtain ⟨x, hx⟩ := hg.wellWired.output_exists (outputAt_eq_some.2 ⟨o, ho, hout⟩)
      simp [hx]
  dependable op _ o ho := by
    obtain ⟨k, hk⟩ := hg.builtin op o ho
    exact Builtin.dependable hk op

end BuiltinSetting

/-! ## Section 5: Differentiation -/

/-- The error says that the loss does not exist, does not have one element or is
    not computed. -/
inductive GradientError.Blames (loss : TensorId) : GradientError → Prop where
  | unknown : Blames loss (.unknownLoss loss)
  | notScalar (type : TensorType) : Blames loss (.lossNotScalar loss type)
  | unproduced : Blames loss (.lossWithoutProducer loss)

/-- **Builtin operators are differentiated in shape.**  On the graph of a model
    made of them, differentiation fails only if the loss is not one that can be
    differentiated, or if a name is taken.  However it ends, every new tensor is
    a gradient of one tensor, and has the element type and the shape of it. -/
theorem Model.differentiate_in_shape {m : Model} {g : Graph} (hbuild : m.build .builtin = .ok g)
    (options : GradientOptions) :
    (∀ e g', Graph.differentiate options g = .error e g' →
      e.Blames options.loss ∨ ∃ t, e = .graph (.duplicateTensor t)) ∧
    ∀ x, ((stateOf (Graph.differentiate options g)).tensor? x).isSome → g.tensor? x = none →
      (∃ t, (stateOf (Graph.differentiate options g)).GradientOf x t) ∧
      ∀ t, (stateOf (Graph.differentiate options g)).GradientOf x t →
        (g.type? t).isSome ∧ (stateOf (Graph.differentiate options g)).type? x = g.type? t := by
  have hbuilds := (Model.build_eq_ok hbuild).1
  have hlayered := hbuilds.layered
  have hwired := hlayered.wellWired
  have hpristine := hbuilds.pristine
  have hsetting : ∀ p, g.producer? options.loss = some p →
      BuiltinSetting g options.loss (g.opsToward p) := fun p hp => {
    wellWired := hwired
    pristine := hpristine
    upstream := hwired.upstream hlayered.acyclic_feeds hp
    builtin := fun op o ho => by
      obtain ⟨d, hcreate⟩ := hbuilds.operator ho
      exact Catalogue.create_builtin hcreate }
  have hends : Ends (fun e s => (e.Blames options.loss ∨ e.Remains) ∧ g.Shapes s)
      (Graph.differentiate options) g fun _ s => g.Shapes s := by
    refine Graph.ends_differentiate (fun e he => ⟨?_, .refl g⟩) fun type p hloss rounds => ?_
    · cases g.errsOnly_lossProducer _ e he with
      | reserved ht hname =>
        rw [hpristine.names _ ht] at hname
        cases hname
      | unknown => exact .inl .unknown
      | untyped => exact .inr (.inl rfl)
      | notScalar => exact .inl (.notScalar _)
      | unproduced => exact .inl .unproduced
    · obtain ⟨hp, htype, hcount, -⟩ := Graph.lossProducer_accepts hloss
      have hgrowth := (hsetting p hp).growth htype hcount rounds
      exact ⟨hgrowth.ok, fun e b he => (hgrowth.error e b he).imp_left .inr⟩
  -- broken contracts are ruled out by the audit
  have hfooting : ∀ p, g.producer? options.loss = some p →
      Footing g options.loss (g.upstreamOf options.loss) := by
    intro p hp
    have hops : g.upstreamOf options.loss = g.opsToward p := by simp [upstreamOf, hp]
    exact hops ▸ (hsetting p hp).footing
  obtain ⟨hrefused, hbooked⟩ :=
    Graph.audit_ends hfooting hlayered.acyclic_feeds (hpristine.typed _)
  have haudit := Graph.cleanAudit_of_ends hwired hrefused hbooked
  refine ⟨fun e g' hrun => ?_, fun x hx hfree => ?_⟩
  · rcases (hends.error e g' hrun).1 with hloss | hinternal | hclash
    · exact .inl hloss
    · rw [haudit.refuses e g' hrun] at hinternal
      cases hinternal
    · exact .inr hclash
  · have hshapes : g.Shapes (stateOf (Graph.differentiate options g)) :=
      Ends.stateOf ⟨hends.ok, fun e s he => (hends.error e s he).2⟩
    obtain ⟨t, hgradient, halike⟩ := hshapes x hx hfree
    refine ⟨⟨t, hgradient⟩, fun u hu => ?_⟩
    rw [hu.unique hgradient]
    exact halike

/-- A product of matrices, none of which is square. -/
def projection : Model where
  inputs := [⟨"x", .f32, [4, 2]⟩]
  initials := [
    { id := "w", kind := .var, element := .f32, shape := [2, 3] },
    { id := "c", kind := .var, element := .f32, shape := [4, 3] }]
  nodes := [
    { opType := "MatMul", inputs := ["x", "w"], outputs := ["y"] },
    { opType := "Add", inputs := ["y", "c"], outputs := ["z"] },
    { opType := "Relu", inputs := ["z"], outputs := ["a"] },
    { opType := "ReduceSum", inputs := ["a"], outputs := ["loss"] }]

theorem projection_in_shape : ∃ g, projection.build .builtin = .ok g ∧
    (∀ e g', Graph.differentiate { loss := "loss" } g = .error e g' →
      e.Blames "loss" ∨ ∃ t, e = .graph (.duplicateTensor t)) ∧
    ∀ x, ((stateOf (Graph.differentiate { loss := "loss" } g)).tensor? x).isSome →
      g.tensor? x = none →
      (∃ t, (stateOf (Graph.differentiate { loss := "loss" } g)).GradientOf x t) ∧
      ∀ t, (stateOf (Graph.differentiate { loss := "loss" } g)).GradientOf x t →
        (g.type? t).isSome ∧
          (stateOf (Graph.differentiate { loss := "loss" } g)).type? x = g.type? t := by
  have hok : (projection.build .builtin).isOk = true := by decide +kernel
  obtain ⟨g, hg⟩ := except_isOk_iff.1 hok
  exact ⟨g, hg, Model.differentiate_in_shape hg _⟩

end Dataflow
