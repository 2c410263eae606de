import Dataflow.Proofs.Audit
import Dataflow.Proofs.Building
import Dataflow.Proofs.Rounds

/-! # Names of gradients

    The complete gradient of `t` is called `d__t`, and its partial gradient
    along the edge into input `i` of op `n` is called `d__t_n_i`.  Complete
    gradients have different names, and so do partial ones.  But a complete and
    a partial gradient have the same name if the one tensor is called like the
    edge of the other, as in `x_0_0` (`Graph.Unambiguous` rules this out).

    Without such names differentiation never finds a name taken.  Every gradient
    has a turn in which it may be grown, no turn comes twice, and what is in the
    graph already has had its turn (`Backward.Tidy`). -/

namespace Dataflow

open Dataflow.Graph Relation

/-! ## Section 1: Names -/

/-- The edge, as it stands in the name of its partial gradient. -/
def Reading.label (r : Reading) : String :=
  r.tensor ++ "_" ++ s!"{r.op}" ++ "_" ++ s!"{r.index}"

theorem Reading.grad_eq (r : Reading) : r.grad = Naming.grad r.label := by
  simp only [Reading.grad, Naming.edgeGrad, Naming.grad, Reading.label, String.append_assoc]

/-- The complete gradient of a tensor, or the partial one along an edge. -/
inductive Gradient where
  | complete (tensor : TensorId)
  | along (edge : Reading)

/-- How the gradient is called. -/
def Gradient.name : Gradient → TensorId
  | complete t => Naming.grad t
  | along r => r.grad

theorem Gradient.isReserved_name (d : Gradient) : Naming.isReserved d.name := by
  cases d with
  | complete t => exact Naming.isReserved_grad t
  | along r => exact Naming.isReserved_edgeGrad r.tensor r.op r.index

namespace Graph

variable {g : Graph} {options : GradientOptions}

/-- The gradients that a loss calls for: its own, those along the edges toward
    it, and those of the tensors that are read there and are wanted. -/
def Sought (g : Graph) (options : GradientOptions) : Gradient → Prop
  | .complete t => t = options.loss ∨
      (∃ r, g.IsEdgeToward options.loss r ∧ r.tensor = t) ∧ g.Wants options t
  | .along r => g.IsEdgeToward options.loss r

/-- No tensor whose gradient is sought is called like an edge whose gradient is
    sought. -/
def Unambiguous (g : Graph) (options : GradientOptions) : Prop :=
  ∀ t r, g.Sought options (.complete t) → g.Sought options (.along r) → t ≠ r.label

/-- **The names of gradients are different.** -/
theorem Unambiguous.name_inj (h : g.Unambiguous options) {d d' : Gradient}
    (hd : g.Sought options d) (hd' : g.Sought options d') (hname : d.name = d'.name) : d = d' := by
  cases d with
  | complete t =>
    cases d' with
    | complete t' => exact congrArg _ (Naming.grad_inj hname)
    | along r => exact absurd (Naming.grad_inj (hname.trans r.grad_eq)) (h t r hd hd')
  | along r =>
    cases d' with
    | complete t => exact absurd (Naming.grad_inj (hname.symm.trans r.grad_eq)) (h t r hd' hd)
    | along r' => exact congrArg _ (Reading.grad_inj hname)

/-- Names without an underscore are not ambiguous. -/
theorem unambiguous_of_plain (hg : g.WellWired) (h : ∀ t ∈ g.tensorIds, '_' ∉ t.toList) :
    g.Unambiguous options := by
  rintro t r ht ⟨p, hp, -, -⟩ rfl
  have hthere : (g.tensor? r.label).isSome := by
    rcases ht with hloss | ⟨⟨r', ⟨_, -, -, hin⟩, heq⟩, -⟩
    · rw [hloss]
      exact tensor_of_producer hp
    · obtain ⟨x, hx⟩ := hg.input_exists hin
      rw [← heq, hx]
      rfl
  refine h r.label (mem_tensorIds.2 hthere) ?_
  simp [Reading.label]

/-- Every tensor of `s` is one of `g` or has the name of a gradient. -/
def Labels (g : Graph) (options : GradientOptions) (s : Graph) : Prop :=
  ∀ x, (s.tensor? x).isSome →
    (g.tensor? x).isSome ∨ ∃ d, g.Sought options d ∧ x = d.name

end Graph

/-! ## Section 2: Errors -/

/-- The error is not about a name that is taken. -/
def GraphError.NoClash (e : GraphError) : Prop := ∀ t, e ≠ .duplicateTensor t

/-- The error is not about a name that is taken. -/
def GradientError.NoClash (e : GradientError) : Prop := ∀ t, e ≠ .graph (.duplicateTensor t)

theorem GraphError.NoClash.graph {e : GraphError} (h : e.NoClash) :
    (GradientError.graph e).NoClash := fun t heq => h t (GradientError.graph.inj heq)

/-- Op number `op` complains of no name on its own account: neither its operator
    nor one that it describes does. -/
def Op.Discreet (o : Op) (op : OpId) : Prop :=
  ∀ g : Graph, ErrsOnly GraphError.NoClash (o.operator.gradSpecs (g.view op o)) ∧
    ∀ specs, o.operator.gradSpecs (g.view op o) = .ok specs → ∀ spec ∈ specs, ∀ inputs,
      ErrsOnly GraphError.NoClash (spec.operator.infer inputs)

theorem Graph.noClash_typeOf (g : Graph) (t : TensorId) :
    ErrsOnly GraphError.NoClash (g.typeOf t) :=
  errsOnly_typeOf (fun _ => nofun) fun _ => nofun

/-- **The builtin operators are discreet.** -/
theorem Builtin.discreet {o : Op} {b : Builtin} (h : o.operator = b.operator) (op : OpId) :
    o.Discreet op := by
  intro g
  rw [h]
  refine ⟨b.errsOnly_gradSpecs nofun fun x _ => g.noClash_typeOf x, fun specs hrun spec hmem => ?_⟩
  obtain ⟨k, hk⟩ := Builtin.gradSpecs_operator hrun spec hmem
  rw [hk]
  exact k.errsOnly_infer fun _ => nofun

theorem Graph.SettlingFails.noClash {g : Graph} {op : OpId} {o : Op} {e : GraphError}
    (h : SettlingFails g op o e)
    (hinfer : ∀ inputs, ErrsOnly GraphError.NoClash (o.operator.infer inputs)) : e.NoClash := by
  cases h with
  | input => nofun
  | infer he =>
    have hclear := hinfer _ _ he
    unfold nameInference
    split
    · nofun
    · exact hclear
  | outputs => nofun

theorem Graph.LossRefused.noClash {g : Graph} {loss : TensorId} {e : GradientError}
    (h : g.LossRefused loss e) : e.NoClash := by
  cases h <;> nofun

/-! ## Section 3: Turns -/

namespace Backward

variable {g : Graph} {options : GradientOptions} {ops os : List OpId}
  {ts ts' : List (TensorId × List TensorId)} {later later' : Reading → Prop} {b b' : Backward}
  {d : Gradient}

/-- The gradient may still be grown.  The tensors `ts` wait for their turn, and
    so do the `later` edges. -/
def Due (b : Backward) (later : Reading → Prop) (ts : List (TensorId × List TensorId)) :
    Gradient → Prop
  | .complete t => b.partials.Awaits t ∨ t ∈ ts.map Prod.fst
  | .along r => r.op ∉ b.outputs.closed ∨ later r

/-- What is over does not come again. -/
theorem Due.of_advances (hb : b.Advances b') (hlater : ∀ r, later' r → later r)
    (hts : ∀ t ∈ ts'.map Prod.fst, t ∈ ts.map Prod.fst) (h : b'.Due later' ts' d) :
    b.Due later ts d := by
  cases d with
  | complete t => exact h.imp (hb.partials.awaits t) (hts t)
  | along r => exact h.imp (fun hopen hclosed => hopen (hb.closed _ hclosed)) (hlater r)

/-- Every tensor is one of `g`, or a gradient that is no longer due. -/
def Tidy (g : Graph) (options : GradientOptions) (later : Reading → Prop)
    (ts : List (TensorId × List TensorId)) (b : Backward) : Prop :=
  ∀ x, (b.graph.tensor? x).isSome → (g.tensor? x).isSome ∨
    ∃ d, g.Sought options d ∧ x = d.name ∧ ¬ b.Due later ts d

theorem Tidy.labels (h : b.Tidy g options later ts) : g.Labels options b.graph := fun x hx =>
  (h x hx).imp_right fun ⟨d, hd, hname, _⟩ => ⟨d, hd, hname⟩

/-- A step that grows nothing. -/
theorem Tidy.stay (h : b.Tidy g options later ts) (hgraph : b'.graph = b.graph)
    (hdue : ∀ d, b'.Due later' ts' d → b.Due later ts d) : b'.Tidy g options later' ts' := by
  intro x hx
  rw [hgraph] at hx
  refine (h x hx).imp_right ?_
  rintro ⟨d, hd, hname, hover⟩
  exact ⟨d, hd, hname, fun hagain => hover (hdue d hagain)⟩

/-- A step that grows gradients which are not due after it. -/
theorem Tidy.step (h : b.Tidy g options later ts)
    (hdue : ∀ d, b'.Due later' ts' d → b.Due later ts d) {names : TensorId → Prop}
    (hgraph : Sprouting names b.graph b'.graph)
    (hnames : ∀ x, names x → ∃ d, g.Sought options d ∧ x = d.name ∧ ¬ b'.Due later' ts' d) :
    b'.Tidy g options later' ts' := by
  intro x hx
  rcases hgraph.old_or_named hx with hold | hnew
  · refine (h x hold).imp_right ?_
    rintro ⟨d, hd, hname, hover⟩
    exact ⟨d, hd, hname, fun hagain => hover (hdue d hagain)⟩
  · exact .inr (hnames x hnew)

theorem Tidy.labels_of_sprouting (h : b.Tidy g options later ts) {names : TensorId → Prop}
    {s : Graph} (hgraph : Sprouting names b.graph s)
    (hnames : ∀ x, names x → ∃ d, g.Sought options d ∧ x = d.name) : g.Labels options s := by
  intro x hx
  rcases hgraph.old_or_named hx with hold | hnew
  · exact h.labels x hold
  · exact .inr (hnames x hnew)

end Backward

/-- What the names of gradients rest on. -/
structure Naming.Grounds (g : Graph) (options : GradientOptions) (ops : List OpId) : Prop where
  wellWired : g.WellWired
  upstream : g.Upstream options.loss ops
  edges : ∀ r ∈ g.readings ops, g.IsEdgeToward options.loss r
  unreserved : ∀ t, (g.tensor? t).isSome → Naming.isReserved t = false
  unambiguous : g.Unambiguous options
  discreet : ∀ op ∈ ops, ∀ o, g.op? op = some o → o.Discreet op

namespace Naming.Grounds

variable {g : Graph} {options : GradientOptions} {ops os : List OpId}
  {ts : List (TensorId × List TensorId)} {later : Reading → Prop} {b b' : Backward}

theorem tensor?_name (hg : Grounds g options ops) (d : Gradient) : g.tensor? d.name = none := by
  rw [← Option.not_isSome_iff_eq_none]
  intro hsome
  have hreserved := hg.unreserved _ hsome
  rw [d.isReserved_name] at hreserved
  cases hreserved

/-- **A gradient that is due is not there yet.** -/
theorem fresh (hg : Grounds g options ops) (h : b.Tidy g options later ts) {d : Gradient}
    (hd : g.Sought options d) (hdue : b.Due later ts d) : b.graph.tensor? d.name = none := by
  rw [← Option.not_isSome_iff_eq_none]
  intro hsome
  rcases h _ hsome with hold | ⟨d', hd', hname, hover⟩
  · rw [hg.tensor?_name d] at hold
    cases hold
  · exact hover (hg.unambiguous.name_inj hd hd' hname ▸ hdue)

/-- How a step fails: with a graph in which all names are in order, and not
    because of a name. -/
def Fails (g : Graph) (options : GradientOptions) (e : GradientError) (s : Graph) : Prop :=
  e.NoClash ∧ g.Labels options s

/-- In the turn of op number `op`, the edges at the inputs `todo` are to come. -/
structure InTurn (g : Graph) (options : GradientOptions) (ops : List OpId) (op : OpId)
    (os : List OpId) (ts : List (TensorId × List TensorId)) (todo : List Nat) (b : Backward) :
    Prop where
  orderly : b.Orderly g ops os ts
  tidy : b.Tidy g options (fun r => r.op ∈ os ∨ r.op = op ∧ r.index ∈ todo) ts
  mem : op ∈ ops
  closed : op ∈ b.outputs.closed
  passed : op ∉ os
  once : todo.Nodup

variable {op : OpId} {todo : List Nat}

/-- The edges of the op that the turn is about. -/
theorem InTurn.sought (hg : Grounds g options ops) (h : InTurn g options ops op os ts todo b)
    {i : Nat} {t : TensorId} (hin : b.graph.inputAt op i = some t) :
    g.Sought options (.along ⟨op, i, t⟩) := by
  have hold := h.orderly.carries.op_old hg.wellWired (hg.upstream.exist op h.mem)
  refine hg.edges _ (mem_readings.2 ⟨h.mem, ?_⟩)
  rwa [inputAt, hold] at hin

/-- Different inputs of one op have gradients with different names. -/
theorem nodup_edgeNames {label : String} {o : Op} {spec : GradSpec Operator}
    {targets : List (Nat × Nat × TensorId)}
    (htargets : Growth.targetTensors label o spec = .ok targets)
    (h : (spec.targets.toList.map Prod.snd).Nodup) (op : OpId) :
    ((Growth.edgeOutputs op targets).map Prod.snd).Nodup := by
  rw [← Growth.map_targetTensors htargets, List.map_map] at h
  rw [Growth.edgeOutputs, List.map_map]
  exact List.pairwise_map.2 ((List.pairwise_map.1 h).imp fun hne heq => hne (edgeGrad_inj heq).2.2)

/-- **Wiring a gradient op** does not fail because of a name. -/
theorem noClash_wiring (hg : Grounds g options ops) {spec : GradSpec Operator}
    (h : InTurn g options ops op os ts (spec.targets.toList.map Prod.snd ++ todo) b) {o : Op}
    (hop : b.graph.op? op = some o)
    (hwired : ∀ x ∈ spec.targets.toList, (o.inputs.get? x.2).isSome) {label : String}
    {e : GradientError} (he : Growth.WiringFails b op label spec e) : e.NoClash := by
  cases he with
  | op => nofun
  | inputs _ he => exact Growth.errsOnly_wiring (fun _ => nofun) _ _ _ e he
  | targets ho' he =>
    cases ho'.symm.trans hop
    exact Growth.errsOnly_targetTensors hwired e he
  | input => nofun
  | @output o' inputs targets x hdraft hx htaken =>
    exfalso
    rcases htaken with hold | hclash
    · obtain ⟨y, hy, -, hindex, hread⟩ :=
        forall₂_mem_right (Growth.targetTensors_eq_ok hdraft.targets) hx
      have hin : b.graph.inputAt op x.2.1 = some x.2.2 := by
        rw [inputAt_eq hdraft.op, hindex]
        exact hread
      -- the edge is one of those to come
      have hcovered : x.2.1 ∈ spec.targets.toList.map Prod.snd ++ todo := by
        rw [hindex]
        exact List.mem_append_left _ (List.mem_map_of_mem hy)
      have hfree := hg.fresh h.tidy (h.sought hg hin) (.inr (.inr ⟨rfl, hcovered⟩))
      rw [← Option.not_isSome_iff_eq_none] at hfree
      exact hfree hold
    · exact hclash (nodup_edgeNames hdraft.targets (List.nodup_append.1 h.once).1 op)

/-- **One gradient op** finds no name taken. -/
theorem growGradOp (hg : Grounds g options ops) {spec : GradSpec Operator}
    (h : InTurn g options ops op os ts (spec.targets.toList.map Prod.snd ++ todo) b) {o : Op}
    (hop : b.graph.op? op = some o)
    (hwired : ∀ x ∈ spec.targets.toList, (o.inputs.get? x.2).isSome)
    (hinfer : ∀ inputs, ErrsOnly GraphError.NoClash (spec.operator.infer inputs))
    (label : String) (phase? : Option Int) :
    Ends (fun e b' => Fails g options e b'.graph)
      (Growth.growGradOp options op label spec phase?) b
      fun _ b' => InTurn g options ops op os ts todo b' := by
  obtain ⟨-, htodo, hdisjoint⟩ := List.nodup_append.1 h.once
  have hsprout := Growth.sprouting_growGradOp options op label spec phase? b
  refine FailsOnly.ends (R := fun b' : Backward => g.Labels options b'.graph) ?_ ?_
    fun _ b' hrun => ?_
  · refine Growth.failsOnly_growGradOp (fun e he => hg.noClash_wiring h hop hwired he)
      (fun _ _ _ _ _ _ _ he => (he.noClash hinfer).graph)
      fun _ _ targets b' hdraft hgrown => ?_
    refine Growth.failsOnly_delivers (fun _ => nofun) fun x hx b'' hb'' => ?_
    refine Growth.failsOnly_inspect (hb'' ▸ hgrown.op_new) (Growth.get?_gradOp hdraft.targets x hx)
      (fun e he => (noClash_typeOf _ _ e he).graph) (fun e he => (noClash_typeOf _ _ e he).graph)
      fun _ _ => nofun
  · refine h.tidy.labels_of_sprouting hsprout ?_
    rintro x ⟨y, -, t, hin, rfl⟩
    exact ⟨_, h.sought hg hin, rfl⟩
  · obtain ⟨horderly, hb⟩ := h.orderly.growGradOp hrun
    rw [hrun] at hsprout
    refine ⟨horderly, ?_, h.mem, hb.closed op h.closed, h.passed, htodo⟩
    refine h.tidy.step (fun d => ?_) hsprout ?_
    · refine Backward.Due.of_advances hb (fun r hr => ?_) fun _ ht => ht
      exact hr.imp_right fun ⟨hr, hi⟩ => ⟨hr, List.mem_append_right _ hi⟩
    · -- the edges that are covered now do not come again
      rintro x ⟨y, hy, t, hin, rfl⟩
      refine ⟨_, h.sought hg hin, rfl, ?_⟩
      rintro (hopen | hos | ⟨-, hi⟩)
      · exact hopen (hb.closed op h.closed)
      · exact h.passed hos
      · exact hdisjoint _ (List.mem_map_of_mem hy) _ hi rfl

/-- **The turn of an op.** -/
theorem growGradOps (hg : Grounds g options ops) (horderly : b.Orderly g ops (op :: os) ts)
    (htidy : b.Tidy g options (fun r => r.op ∈ op :: os) ts) :
    Ends (fun e b' => Fails g options e b'.graph) (Growth.growGradOps options op) b
      fun _ b' => b'.Orderly g ops os ts ∧ b'.Tidy g options (fun r => r.op ∈ os) ts := by
  obtain ⟨hclosed, i, hmem, -⟩ := horderly.taken op List.mem_cons_self
  obtain ⟨o, ho⟩ := Option.isSome_iff_exists.1 (hg.upstream.exist op hmem)
  have hold : ∀ b : Backward, b.Carries g → b.graph.op? op = some o := by
    intro b hb
    rw [hb.op_old hg.wellWired (by simp [ho])]
    exact ho
  have hdiscreet := hg.discreet op hmem o ho b.graph
  have hop := hold b horderly.carries
  refine Growth.ends_growGradOps (E := Fails g options)
    (I := fun rest b' => InTurn g options ops op os ts (Growth.coveredInputs rest) b' ∧
      ∀ spec ∈ rest, (∀ x ∈ spec.targets.toList, (o.inputs.get? x.2).isSome) ∧
        ∀ inputs, ErrsOnly GraphError.NoClash (spec.operator.infer inputs))
    hop ?_ (fun specs hspecs hcheck => ?_) (fun spec rest b' ⟨hb', hrest⟩ => ?_)
    (fun b' ⟨hb', _⟩ => ?_) (fun b' reason ⟨hb', _⟩ => ?_) fun b' l xs ⟨hb', _⟩ hrun => ?_
  · have hfails : FailsOnly GradientError.NoClash (Growth.describe op) b :=
      Growth.failsOnly_describe hop (fun _ => nofun) (fun e he => (hdiscreet.1 e he).graph)
        fun specs _ => Growth.errsOnly_checkSpecs (fun _ => nofun) o specs []
    exact fun e b' hrun => ⟨hfails e b' hrun, htidy.labels⟩
  · obtain ⟨hwired, hnodup, -⟩ := Growth.checkSpecs_targets hcheck
    refine ⟨⟨horderly.next, ?_, hmem, hclosed, (List.nodup_cons.1 horderly.once).1, hnodup⟩,
      fun spec hspec => ⟨hwired spec hspec, hdiscreet.2 specs hspecs spec hspec⟩⟩
    -- only edges that the gradient ops cover are to come, and they are the op's own
    refine htidy.stay rfl fun d => ?_
    refine Backward.Due.of_advances (.refl b) (fun r hr => ?_) fun _ ht => ht
    rcases hr with hr | ⟨hr, -⟩
    · exact List.mem_cons_of_mem op hr
    · exact hr ▸ List.mem_cons_self
  · obtain ⟨hwired, hinfer⟩ := hrest spec List.mem_cons_self
    refine (hg.growGradOp hb' (hold b' hb'.orderly.carries) hwired hinfer _ _).mono
      fun _ b'' hb'' => ⟨hb'', fun s hs => hrest s (List.mem_cons_of_mem spec hs)⟩
  · rw [hold b' hb'.orderly.carries]
    rfl
  · exact ⟨nofun, hb'.tidy.labels⟩
  · obtain ⟨hentered, hb⟩ := hb'.orderly.waives hrun
    refine ⟨hentered, hb'.tidy.stay rfl fun d => ?_⟩
    exact Backward.Due.of_advances hb (fun r hr => .inl hr) fun _ ht => ht

/-- The gradient of a tensor that is read and wanted is sought. -/
theorem sought_of_wanted (hg : Grounds g options ops) (hcarries : b.Carries g) {t : TensorId}
    (hread : g.ReadBy ops t) {x : Tensor} (hx : b.graph.tensor? t = some x)
    (hwanted : Growth.isWanted options x.kind t) : g.Sought options (.complete t) := by
  obtain ⟨op, hop, i, hin⟩ := hread
  obtain ⟨y, hy⟩ := hg.wellWired.input_exists hin
  have hkind := kind?_of_unread (hcarries.tensor t (by simp [hy]))
  refine .inr ⟨⟨⟨op, i, t⟩, hg.edges _ (mem_readings.2 ⟨hop, hin⟩), rfl⟩, ?_⟩
  unfold Wants
  rw [← hkind]
  exact (wants_iff hx).2 hwanted

/-- **The turn of a tensor.** -/
theorem growGradient (hg : Grounds g options ops) {t : TensorId} {xs : List TensorId}
    (horderly : b.Orderly g ops os ((t, xs) :: ts))
    (htidy : b.Tidy g options (fun r => r.op ∈ os) ((t, xs) :: ts)) :
    Ends (fun e b' => Fails g options e b'.graph) (Growth.growGradient options ops t xs) b
      fun _ b' => b'.Orderly g ops os ts ∧ b'.Tidy g options (fun r => r.op ∈ os) ts := by
  have hmem : t ∈ ((t, xs) :: ts).map Prod.fst := List.mem_cons_self
  have hread := horderly.read t (.inr hmem)
  have hwired := horderly.carries.wellWired
  have hsprout := Growth.sprouting_growGradient options ops t xs b
  refine FailsOnly.ends (R := fun b' : Backward => g.Labels options b'.graph) ?_ ?_
    fun _ b' hrun => ?_
  · refine Growth.failsOnly_growGradient (fun _ => nofun)
      (fun _ => Growth.failsOnly_giveUpProducer hwired (fun _ => nofun) fun _ => nofun)
      (fun x hx hwanted _ => Growth.failsOnly_growSum (fun e he => ?_) fun _ _ _ _ he => ?_)
      fun total b₁ hsum => ?_
    · cases he with
      | input => nofun
      | output htaken =>
        have hsought := hg.sought_of_wanted horderly.carries hread hx hwanted
        have hfree := hg.fresh htidy hsought (.inr hmem)
        rw [← Option.not_isSome_iff_eq_none] at hfree
        exact absurd htaken hfree
    · exact (he.noClash (Rule.errsOnly_variadic fun _ => nofun)).graph
    · have hkept := (horderly.drop.growSum hsum).1.carries.wellWired
      exact Growth.failsOnly_tellProducer hkept (fun _ => nofun) fun _ _ _ _ =>
        OutputGradients.failsOnly_insert (fun _ => nofun) _ _ _ _
  · refine htidy.labels_of_sprouting hsprout ?_
    rintro x ⟨rfl, y, hy, hwanted⟩
    exact ⟨.complete t, hg.sought_of_wanted horderly.carries hread hy hwanted, rfl⟩
  · obtain ⟨horderly', hb⟩ := horderly.growGradient hg.wellWired hg.upstream.exist hrun
    rw [hrun] at hsprout
    refine ⟨horderly', htidy.step (fun d => ?_) hsprout ?_⟩
    · exact Backward.Due.of_advances hb (fun _ hr => hr) fun _ ht => List.mem_cons_of_mem t ht
    · -- the turn of the tensor does not come again
      rintro x ⟨rfl, y, hy, hwanted⟩
      refine ⟨.complete t, hg.sought_of_wanted horderly.carries hread hy hwanted, rfl, ?_⟩
      rintro (hawaits | hts)
      · exact horderly.due t hmem (hb.partials.awaits t hawaits)
      · exact (List.nodup_cons.1 horderly.different).1 hts

/-- **A new round.** -/
theorem takeComplete (horderly : b.Orderly g ops [] [])
    (htidy : b.Tidy g options (fun r => r.op ∈ []) []) :
    Backward.Tidy g options (fun r => r.op ∈ b.round.ops) b.round.arrivals b.cleared := by
  refine htidy.stay rfl fun d hdue => ?_
  cases d with
  | complete t =>
    refine .inl ?_
    rcases hdue with hawaits | hts
    · exact b.partials.shifts_takeComplete.awaits t hawaits
    · exact .inr (PartialGradients.mem_takeComplete.1 hts)
  | along r =>
    refine .inl ?_
    rcases hdue with hopen | hos
    · exact fun hclosed => hopen (OutputGradients.mem_closed_takeComplete.2 (.inl hclosed))
    · exact (horderly.heard.complete r.op (Std.ExtTreeSet.mem_toList.1 hos)).1

/-- **The seed.** -/
theorem seed (hg : Grounds g options ops) (type : TensorType) :
    Ends (fun e b' => Fails g options e b'.graph) (Growth.seed options.loss type ops)
      (Backward.start g options.loss ops)
      fun _ b' => b'.Orderly g ops [] [] ∧ b'.Tidy g options (fun r => r.op ∈ []) [] := by
  have hfree : g.tensor? (Naming.grad options.loss) = none := hg.tensor?_name (.complete _)
  -- the only new tensor is the gradient of the loss
  have hnew : ∀ x, ((stateOf (Growth.seed options.loss type ops
      (Backward.start g options.loss ops))).graph.tensor? x).isSome →
      (g.tensor? x).isSome ∨ x = Naming.grad options.loss := by
    intro x hx
    rcases Growth.graph_seed options.loss type ops (Backward.start g options.loss ops) with
      heq | hadd
    · rw [heq] at hx
      exact .inl hx
    · rw [(Edit.addInitialised_eq_ok hadd).1, tensor?_insertTensor] at hx
      split at hx
      · rename_i heq
        exact .inr heq
      · exact .inl hx
  refine FailsOnly.ends (R := fun b' : Backward => g.Labels options b'.graph) ?_ ?_
    fun _ b' hrun => ?_
  · refine Growth.failsOnly_seed (fun htaken => ?_) (fun _ _ _ => nofun) fun g' hadd => ?_
    · have htaken : (g.tensor? (Naming.grad options.loss)).isSome := htaken
      rw [hfree] at htaken
      cases htaken
    · exact Growth.failsOnly_tellProducer (Backward.extends_start ops hg.wellWired hadd).wellWired
        (fun _ => nofun) fun _ _ _ _ => OutputGradients.failsOnly_insert (fun _ => nofun) _ _ _ _
  · intro x hx
    exact (hnew x hx).imp_right fun heq => ⟨.complete options.loss, .inl rfl, heq⟩
  · obtain ⟨horderly, hpartials⟩ := Backward.Orderly.seed hg.wellWired hg.upstream.exist hrun
    rw [hrun] at hnew
    refine ⟨horderly, fun x hx => (hnew x hx).imp_right fun heq => ?_⟩
    refine ⟨.complete options.loss, .inl rfl, heq, ?_⟩
    -- no op upstream reads the loss, so it has no turn of its own
    rintro (hawaits | hts)
    · exact hg.upstream.unread (horderly.read _ (.inl hawaits))
    · cases hts

/-- **The whole backward graph.** -/
theorem growth (hg : Grounds g options ops) (type : TensorType) (rounds : Nat) :
    Ends (fun e b' => Fails g options e b'.graph) (do
        Growth.seed options.loss type ops
        Growth.propagate options ops rounds)
      (Backward.start g options.loss ops) fun _ b' => g.Labels options b'.graph := by
  refine (hg.seed type).bind fun _ b hb => ?_
  refine (Growth.ends_propagate
    (I := fun os ts b => b.Orderly g ops os ts ∧ b.Tidy g options (fun r => r.op ∈ os) ts)
    (fun b ⟨horderly, htidy⟩ => ⟨horderly.takeComplete, takeComplete horderly htidy⟩)
    (fun op os ts b ⟨horderly, htidy⟩ => hg.growGradOps horderly htidy)
    (fun x ts b ⟨horderly, htidy⟩ => hg.growGradient horderly htidy) rounds hb).mono
    fun _ b' ⟨_, htidy⟩ => htidy.labels

end Naming.Grounds

/-! ## Section 4: Differentiation -/

/-- **Differentiation of a model finds no name taken**, whatever operators the
    catalogue offers, as long as they complain of no names themselves and no
    tensor is called like an edge.  The names of the gradients that the loss
    calls for are different from each other and from all names in the graph, and
    every new tensor has one of them, also when differentiation fails. -/
theorem Model.differentiate_without_clash {m : Model} {catalogue : Catalogue} {g : Graph}
    (hbuild : m.build catalogue = .ok g) (options : GradientOptions)
    (hdiscreet : ∀ op o, g.op? op = some o → o.Discreet op) (hnames : g.Unambiguous options) :
    (∀ t g', Graph.differentiate options g ≠ .error (.graph (.duplicateTensor t)) g') ∧
    (∀ d d', g.Sought options d → g.Sought options d' → d.name = d'.name → d = d') ∧
    (∀ d, g.Sought options d → g.tensor? d.name = none) ∧
    ∀ x, ((stateOf (Graph.differentiate options g)).tensor? x).isSome →
      (g.tensor? x).isSome ∨ ∃ d, g.Sought options d ∧ x = d.name := by
  have hbuilds := (Model.build_eq_ok hbuild).1
  have hlayered := hbuilds.layered
  have hwired := hlayered.wellWired
  have hunreserved := hbuilds.pristine.names
  have hends : Ends (Naming.Grounds.Fails g options) (Graph.differentiate options) g
      fun _ g' => g.Labels options g' := by
    refine Graph.ends_differentiate (fun e he => ⟨(g.errsOnly_lossProducer _ e he).noClash,
      fun x hx => .inl hx⟩) fun type p hloss rounds => ?_
    have hp := (Graph.lossProducer_eq_ok hloss).1
    have hops : g.upstreamOf options.loss = g.opsToward p := by simp [upstreamOf, hp]
    have hgrounds : Naming.Grounds g options (g.opsToward p) := {
      wellWired := hwired
      upstream := hwired.upstream hlayered.acyclic_feeds hp
      edges := fun r hr => hwired.mem_readings_upstreamOf.1 (by rwa [hops])
      unreserved := hunreserved
      unambiguous := hnames
      discreet := fun op _ o ho => hdiscreet op o ho }
    exact hgrounds.growth type rounds
  refine ⟨fun t g' hrun => (hends.error _ g' hrun).1 t rfl,
    fun d d' hd hd' hname => hnames.name_inj hd hd' hname, fun d _ => ?_, ?_⟩
  · rw [← Option.not_isSome_iff_eq_none]
    intro hsome
    have hreserved := hunreserved _ hsome
    rw [d.isReserved_name] at hreserved
    cases hreserved
  · exact (Ends.stateOf ⟨hends.ok, fun e s h => (hends.error e s h).2⟩ :
      g.Labels options (stateOf (Graph.differentiate options g)))

/-- A weight that is read twice. -/
def reusedWeight : Model where
  inputs := [⟨"x", .f32, [2]⟩]
  initials := [{ id := "w", kind := .var, element := .f32, shape := [2] }]
  nodes := [
    { opType := "Mul", inputs := ["x", "w"], outputs := ["y"] },
    { opType := "Add", inputs := ["y", "w"], outputs := ["z"] },
    { opType := "L1", inputs := ["z"], outputs := ["loss"] }]

theorem reusedWeight_without_clash : ∃ g, reusedWeight.build .builtin = .ok g ∧
    (∀ t g', Graph.differentiate { loss := "loss" } g ≠ .error (.graph (.duplicateTensor t)) g') ∧
    (∀ d d', g.Sought { loss := "loss" } d → g.Sought { loss := "loss" } d' →
      d.name = d'.name → d = d') ∧
    (∀ d, g.Sought { loss := "loss" } d → g.tensor? d.name = none) ∧
    ∀ x, ((stateOf (Graph.differentiate { loss := "loss" } g)).tensor? x).isSome →
      (g.tensor? x).isSome ∨ ∃ d, g.Sought { loss := "loss" } d ∧ x = d.name := by
  have hok : (reusedWeight.build .builtin).isOk = true := by decide +kernel
  have hplain : ∀ g ∈ (reusedWeight.build .builtin).toOption, ∀ t ∈ g.tensorIds,
      '_' ∉ t.toList := by
    decide +kernel
  obtain ⟨g, hg⟩ := except_isOk_iff.1 hok
  have hbuilds := (Model.build_eq_ok hg).1
  refine ⟨g, hg, Model.differentiate_without_clash hg _ (fun op o ho => ?_)
    (unambiguous_of_plain hbuilds.layered.wellWired (hplain g (by rw [hg]; rfl)))⟩
  obtain ⟨d, hd⟩ := hbuilds.operator ho
  obtain ⟨b, hb⟩ := Catalogue.create_builtin hd
  exact b.discreet hb op

/-- A tensor that is called like the edge from which it comes. -/
def edgeNamedTensor : Model where
  initials := [{ id := "x", kind := .var, element := .f32, shape := [2] }]
  nodes := [
    { opType := "Identity", inputs := ["x"], outputs := ["x_0_0"] },
    { opType := "L1", inputs := ["x_0_0"], outputs := ["loss"] }]

/-- The complete gradient of that tensor takes the name of the partial one along
    the edge. -/
theorem edgeNamedTensor_clash : ∃ g g', edgeNamedTensor.build .builtin = .ok g ∧
    Graph.differentiate { loss := "loss" } g = .error (.graph (.duplicateTensor "d__x_0_0")) g' := by
  have hok : (edgeNamedTensor.build .builtin).isOk = true := by decide +kernel
  have hall : ∀ g ∈ (edgeNamedTensor.build .builtin).toOption,
      (match Graph.differentiate { loss := "loss" } g with
      | .ok _ _ => false
      | .error e _ => e = .graph (.duplicateTensor "d__x_0_0")) = true := by
    decide +kernel
  obtain ⟨g, hg⟩ := except_isOk_iff.1 hok
  have hrun := hall g (by rw [hg]; rfl)
  cases hdiff : Graph.differentiate { loss := "loss" } g with
  | ok report g' =>
    rw [hdiff] at hrun
    cases hrun
  | error e g' =>
    rw [hdiff] at hrun
    have he : e = .graph (.duplicateTensor "d__x_0_0") := of_decide_eq_true hrun
    exact ⟨g, g', hg, he ▸ hdiff⟩

end Dataflow
