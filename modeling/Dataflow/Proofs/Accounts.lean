import Mathlib.Data.List.Nodup
import Dataflow.Proofs.Bookkeeping
import Dataflow.Proofs.Refusals

/-! # Accounts of differentiation

    The ledger of partial gradients counts edges, but it does not say which
    ones.  An `Account` does: it lists the readings along which a partial
    gradient has been delivered, and those along which none will ever be.

    An `Audit` is a step of differentiation that keeps an account.  Only two
    of them make an entry, `Audit.insert` and `Audit.waive`, and what the
    audited steps do apart from that is what differentiation does
    (`Graph.closeBooks_audit`). -/

namespace Dataflow

open Dataflow.Graph

/-! ## Section 1: Accounts -/

/-- Which readings have been dealt with, and how, in order of events. -/
structure Account where
  /-- The readings along which a partial gradient has been delivered. -/
  delivered : List Reading := []
  /-- The readings along which none will ever be. -/
  waived : List Reading := []

namespace Account

variable {all : List Reading} {a a' : Account} {r : Reading}

/-- All readings that have been dealt with. -/
def entries (a : Account) : List Reading := a.delivered ++ a.waived

/-- Note that a partial gradient has been delivered. -/
def deliver (r : Reading) (a : Account) : Account := { a with delivered := a.delivered ++ [r] }

/-- Note that there will never be a partial gradient. -/
def waive (r : Reading) (a : Account) : Account := { a with waived := a.waived ++ [r] }

theorem mem_entries : r ∈ a.entries ↔ r ∈ a.delivered ∨ r ∈ a.waived := List.mem_append

theorem entries_deliver (r : Reading) (a : Account) :
    (a.deliver r).entries.Perm (r :: a.entries) := by
  show (a.delivered ++ [r] ++ a.waived).Perm (r :: (a.delivered ++ a.waived))
  rw [List.append_assoc]
  exact List.perm_middle

theorem entries_waive (r : Reading) (a : Account) :
    (a.waive r).entries.Perm (r :: a.entries) := by
  show (a.delivered ++ (a.waived ++ [r])).Perm (r :: (a.delivered ++ a.waived))
  rw [← List.append_assoc]
  exact List.perm_append_singleton r _

/-- No reading is dealt with twice, and none that is not among `all`. -/
structure Proper (all : List Reading) (a : Account) : Prop where
  once : a.entries.Nodup
  known : ∀ r ∈ a.entries, r ∈ all

theorem proper_empty (all : List Reading) : Proper all {} := ⟨List.nodup_nil, nofun⟩

/-- **One more entry** that is not among the entries yet. -/
theorem Proper.enter (h : a.Proper all) (hr : r ∈ all) (hnew : r ∉ a.entries)
    (hperm : a'.entries.Perm (r :: a.entries)) : a'.Proper all where
  once := hperm.nodup_iff.2 (List.nodup_cons.2 ⟨hnew, h.once⟩)
  known := by
    intro s hs
    rcases List.mem_cons.1 (hperm.mem_iff.1 hs) with rfl | hs
    · exact hr
    · exact h.known s hs

/-- As long as a reading has not been dealt with, its tensor waits. -/
theorem Proper.count_lt (h : a.Proper all) (hr : r ∈ all) (hnew : r ∉ a.entries) :
    (readsOf a.delivered r.tensor).length + (readsOf a.waived r.tensor).length
      < (readsOf all r.tensor).length := by
  have hnodup : (readsOf (r :: a.entries) r.tensor).Nodup :=
    (List.nodup_cons.2 ⟨hnew, h.once⟩).filter _
  have hsub : readsOf (r :: a.entries) r.tensor ⊆ readsOf all r.tensor := by
    intro s hs
    obtain ⟨hmem, hst⟩ := mem_readsOf.1 hs
    rcases List.mem_cons.1 hmem with rfl | hmem
    · exact mem_readsOf.2 ⟨hr, hst⟩
    · exact mem_readsOf.2 ⟨h.known s hmem, hst⟩
  have hlength := (hnodup.subperm hsub).length_le
  have hcons : readsOf (r :: a.entries) r.tensor
      = r :: (readsOf a.delivered r.tensor ++ readsOf a.waived r.tensor) := by
    rw [← readsOf_append, ← List.singleton_append, readsOf_append, readsOf_singleton, if_pos rfl]
    rfl
  rw [hcons, List.length_cons, List.length_append] at hlength
  omega

end Account

/-! ## Section 2: What the ledgers accept -/

namespace PartialGradients

variable {l : PartialGradients} {all : List Reading} {a : Account} {taken : List TensorId}
  {r : Reading}

/-- **A delivery** along an edge that has not been dealt with is accepted. -/
theorem Tracks.insert_ok (h : l.Tracks all a.delivered a.waived taken) (hproper : a.Proper all)
    (hr : r ∈ all) (hnew : r ∉ a.entries) :
    ∃ l', PartialGradients.insert r.tensor r.grad l = .ok () l' := by
  have hlt := hproper.count_lt hr hnew
  obtain ⟨hexpected, harrived, -, -⟩ := (h.tracksAt r.tensor).waiting hlt
  -- the name is new: it tells the edges of a tensor apart
  have hname : ¬ (l.arrived r.tensor).contains r.grad = true := by
    rw [harrived, List.contains_iff_mem, List.mem_map]
    rintro ⟨s, hs, hgrad⟩
    have hsr : s = r := Reading.grad_inj hgrad
    subst hsr
    have hmem := (mem_readsOf.1 hs).1
    exact hnew (Account.mem_entries.2 (.inl hmem))
  have hroom : ¬ (l.arrived r.tensor ++ [r.grad]).length
      > (readsOf all r.tensor).length - (readsOf a.waived r.tensor).length := by
    rw [harrived, List.length_append, List.length_map, List.length_singleton]
    omega
  unfold PartialGradients.insert expected?
  simp only [hexpected]
  rw [if_neg hname, if_neg hroom]
  exact ⟨_, rfl⟩

/-- **A waiver** of an edge that has not been dealt with is accepted. -/
theorem Tracks.waive_ok (h : l.Tracks all a.delivered a.waived taken) (hproper : a.Proper all)
    (hr : r ∈ all) (hnew : r ∉ a.entries) :
    ∃ l', PartialGradients.waive r.tensor l = .ok () l' := by
  have hlt := hproper.count_lt hr hnew
  obtain ⟨hexpected, -, -, -⟩ := (h.tracksAt r.tensor).waiting hlt
  obtain ⟨n, hn⟩ : ∃ n, (readsOf all r.tensor).length - (readsOf a.waived r.tensor).length
      = n + 1 := Nat.exists_eq_succ_of_ne_zero (by omega)
  rw [hn] at hexpected
  unfold PartialGradients.waive expected?
  simp only [hexpected]
  exact ⟨_, rfl⟩

end PartialGradients

/-- **Telling** an op that is not done with of a new output is accepted. -/
theorem OutputGradients.Tracks.insert_ok {l : OutputGradients} {needed : OpId → Nat → Prop}
    {told struck : List (OpId × Nat)} {requested retired : List OpId}
    (h : l.Tracks needed told struck requested retired) {op : OpId} {index : Nat} (o : Op)
    (hopen : op ∉ l.closed) (hnew : (op, index) ∉ told) :
    ∃ l', OutputGradients.insert op o index l = .ok () l' := by
  have hclosed : ¬ l.closed.contains op = true := by
    rw [Std.ExtTreeSet.contains_iff_mem]
    exact hopen
  have havailable : ¬ (l.available op).contains index = true := by
    rw [Std.ExtTreeSet.contains_iff_mem, (h.tracksAt op).available hopen]
    exact hnew
  unfold OutputGradients.insert
  rw [if_neg hclosed, if_neg havailable]
  simp only
  split
  · exact ⟨_, rfl⟩
  · exact ⟨_, rfl⟩

/-! ## Section 3: Quiet steps -/

namespace Growth

variable {α β : Type}

/-- The step enters nothing in the ledger of partial gradients, whether it
    succeeds or fails. -/
def Quiet (m : Growth α) : Prop := ∀ l, Keeps (fun b => b.partials = l) m

theorem quiet_pure (a : α) : Quiet (pure a) := fun _ => Keeps.pure a

theorem quiet_throw (e : GradientError) : Quiet (throw e : Growth α) := fun _ => Keeps.throw e

theorem Quiet.bind {m : Growth α} {f : α → Growth β} (hm : Quiet m) (hf : ∀ a, Quiet (f a)) :
    Quiet (m >>= f) := fun l => Keeps.bind (hm l) fun a => hf a l

theorem Quiet.forM {f : α → Growth Unit} (hf : ∀ a, Quiet (f a)) (xs : List α) :
    Quiet (xs.forM f) := fun l => Keeps.forM (fun a => hf a l) xs

theorem quiet_edit (e : Edit α) : Quiet (edit e) := by
  intro l b hb
  unfold edit
  split
  · exact hb
  · exact hb

theorem quiet_ask (question : Graph → Except GraphError α) : Quiet (ask question) :=
  quiet_edit _

theorem quiet_require (test : Except GradientError α) : Quiet (require test) := by
  intro l b hb
  unfold require
  split
  · exact hb
  · exact hb

theorem quiet_updateOutputs (u : OutputGradients.Update α) : Quiet (updateOutputs u) := by
  intro l b hb
  unfold updateOutputs
  split
  · exact hb
  · exact hb

theorem quiet_noteGrown (op : OpId) : Quiet (noteGrown op) := fun _ => Keeps.modify fun _ hb => hb

theorem quiet_noteGrad (tensor grad : TensorId) : Quiet (noteGrad tensor grad) :=
  fun _ => Keeps.modify fun _ hb => hb

theorem quiet_describe (forward : OpId) : Quiet (describe forward) := by
  apply (quiet_ask _).bind
  intro o
  split
  · exact (quiet_throw _).bind fun _ => (quiet_ask _).bind fun _ =>
      (quiet_require _).bind fun _ => quiet_pure _
  · exact (quiet_ask _).bind fun _ => (quiet_require _).bind fun _ => quiet_pure _

theorem quiet_wireGradOp (options : GradientOptions) (forward : OpId) (label : String)
    (spec : GradSpec Operator) (phase? : Option Int) :
    Quiet (wireGradOp options forward label spec phase?) := by
  apply (quiet_ask _).bind
  intro o
  apply Quiet.bind fun _ => Keeps.get
  intro b
  apply (quiet_require _).bind
  intro inputs
  apply (quiet_require _).bind
  intro targets
  apply (quiet_edit _).bind
  intro op
  apply (Quiet.forM (fun _ => quiet_edit _) inputs).bind
  intro _
  apply (Quiet.forM (fun _ => quiet_edit _) targets).bind
  intro _
  exact (quiet_edit _).bind fun _ => quiet_pure _

theorem quiet_settleNew (op : OpId) : Quiet (settleNew op) :=
  (quiet_edit _).bind fun _ => quiet_noteGrown op

theorem quiet_inspect (label : String) (op : OpId) (output : Nat) (tensor : TensorId) :
    Quiet (inspect label op output tensor) := by
  apply (quiet_ask _).bind
  intro expected
  apply (quiet_ask _).bind
  intro o
  split
  · exact quiet_throw _
  · apply (quiet_ask _).bind
    intro found
    split
    · exact (quiet_throw _).bind fun _ => quiet_pure _
    · exact quiet_pure _

theorem quiet_strike (towardLoss : List OpId) (tensor : TensorId) :
    Quiet (strike towardLoss tensor) := by
  apply (quiet_ask _).bind
  intro t
  split
  · exact quiet_pure _
  · split
    · apply (quiet_ask _).bind
      intro o
      apply Quiet.bind fun l => Keeps.mapM (fun _ => quiet_updateOutputs _ l) _
      intro _
      exact quiet_pure _
    · exact quiet_pure _

theorem quiet_tellProducer (towardLoss : List OpId) (tensor : TensorId) :
    Quiet (tellProducer towardLoss tensor) := by
  apply (quiet_ask _).bind
  intro t
  split
  · exact quiet_pure _
  · split
    · exact (quiet_ask _).bind fun o => Quiet.forM (fun _ => quiet_updateOutputs _) _
    · exact quiet_pure _

theorem quiet_growSum (tensor : TensorId) (partials : List TensorId) :
    Quiet (growSum tensor partials) := by
  have hwire : Quiet (wireSum tensor partials) := by
    apply (quiet_ask _).bind
    intro phase?
    apply (quiet_edit _).bind
    intro sum
    apply (Quiet.forM (fun _ => quiet_edit _) _).bind
    intro _
    exact (quiet_edit _).bind fun _ => quiet_pure _
  exact hwire.bind fun sum => (quiet_settleNew sum).bind fun _ =>
    (quiet_noteGrad _ _).bind fun _ => quiet_pure _

/-- Only a tensor without partial gradients leads to further entries. -/
theorem quiet_growGradient (options : GradientOptions) (towardLoss : List OpId)
    (tensor : TensorId) {partials : List TensorId} (hne : partials ≠ []) :
    Quiet (growGradient options towardLoss tensor partials) := by
  apply (quiet_ask _).bind
  intro t
  rw [if_neg fun hempty => hne (List.isEmpty_iff.1 hempty)]
  split
  · apply (quiet_growSum tensor partials).bind
    intro total
    split
    · exact fun _ => Keeps.modify fun _ hb => hb
    · exact fun _ => Keeps.modify fun _ hb => hb
    · exact quiet_tellProducer _ _
    · exact quiet_tellProducer _ _
  · exact quiet_pure _

theorem quiet_seed (loss : TensorId) (type : TensorType) (towardLoss : List OpId) :
    Quiet (seed loss type towardLoss) :=
  (quiet_edit _).bind fun _ => (quiet_noteGrad _ _).bind fun _ => quiet_tellProducer _ _

end Growth

/-! ## Section 4: Audited differentiation -/

/-- A step of differentiation that keeps an account. -/
abbrev Audit := EStateM GradientError (Backward × Account)

namespace Audit

variable {α β : Type}

/-- Take a step, and if it succeeds, make a note in the account. -/
def noting (note : Account → Account) (m : Growth α) : Audit α := fun s =>
  match m s.1 with
  | .ok x b => .ok x (b, note s.2)
  | .error e b => .error e (b, s.2)

/-- Take a step of which the account need not know. -/
def silently (m : Growth α) : Audit α := noting id m

/-- The partial gradient `grad` has arrived along the edge of a reading. -/
def insert (r : Reading) (grad : TensorId) : Audit Unit :=
  noting (Account.deliver r) (Growth.updatePartials (PartialGradients.insert r.tensor grad))

/-- The edge of a reading will never deliver. -/
def waive (r : Reading) : Audit Unit :=
  noting (Account.waive r) (Growth.updatePartials (PartialGradients.waive r.tensor))

/-- Deliver an output of a gradient op along the edge of a reading. -/
def deliver (label : String) (gradOp : OpId) (output : Nat) (r : Reading) : Audit Unit := do
  let grad ← silently (Growth.inspect label gradOp output r.tensor)
  insert r grad

/-- Grow one gradient op of op `forward`. -/
def growGradOp (options : GradientOptions) (forward : OpId) (label : String)
    (spec : GradSpec Operator) (phase? : Option Int) : Audit Unit := do
  let (gradOp, targets) ← silently (Growth.wireGradOp options forward label spec phase?)
  silently (Growth.settleNew gradOp)
  targets.forM fun (output, input, tensor) => deliver label gradOp output ⟨forward, input, tensor⟩

/-- Grow all gradient ops of op `forward`. -/
def growGradOps (options : GradientOptions) (forward : OpId) : Audit Unit := do
  let (o, specs) ← silently (Growth.describe forward)
  specs.forM fun spec => growGradOp options forward (o.label forward) spec o.settings.phase?
  let o ← silently (Growth.ask (·.requireOp forward))
  (Growth.uncovered o specs).forM fun x => waive ⟨forward, x.1, x.2⟩

/-- `tensor` will never have a gradient. -/
def giveUpProducer (towardLoss : List OpId) (tensor : TensorId) : Audit Unit := do
  match ← silently (Growth.strike towardLoss tensor) with
  | none => pure ()
  | some (op, o) => o.inputs.toList.forM fun x => waive ⟨op, x.1, x.2⟩

/-- All partial gradients of `tensor` have arrived. -/
def growGradient (options : GradientOptions) (towardLoss : List OpId) (tensor : TensorId)
    (partials : List TensorId) : Audit Unit :=
  if partials.isEmpty then do
    let _ ← silently (Growth.ask (·.requireTensor tensor))
    giveUpProducer towardLoss tensor
  else silently (Growth.growGradient options towardLoss tensor partials)

/-- The turns of one round. -/
def turns (options : GradientOptions) (towardLoss : List OpId) (r : Growth.Round) : Audit Unit := do
  r.ops.forM (growGradOps options)
  r.arrivals.forM fun x => growGradient options towardLoss x.1 x.2

/-- Grow until nothing is complete any more. -/
def propagate (options : GradientOptions) (towardLoss : List OpId) : (rounds : Nat) → Audit Unit
  | 0 => pure ()
  | rounds + 1 => do
    let r ← silently Growth.takeRound
    if r.isIdle then
      pure ()
    else
      turns options towardLoss r
      propagate options towardLoss rounds

/-- What is left of an audited step when the account is closed. -/
def forget : EStateM.Result GradientError (Backward × Account) α →
    EStateM.Result GradientError Backward α
  | .ok x s => .ok x s.1
  | .error e s => .error e s.1

/-- Apart from the account, `m'` does what `m` does. -/
def Mirrors (m' : Audit α) (m : Growth α) : Prop := ∀ s, forget (m' s) = m s.1

theorem mirrors_noting (note : Account → Account) (m : Growth α) : Mirrors (noting note m) m := by
  intro s
  unfold noting
  cases m s.1 with
  | ok x b => rfl
  | error e b => rfl

theorem mirrors_pure (x : α) : Mirrors (pure x) (pure x) := fun _ => rfl

theorem Mirrors.bind {m' : Audit α} {m : Growth α} {f' : α → Audit β} {f : α → Growth β}
    (hm : Mirrors m' m) (hf : ∀ x, Mirrors (f' x) (f x)) : Mirrors (m' >>= f') (m >>= f) := by
  intro s
  show forget (EStateM.bind m' f' s) = EStateM.bind m f s.1
  have hs := hm s
  unfold EStateM.bind
  cases hrun : m' s with
  | ok x s' =>
    rw [hrun] at hs
    rw [← hs]
    exact hf x s'
  | error e s' =>
    rw [hrun] at hs
    rw [← hs]
    rfl

theorem Mirrors.forM {f' : α → Audit Unit} {f : α → Growth Unit} (hf : ∀ x, Mirrors (f' x) (f x))
    (xs : List α) : Mirrors (xs.forM f') (xs.forM f) := by
  induction xs with
  | nil => exact mirrors_pure _
  | cons x rest ih => exact (hf x).bind fun _ => ih

theorem mirrors_deliver (label : String) (gradOp : OpId) (output : Nat) (r : Reading) :
    Mirrors (deliver label gradOp output r) (Growth.deliver label gradOp output r.tensor) := by
  exact (mirrors_noting _ _).bind fun _ => mirrors_noting _ _

theorem mirrors_growGradOp (options : GradientOptions) (forward : OpId) (label : String)
    (spec : GradSpec Operator) (phase? : Option Int) :
    Mirrors (growGradOp options forward label spec phase?)
      (Growth.growGradOp options forward label spec phase?) := by
  apply (mirrors_noting _ _).bind
  intro (gradOp, targets)
  apply (mirrors_noting _ _).bind
  intro _
  apply Mirrors.forM
  intro (output, input, tensor)
  exact mirrors_deliver label gradOp output ⟨forward, input, tensor⟩

theorem mirrors_growGradOps (options : GradientOptions) (forward : OpId) :
    Mirrors (growGradOps options forward) (Growth.growGradOps options forward) := by
  apply (mirrors_noting _ _).bind
  intro (o, specs)
  apply (Mirrors.forM (fun spec => mirrors_growGradOp options forward _ spec _) specs).bind
  intro _
  apply (mirrors_noting _ _).bind
  intro o
  exact Mirrors.forM (fun _ => mirrors_noting _ _) _

theorem mirrors_giveUpProducer (towardLoss : List OpId) (tensor : TensorId) :
    Mirrors (giveUpProducer towardLoss tensor) (Growth.giveUpProducer towardLoss tensor) := by
  apply (mirrors_noting _ _).bind
  intro result
  cases result with
  | none => exact mirrors_pure _
  | some x =>
    obtain ⟨op, o⟩ := x
    exact Mirrors.forM (fun x => mirrors_noting _ _) o.inputs.toList

theorem mirrors_growGradient (options : GradientOptions) (towardLoss : List OpId)
    (tensor : TensorId) (partials : List TensorId) :
    Mirrors (growGradient options towardLoss tensor partials)
      (Growth.growGradient options towardLoss tensor partials) := by
  unfold growGradient
  split
  · rename_i hempty
    unfold Growth.growGradient
    simp only [hempty, if_true]
    exact (mirrors_noting _ _).bind fun _ => mirrors_giveUpProducer towardLoss tensor
  · exact mirrors_noting _ _

theorem mirrors_turns (options : GradientOptions) (towardLoss : List OpId) (r : Growth.Round) :
    Mirrors (turns options towardLoss r) (Growth.turns options towardLoss r) :=
  (Mirrors.forM (mirrors_growGradOps options) r.ops).bind fun _ =>
    Mirrors.forM (fun x => mirrors_growGradient options towardLoss x.1 x.2) r.arrivals

theorem mirrors_propagate (options : GradientOptions) (towardLoss : List OpId) (rounds : Nat) :
    Mirrors (propagate options towardLoss rounds)
      (Growth.propagate options towardLoss rounds) := by
  induction rounds with
  | zero => exact mirrors_pure _
  | succ rounds ih =>
    refine (mirrors_noting _ _).bind fun r => ?_
    split
    · exact mirrors_pure _
    · exact (mirrors_turns options towardLoss r).bind fun _ => ih

end Audit

namespace Graph

/-- The ops with a data path to a tensor. -/
def upstreamOf (g : Graph) (t : TensorId) : List OpId :=
  match g.producer? t with
  | some op => g.opsToward op
  | none => []

/-- Differentiation with the books open: the graph, the ledgers and the account
    at the end, whether it succeeds or fails. -/
def audit (options : GradientOptions) (g : Graph) :
    EStateM.Result GradientError (Backward × Account) GradientReport :=
  let ops := g.upstreamOf options.loss
  let start := Backward.start g options.loss ops
  match g.lossProducer options.loss with
  | .error e => .error e (start, {})
  | .ok (type, _) =>
    let growth : Audit Unit := do
      Audit.silently (Growth.seed options.loss type ops)
      Audit.propagate options ops (ops.length + start.partials.expected.size + 1)
    match growth (start, {}) with
    | .ok _ s => .ok (s.1.report options) s
    | .error e s => .error e s

/-- What is left of an audit when the books are closed. -/
def closeBooks : EStateM.Result GradientError (Backward × Account) GradientReport →
    EStateM.Result GradientError Graph GradientReport
  | .ok report s => .ok report s.1.graph
  | .error e s => .error e s.1.graph

/-- **The audit is differentiation**, with the books open. -/
theorem closeBooks_audit (options : GradientOptions) (g : Graph) :
    closeBooks (g.audit options) = Graph.differentiate options g := by
  unfold audit Graph.differentiate
  cases hloss : g.lossProducer options.loss with
  | error e => rfl
  | ok x =>
    obtain ⟨type, producer⟩ := x
    have hops : g.upstreamOf options.loss = g.opsToward producer := by
      unfold upstreamOf
      rw [(lossProducer_eq_ok hloss).1]
    simp only [hops]
    generalize Backward.start g options.loss (g.opsToward producer) = start
    have hmirror := (Audit.mirrors_noting id (Growth.seed options.loss type
      (g.opsToward producer))).bind fun _ => Audit.mirrors_propagate options
        (g.opsToward producer) ((g.opsToward producer).length + start.partials.expected.size + 1)
    have hrun := hmirror (start, {})
    rw [← hrun]
    unfold Audit.silently
    split
    · rename_i h
      rw [h]
      rfl
    · rename_i h
      rw [h]
      rfl

end Graph

end Dataflow
