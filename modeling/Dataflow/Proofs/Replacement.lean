import Dataflow.Proofs.Reachability

/-! # Replacing a tensor

    To put one tensor in the place of another, the inputs that read the old
    one are wired to the new one, one after the other.  Each of these wires may
    be refused.  The wire that is refused leaves no trace, but those before it
    have been moved by then, and nothing moves them back.

    So a replacement that succeeds has moved all readers (`Graph.Replaced`),
    and one that is refused has moved a first part of them.  It is all or
    nothing exactly if the first wire is the one that is refused. -/

namespace Dataflow

open Dataflow.Graph

variable {g g' g'' : Graph} {old new : TensorId}

/-! ## Section 1: Moving wires -/

namespace Graph

/-- The inputs in `ports` are wired to `tensor`, and no other wire is different. -/
structure Moved (ports : List (OpId × Nat)) (tensor : TensorId) (g g' : Graph) : Prop where
  inputAt : ∀ o i, g'.inputAt o i = if (o, i) ∈ ports then some tensor else g.inputAt o i
  outputAt : ∀ o i, g'.outputAt o i = g.outputAt o i
  parts : SameParts g g'

namespace Moved

variable {ports ports' : List (OpId × Nat)} {tensor : TensorId}

theorem refl (tensor : TensorId) (g : Graph) : Moved [] tensor g g where
  inputAt _ _ := by simp
  outputAt _ _ := rfl
  parts := ⟨fun _ => rfl, fun _ => rfl, rfl, rfl, rfl, rfl⟩

theorem trans (h : Moved ports tensor g g') (h' : Moved ports' tensor g' g'') :
    Moved (ports ++ ports') tensor g g'' where
  inputAt o i := by
    rw [h'.inputAt, h.inputAt]
    by_cases hp : (o, i) ∈ ports <;> by_cases hp' : (o, i) ∈ ports' <;> simp [hp, hp']
  outputAt o i := (h'.outputAt o i).trans (h.outputAt o i)
  parts := h.parts.trans h'.parts

end Moved

end Graph

namespace Edit

/-- **One wire** that is accepted. -/
theorem moved_of_connectInput {op : OpId} {index : Nat} {tensor : TensorId} {u : Unit}
    (h : connectInput op index tensor g = .ok u g') : Moved [(op, index)] tensor g g' := by
  obtain ⟨o, x, ho, -, hrun⟩ := connectInput_eq_ok h
  have hop : (g.op? op).isSome := by simp [ho]
  -- settling the op anew changes types and marks only
  have hretyped : Retyped (g.wireInput op index (o.inputs.get? index) tensor) g' := by
    by_cases hs : o.isSettled
    · simp only [hs, if_true] at hrun
      exact retyped_settle hrun
    · simp only [hs] at hrun
      exact hrun ▸ .refl _
  refine ⟨fun p i => ?_, fun p i => ?_, connectInput_sameParts h⟩
  · rw [hretyped.inputAt, inputAt_wireInput hop]
    simp
  · rw [hretyped.outputAt, outputAt_wireInput]

/-- **All wires**, one after the other. -/
theorem moved_of_forM {ports : List (OpId × Nat)} {tensor : TensorId} {u : Unit}
    (h : ports.forM (fun port => connectInput port.1 port.2 tensor) g = .ok u g') :
    Moved ports tensor g g' := by
  induction ports generalizing g with
  | nil =>
    obtain ⟨-, rfl⟩ := pure_eq_ok.1 h
    exact .refl tensor g
  | cons port rest ih =>
    obtain ⟨_, g₁, hport, hrest⟩ := forM_cons_eq_ok.1 h
    exact (moved_of_connectInput hport).trans (ih hrest)

/-- The listed ports are all inputs that read the tensor. -/
theorem mem_readingPorts (hg : g.WellWired) {tensor : TensorId} {o : OpId} {i : Nat} :
    (o, i) ∈ readingPorts tensor g ↔ g.inputAt o i = some tensor := by
  unfold readingPorts
  rw [List.mem_flatMap]
  constructor
  · rintro ⟨op, -, hmem⟩
    split at hmem
    · rename_i x hx
      obtain ⟨j, hj, heq⟩ := List.mem_map.1 hmem
      cases heq
      exact inputAt_eq_some.2 ⟨x, hx, Ports.mem_indices.1 hj⟩
    · cases hmem
  · intro hi
    obtain ⟨x, hx, hget⟩ := inputAt_eq_some.1 hi
    refine ⟨o, hg.reader_iff.2 ⟨i, hi⟩, ?_⟩
    rw [hx]
    exact List.mem_map.2 ⟨i, Ports.mem_indices.2 hget, rfl⟩

/-! ## Section 2: How a replacement ends -/

theorem replaceTensor_eq_ok {u : Unit} (h : replaceTensor old new g = .ok u g') :
    ∃ g₁, (readingPorts old g).forM (fun port => connectInput port.1 port.2 new) g = .ok () g₁ ∧
      g' = { g₁ with outputs := g₁.outputs.map fun id => if id = old then new else id } := by
  obtain ⟨_, -, h⟩ := ask_bind_eq_ok.1 h
  obtain ⟨_, -, h⟩ := ask_bind_eq_ok.1 h
  obtain ⟨ports, hports, h⟩ := ask_bind_eq_ok.1 h
  cases hports
  obtain ⟨_, g₁, hloop, hchange⟩ := bind_eq_ok.1 h
  exact ⟨g₁, hloop, change_eq_ok.1 hchange⟩

/-- A replacement is refused because one of the tensors is not there, or
    because one of the wires is refused. -/
theorem replaceTensor_eq_error {e : GraphError} (h : replaceTensor old new g = .error e g') :
    g' = g ∧ (g.tensor? new = none ∨ g.tensor? old = none) ∨
    (readingPorts old g).forM (fun port => connectInput port.1 port.2 new) g = .error e g' := by
  have hmissing : ∀ {t : TensorId} {e' : GraphError}, ask (·.requireTensor t) g = .error e' g' →
      g' = g ∧ g.tensor? t = none := by
    intro t e' hask
    refine ⟨ask_eq_error hask, ?_⟩
    cases ht : g.tensor? t with
    | none => rfl
    | some x =>
      simp only [ask, requireTensor, ht] at hask
      cases hask
  rcases bind_eq_error.1 h with hask | ⟨x, g₁, hask, h⟩
  · exact .inl ⟨(hmissing hask).1, .inl (hmissing hask).2⟩
  obtain ⟨-, rfl⟩ := ask_eq_ok.1 hask
  rcases bind_eq_error.1 h with hask | ⟨y, g₁, hask, h⟩
  · exact .inl ⟨(hmissing hask).1, .inr (hmissing hask).2⟩
  obtain ⟨-, rfl⟩ := ask_eq_ok.1 hask
  rcases bind_eq_error.1 h with hask | ⟨ports, g₁, hask, h⟩
  · cases hask
  obtain ⟨hports, rfl⟩ := ask_eq_ok.1 hask
  cases hports
  rcases bind_eq_error.1 h with hloop | ⟨_, g₁, -, hchange⟩
  · exact .inr hloop
  · cases hchange

end Edit

namespace Graph

/-- Every input that read `old` reads `new`, `new` stands for `old` among the
    declared outputs, and nothing else about the wiring is different. -/
structure Replaced (old new : TensorId) (g g' : Graph) : Prop where
  reads : ∀ o i, g'.inputAt o i = some new ↔
    g.inputAt o i = some old ∨ g.inputAt o i = some new
  others : ∀ o i, g.inputAt o i ≠ some old → g'.inputAt o i = g.inputAt o i
  outputAt : ∀ o i, g'.outputAt o i = g.outputAt o i
  unread : old ≠ new → g'.readers old = []
  parts : SameParts { g with outputs := g.outputs.map fun id => if id = old then new else id } g'

/-- The first input that reads `old`, if there is one, cannot be wired to `new`. -/
def RefusedAtOnce (g : Graph) (old new : TensorId) : Prop :=
  ∀ port ∈ (Edit.readingPorts old g).head?,
    succeeds (Edit.connectInput port.1 port.2 new g) = false

instance (g : Graph) (old new : TensorId) : Decidable (g.RefusedAtOnce old new) :=
  inferInstanceAs (Decidable (∀ port ∈ (Edit.readingPorts old g).head?, _ = _))

/-- **A replacement that succeeds** moves all readers. -/
theorem WellWired.replaced (hg : g.WellWired) {u : Unit}
    (h : Edit.replaceTensor old new g = .ok u g') : g.Replaced old new g' := by
  have hwired : g'.WellWired := (Edit.replaceTensor_wellWired old new).ok hg h
  obtain ⟨g₁, hloop, rfl⟩ := Edit.replaceTensor_eq_ok h
  have hmoved := Edit.moved_of_forM hloop
  -- declarations are no part of the wiring
  have hinput : ∀ o i, g₁.inputAt o i
      = if g.inputAt o i = some old then some new else g.inputAt o i := by
    intro o i
    rw [hmoved.inputAt]
    simp only [Edit.mem_readingPorts hg]
  refine ⟨fun o i => ?_, fun o i hne => ?_, hmoved.outputAt, fun hne => ?_, ?_⟩
  · show g₁.inputAt o i = some new ↔ _
    rw [hinput]
    by_cases hold : g.inputAt o i = some old <;> simp [hold]
  · show g₁.inputAt o i = _
    rw [hinput, if_neg hne]
  · refine List.eq_nil_iff_forall_not_mem.2 fun o ho => ?_
    obtain ⟨i, hi⟩ := hwired.reader_iff.1 ho
    change g₁.inputAt o i = some old at hi
    rw [hinput] at hi
    split at hi
    · exact hne (Option.some.inj hi).symm
    · contradiction
  · have hparts := hmoved.parts
    exact ⟨hparts.op, hparts.kind, hparts.constraints, hparts.inputs,
      congrArg (List.map _) hparts.outputs, hparts.nextOp⟩

theorem WellWired.refusedAtOnce_of_missing (hg : g.WellWired)
    (h : g.tensor? new = none ∨ g.tensor? old = none) : g.RefusedAtOnce old new := by
  intro port hport
  rcases h with hnew | hold
  · -- a wire needs its tensor
    cases hrun : Edit.connectInput port.1 port.2 new g with
    | ok u g₁ =>
      obtain ⟨-, x, -, hx, -⟩ := Edit.connectInput_eq_ok hrun
      rw [hnew] at hx
      cases hx
    | error e g₁ => rfl
  · -- nobody reads what is not there
    have hmem := Edit.mem_readingPorts hg |>.1 (List.mem_of_head? hport)
    obtain ⟨x, hx⟩ := hg.input_exists hmem
    rw [hold] at hx
    cases hx

/-- **A replacement that is refused** has moved the readers up to the wire that
    was refused, and has changed nothing if this was the first one. -/
theorem WellWired.partlyReplaced (hg : g.WellWired) {e : GraphError}
    (h : Edit.replaceTensor old new g = .error e g') :
    ∃ ports, ports <+: Edit.readingPorts old g ∧ Moved ports new g g' ∧
      (g.RefusedAtOnce old new ↔ ports = []) ∧ (ports = [] → g' = g) := by
  rcases Edit.replaceTensor_eq_error h with ⟨rfl, hmissing⟩ | hloop
  · exact ⟨[], List.nil_prefix, .refl new g', ⟨fun _ => rfl,
      fun _ => hg.refusedAtOnce_of_missing hmissing⟩, fun _ => rfl⟩
  · obtain ⟨ports, port, rest, g₁, hports, hdone, hrefused⟩ := forM_stops hloop
    have hwired : g₁.WellWired :=
      (Keeps.forM (fun _ => Edit.connectInput_wellWired _ _ _) ports).ok hg hdone
    obtain rfl := Edit.connectInput_refused hwired hrefused
    have hnil : ports = [] → g' = g := by
      rintro rfl
      exact (pure_eq_ok.1 hdone).2.symm
    refine ⟨ports, ⟨_, hports.symm⟩, Edit.moved_of_forM hdone, ?_, hnil⟩
    cases ports with
    | nil =>
      refine ⟨fun _ => rfl, fun _ first hfirst => ?_⟩
      rw [hports] at hfirst
      cases hfirst
      rw [← hnil rfl, hrefused]
      rfl
    | cons first more =>
      refine ⟨fun hat => ?_, fun hcons => by cases hcons⟩
      -- the first wire was accepted
      obtain ⟨_, g₂, hfirst, -⟩ := forM_cons_eq_ok.1 hdone
      have hfails := hat first (by rw [hports]; rfl)
      rw [hfirst] at hfails
      cases hfails

end Graph

/-! ## Section 3: All or nothing, and when not -/

namespace Workspace

/-- **Replacing a tensor moves all readers, or a first part of them.**
    Whatever calls were made before, a replacement that succeeds moves every
    reader and nothing else.  One that is refused has moved a first part of the
    readers, and leaves the graph as it was exactly if the first wire was the
    one that is refused. -/
theorem unchanged_iff_refusedAtOnce {w : Workspace} (h : w.Reachable) (old new : TensorId) :
    (∀ g', Edit.replaceTensor old new w.graph = .ok () g' → w.graph.Replaced old new g') ∧
    ∀ e g', Edit.replaceTensor old new w.graph = .error e g' →
      (∃ ports, ports <+: Edit.readingPorts old w.graph ∧ Graph.Moved ports new w.graph g') ∧
      (w.graph.RefusedAtOnce old new → g' = w.graph) ∧
      (old ≠ new → g' = w.graph → w.graph.RefusedAtOnce old new) := by
  have hg := h.sound.wellWired
  refine ⟨fun g' hrun => hg.replaced hrun, fun e g' hrun => ?_⟩
  obtain ⟨ports, hports, hmoved, hat, hnil⟩ := hg.partlyReplaced hrun
  refine ⟨⟨ports, hports, hmoved⟩, fun hrefused => hnil (hat.1 hrefused), ?_⟩
  rintro hne rfl
  refine hat.2 (List.eq_nil_iff_forall_not_mem.2 fun ⟨o, i⟩ hport => hne ?_)
  -- a port that was moved would read both tensors
  have hnew := hmoved.inputAt o i
  rw [if_pos hport, (Edit.mem_readingPorts hg).1 (hports.subset hport)] at hnew
  exact Option.some.inj hnew

/-- An activation, a sum and another activation, over streams of two lengths.
    The sum shares an operand with each of the activations. -/
def sharedOperands : Workspace :=
  let calls : List Call := [
    .addInput "a" ⟨.f32, [2]⟩,
    .addInput "b" ⟨.f32, [3]⟩,
    .addInput "c" ⟨.f32, [2]⟩,
    .createOp Builtin.relu.operator {},
    .connectInput 0 0 "a",
    .createOutput 0 0 "p",
    .settle 0,
    .createOp Builtin.add.operator {},
    .connectInput 1 0 "a",
    .connectInput 1 1 "c",
    .createOutput 1 0 "q",
    .settle 1,
    .createOp Builtin.relu.operator {},
    .connectInput 2 0 "c",
    .createOutput 2 0 "r",
    .settle 2,
    .markOutput "a"]
  calls.foldl (fun w c => c.run w) {}

/-- A stream of the same length takes over all readers.  One of another length
    is refused by the sum, which is the first reader of its second operand. -/
theorem sharedOperands_replaced :
    (∃ g', Edit.replaceTensor "a" "c" sharedOperands.graph = .ok () g' ∧
      sharedOperands.graph.Replaced "a" "c" g') ∧
    Edit.readingPorts "c" sharedOperands.graph = [(1, 1), (2, 0)] ∧
    ∃ e, Edit.replaceTensor "c" "b" sharedOperands.graph = .error e sharedOperands.graph := by
  have hreachable : sharedOperands.Reachable := Reachable.run (.start "") _
  have haccepted := eq_ok_of_succeeds
    (show succeeds (Edit.replaceTensor "a" "c" sharedOperands.graph) = true by decide +kernel)
  obtain ⟨e, hrefused⟩ := eq_error_of_fails
    (show succeeds (Edit.replaceTensor "c" "b" sharedOperands.graph) = false by decide +kernel)
  refine ⟨⟨_, haccepted, (unchanged_iff_refusedAtOnce hreachable "a" "c").1 _ haccepted⟩,
    by decide +kernel, e, ?_⟩
  have hsame := ((unchanged_iff_refusedAtOnce hreachable "c" "b").2 _ _ hrefused).2.1
    (by decide +kernel)
  exact hrefused.trans (by rw [hsame])

/-- A stream of another length in the place of the first operand is refused by
    the sum.  By then the activation reads it, and goes on reading it. -/
theorem sharedOperands_partly :
    sharedOperands.Reachable ∧ sharedOperands.graph.inputAt 0 0 = some "a" ∧
    ∃ g', Edit.replaceTensor "a" "b" sharedOperands.graph
        = .error (.inference "Add(1)" "operands must match exactly, got f32[3] and f32[2]") g' ∧
      g' ≠ sharedOperands.graph ∧ g'.inputAt 0 0 = some "b" ∧ g'.inputAt 1 0 = some "a" := by
  have hbefore : sharedOperands.graph.inputAt 0 0 = some "a" := by decide +kernel
  have herror : (match Edit.replaceTensor "a" "b" sharedOperands.graph with
      | .ok _ _ => none
      | .error e g' => some (e, g'.inputAt 0 0, g'.inputAt 1 0)) = some
        (.inference "Add(1)" "operands must match exactly, got f32[3] and f32[2]", some "b",
          some "a") := by
    decide +kernel
  refine ⟨Reachable.run (.start "") _, hbefore, ?_⟩
  cases hrun : Edit.replaceTensor "a" "b" sharedOperands.graph with
  | ok u g' =>
    rw [hrun] at herror
    cases herror
  | error e g' =>
    rw [hrun] at herror
    simp only [Option.some.injEq, Prod.mk.injEq] at herror
    obtain ⟨rfl, hactivation, hsum⟩ := herror
    refine ⟨g', rfl, ?_, hactivation, hsum⟩
    rintro rfl
    exact absurd (hbefore.symm.trans hactivation) (by decide)

end Workspace

end Dataflow
