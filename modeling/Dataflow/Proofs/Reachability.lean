import Dataflow.Proofs.Consistency
import Dataflow.Proofs.Cycles
import Dataflow.Proofs.Fitting
import Dataflow.Proofs.Typing

/-! # What holds in every state that can be reached

    A workspace is a graph with the planner that schedules it.  Its states are
    reached from an empty graph by calls, in any order and with any arguments,
    whether they succeed or fail.

    A call leads from sound states to sound states (`Call.run_sound`), so all
    states that can be reached are sound.  From this follow the integrity of
    the wiring, the validity of every schedule that is given out, and that a
    schedule is refused only where a cycle stands against it. -/

namespace Dataflow

/-! ## Section 1: Calls -/

/-- A graph and its planner. -/
structure Workspace where
  graph : Graph := {}
  planner : Planner := {}

/-- Run a change of the graph and keep what it leaves behind. -/
def Workspace.apply {ε α : Type} (w : Workspace) (change : EStateM ε Graph α) : Workspace :=
  { w with graph := stateOf (change w.graph) }

/-- What can be asked of a workspace. -/
inductive Call where
  | addInput (id : TensorId) (type : TensorType)
  | addStream (id : TensorId) (type : TensorType)
  | addConst (id : TensorId) (type : TensorType) (data : Payload)
  | addVar (id : TensorId) (type : TensorType) (data : Payload)
  | markInput (id : TensorId)
  | markOutput (id : TensorId)
  | removeOutput (id : TensorId)
  | removeTensor (id : TensorId)
  | createOp (operator : Operator) (settings : OpSettings)
  | configure (op : OpId) (f : OpSettings → OpSettings)
  | connectInput (op : OpId) (index : Nat) (tensor : TensorId)
  | disconnectInput (op : OpId) (index : Nat)
  | createOutput (op : OpId) (index : Nat) (tensor : TensorId)
  | connectOutput (op : OpId) (index : Nat) (tensor : TensorId)
  | disconnectOutput (op : OpId) (index : Nat)
  | disconnectAll (op : OpId)
  | settle (op : OpId)
  | eraseOp (op : OpId)
  | replaceTensor (old new : TensorId)
  | addConstraint (before after : OpId)
  | orderWriters
  | setOptions (options : ScheduleOptions)
  /-- Ask for an order of all ops. -/
  | schedule (extra : ExtraOrder) (optimal : Bool) (chance : Chance)
  /-- Pin the annealed order of all ops by constraints. -/
  | freeze (extra : ExtraOrder) (chance : Chance)
  | prune (targets : List TensorId)
  | removeIsolated (retainVars retainConsts : Bool)
  | differentiate (options : GradientOptions)

/-- The state that a call leaves behind, whether it succeeds or fails. -/
def Call.run (w : Workspace) : Call → Workspace
  | addInput id type => w.apply (Edit.addInput id type)
  | addStream id type => w.apply (Edit.addStream id type)
  | addConst id type data => w.apply (Edit.addConst id type data)
  | addVar id type data => w.apply (Edit.addVar id type data)
  | markInput id => w.apply (Edit.markInput id)
  | markOutput id => w.apply (Edit.markOutput id)
  | removeOutput id => w.apply (Edit.removeOutput id)
  | removeTensor id => w.apply (Edit.removeTensor id)
  | createOp operator settings => w.apply (Edit.createOp operator settings)
  | configure op f => w.apply (Edit.configure op f)
  | connectInput op index tensor => w.apply (Edit.connectInput op index tensor)
  | disconnectInput op index => w.apply (Edit.disconnectInput op index)
  | createOutput op index tensor => w.apply (Edit.createOutput op index tensor)
  | connectOutput op index tensor => w.apply (Edit.connectOutput op index tensor)
  | disconnectOutput op index => w.apply (Edit.disconnectOutput op index)
  | disconnectAll op => w.apply (Edit.disconnectAll op)
  | settle op => w.apply (Edit.settle op)
  | eraseOp op => w.apply (Edit.eraseOp op)
  | replaceTensor old new => w.apply (Edit.replaceTensor old new)
  | addConstraint before after => w.apply (Edit.addConstraint before after)
  | orderWriters => w.apply Edit.orderWriters
  | setOptions options => { w with planner := w.planner.setOptions options }
  | schedule extra optimal chance =>
    { w with planner := (w.planner.scheduleGraph w.graph extra optimal chance).2 }
  | freeze extra chance =>
    match w.planner.freeze w.graph extra chance with
    | (.ok graph, planner) => { graph, planner }
    | (.error _, planner) => { w with planner }
  | prune targets => w.apply (Graph.prune targets)
  | removeIsolated retainVars retainConsts =>
    w.apply (Edit.removeIsolated retainVars retainConsts)
  | differentiate options => w.apply (Graph.differentiate options)

namespace Workspace

/-- The states that calls lead to, from an empty graph of any scope. -/
inductive Reachable : Workspace → Prop where
  | start (scope : String) : Reachable { graph := { scope := scope } }
  | call {w : Workspace} (c : Call) (h : Reachable w) : Reachable (c.run w)

/-! ## Section 2: What every call keeps -/

end Workspace

/-- Every call but a replacement keeps the property.  Pinning an order may rely
    on a planner that remembers one. -/
structure KeptByOtherCalls (P : Graph → Prop) : Prop extends KeptByEdits P where
  addStream : ∀ id type, Keeps P (Edit.addStream id type)
  addInput : ∀ id type, Keeps P (Edit.addInput id type)
  markInput : ∀ id, Keeps P (Edit.markInput id)
  markOutput : ∀ id, Keeps P (Edit.markOutput id)
  removeOutput : ∀ id, Keeps P (Edit.removeOutput id)
  configure : ∀ op f, Keeps P (Edit.configure op f)
  connectOutput : ∀ op index tensor, Keeps P (Edit.connectOutput op index tensor)
  addConstraint : ∀ before after, Keeps P (Edit.addConstraint before after)
  orderWriters : Keeps P Edit.orderWriters
  freeze : ∀ {planner planner' : Planner} {g g' : Graph} {extra : ExtraOrder} {chance : Chance},
    planner.Sound → g.WellWired → planner.freeze g extra chance = (.ok g', planner') →
    P g → P g'

/-- Every call keeps the property. -/
structure KeptByCalls (P : Graph → Prop) : Prop extends KeptByOtherCalls P where
  replaceTensor : ∀ old new, Keeps P (Edit.replaceTensor old new)

theorem keptByCalls_fitted : KeptByCalls Graph.Fitted where
  toKeptByEdits := keptByEdits_fitted
  addStream := Edit.addStream_fitted
  addInput := Edit.addInput_fitted
  markInput := Edit.markInput_fitted
  markOutput := Edit.markOutput_fitted
  removeOutput := Edit.removeOutput_fitted
  configure := Edit.configure_fitted
  connectOutput := Edit.connectOutput_fitted
  replaceTensor := Edit.replaceTensor_fitted
  addConstraint := Edit.addConstraint_fitted
  orderWriters := Edit.orderWriters_fitted
  freeze _ _ h hg := hg.of_ops (Planner.parts_freeze h).1

theorem keptByCalls_wellTyped : KeptByCalls Graph.WellTyped where
  toKeptByEdits := keptByEdits_wellTyped
  addStream := Edit.addStream_wellTyped
  addInput := Edit.addInput_wellTyped
  markInput := Edit.markInput_wellTyped
  markOutput := Edit.markOutput_wellTyped
  removeOutput := Edit.removeOutput_wellTyped
  configure := Edit.configure_wellTyped
  connectOutput := Edit.connectOutput_wellTyped
  replaceTensor := Edit.replaceTensor_wellTyped
  addConstraint := Edit.addConstraint_wellTyped
  orderWriters := Edit.orderWriters_wellTyped
  freeze hp hw h hg := ⟨(hp.freeze hw h).2 _ rfl,
    hg.typed.of_parts (Planner.parts_freeze h).1 (Planner.parts_freeze h).2⟩

namespace Workspace

/-- **One call** keeps what every call but a replacement keeps, and a
    replacement has to be looked at where it is made. -/
theorem Call.run_keeps_of {P : Graph → Prop} (hP : KeptByOtherCalls P) {w : Workspace}
    (hplanner : w.planner.Sound) (hwired : w.graph.WellWired) (h : P w.graph) (c : Call)
    (hreplace : ∀ old new, c = .replaceTensor old new →
      P (stateOf (Edit.replaceTensor old new w.graph))) :
    P (c.run w).graph := by
  cases c with
  | addInput id type => exact hP.addInput id type _ h
  | addStream id type => exact hP.addStream id type _ h
  | addConst id type data =>
    exact Keeps.bind (Edit.keeps_ask _) (fun _ => hP.addInitialised id .const type data) _ h
  | addVar id type data =>
    exact Keeps.bind (Edit.keeps_ask _) (fun _ => hP.addInitialised id .var type data) _ h
  | markInput id => exact hP.markInput id _ h
  | markOutput id => exact hP.markOutput id _ h
  | removeOutput id => exact hP.removeOutput id _ h
  | removeTensor id => exact hP.removeTensor id _ h
  | createOp operator settings => exact hP.createOp operator settings _ h
  | configure op f => exact hP.configure op f _ h
  | connectInput op index tensor => exact hP.connectInput op index tensor _ h
  | disconnectInput op index => exact hP.disconnectInput op index _ h
  | createOutput op index tensor => exact hP.createOutput op index tensor _ h
  | connectOutput op index tensor => exact hP.connectOutput op index tensor _ h
  | disconnectOutput op index => exact hP.disconnectOutput op index _ h
  | disconnectAll op => exact hP.disconnectAll op _ h
  | settle op => exact hP.settle op _ h
  | eraseOp op => exact hP.eraseOp op _ h
  | replaceTensor old new => exact hreplace old new rfl
  | addConstraint before after => exact hP.addConstraint before after _ h
  | orderWriters => exact hP.orderWriters _ h
  | setOptions options => exact h
  | schedule extra optimal chance => exact h
  | freeze extra chance =>
    unfold Call.run
    simp only
    split
    · rename_i hfreeze
      exact hP.freeze hplanner hwired hfreeze h
    · exact h
  | prune targets => exact hP.prune targets _ h
  | removeIsolated retainVars retainConsts =>
    exact hP.removeIsolated retainVars retainConsts _ h
  | differentiate options => exact hP.differentiate options _ h

/-- **One call** keeps what every call keeps. -/
theorem Call.run_keeps {P : Graph → Prop} (hP : KeptByCalls P) {w : Workspace}
    (hplanner : w.planner.Sound) (hwired : w.graph.WellWired) (h : P w.graph) (c : Call) :
    P (c.run w).graph :=
  run_keeps_of hP.toKeptByOtherCalls hplanner hwired h c fun old new _ =>
    hP.replaceTensor old new _ h

/-- The planner goes on remembering an order. -/
theorem Call.run_planner {w : Workspace} (hplanner : w.planner.Sound) (hwired : w.graph.WellWired)
    (c : Call) : (c.run w).planner.Sound := by
  cases c with
  | setOptions options => exact hplanner.setOptions options
  | schedule extra optimal chance => exact (hplanner.scheduleGraph hwired rfl).1
  | freeze extra chance =>
    unfold Call.run
    simp only
    split
    · rename_i hfreeze
      exact (hplanner.freeze hwired hfreeze).1
    · rename_i hfreeze
      exact (hplanner.freeze hwired hfreeze).1
  | _ => exact hplanner

/-- The graph is well wired, its settled ops fit their operators and have
    types at all ports, and the planner remembers an order. -/
structure Sound (w : Workspace) : Prop where
  wellWired : w.graph.WellWired
  fitted : w.graph.Fitted
  typed : w.graph.Typed
  planner : w.planner.Sound

theorem sound_start (scope : String) : Sound { graph := { scope := scope } } where
  wellWired := Graph.wellWired_empty scope
  fitted op o ho := by simp [Graph.op?] at ho
  typed op t hs := by simp [Graph.isSettled, Graph.op?] at hs
  planner := Planner.sound_empty {}

/-- **One call** leads from sound states to sound states. -/
theorem Call.run_sound {w : Workspace} (h : w.Sound) (c : Call) : (c.run w).Sound := by
  have htyped := Call.run_keeps keptByCalls_wellTyped h.planner h.wellWired
    ⟨h.wellWired, h.typed⟩ c
  exact {
    wellWired := htyped.wellWired
    fitted := Call.run_keeps keptByCalls_fitted h.planner h.wellWired h.fitted c
    typed := htyped.typed
    planner := Call.run_planner h.planner h.wellWired c }

/-- **Whole runs** only meet sound states. -/
theorem Reachable.sound {w : Workspace} (h : w.Reachable) : w.Sound := by
  induction h with
  | start scope => exact sound_start scope
  | call c _ ih => exact Call.run_sound ih c

/-- **Whole runs** keep what every call keeps. -/
theorem Reachable.run_keeps {P : Graph → Prop} (hP : KeptByCalls P) {w : Workspace}
    (hw : w.Reachable) (h : P w.graph) (calls : List Call) :
    P (calls.foldl (fun w c => c.run w) w).graph := by
  induction calls generalizing w with
  | nil => exact h
  | cons c rest ih =>
    exact ih (hw.call c) (Call.run_keeps hP hw.sound.planner hw.sound.wellWired h c)

/-! ## Section 3: Integrity of the wiring -/

end Workspace

/-- The two ends of all wires agree, and nothing refers to what is not there. -/
structure Graph.Intact (g : Graph) : Prop where
  /-- A tensor counts an op once for each input of the op that is wired to it. -/
  reads : ∀ o t, g.wireCount o t = g.readCount t o
  reads_exist : ∀ o t, 0 < g.wireCount o t → (g.tensor? t).isSome
  /-- A tensor names an op as its producer exactly if the op is there and has
      the tensor at an output. -/
  produces : ∀ t o, g.producer? t = some o ↔
    ∃ x, g.op? o = some x ∧ ∃ i, x.outputs.get? i = some t
  /-- A tensor with a producer is at one output of one op. -/
  one_output : ∀ t o, g.producer? t = some o →
    ∃ i, ∀ o' j, g.outputAt o' j = some t ↔ o' = o ∧ j = i
  computed : ∀ t o, g.producer? t = some o → g.kind? t = some .computed
  constrained : ∀ e ∈ g.constraints.toList, (g.op? e.before).isSome ∧ (g.op? e.after).isSome
  inputs : ∀ t ∈ g.inputs, (g.tensor? t).isSome
  outputs : ∀ t ∈ g.outputs, (g.tensor? t).isSome

theorem Graph.WellWired.intact {g : Graph} (h : g.WellWired) : g.Intact where
  reads := h.reads
  reads_exist o t hpos := by
    obtain ⟨i, hi⟩ := Graph.wireCount_pos.1 hpos
    obtain ⟨x, hx⟩ := h.input_exists hi
    simp [hx]
  produces t o := by
    rw [h.produces]
    simp only [Graph.outputAt_eq_some]
    constructor
    · rintro ⟨i, x, hx, hi⟩
      exact ⟨x, hx, i, hi⟩
    · rintro ⟨x, hx, i, hi⟩
      exact ⟨i, x, hx, hi⟩
  one_output t o ho := by
    obtain ⟨i, hi⟩ := (h.produces t o).1 ho
    refine ⟨i, fun o' j => ⟨fun hj => ?_, ?_⟩⟩
    · exact h.output_inj hj hi
    · rintro ⟨rfl, rfl⟩
      exact hi
  computed := h.computed
  constrained := h.constrained
  inputs t ht := h.declared t (List.mem_append_left _ ht)
  outputs t ht := h.declared t (List.mem_append_right _ ht)

namespace Workspace

/-- **Integrity over whole runs.**  Whatever calls are made, and whether they
    succeed or fail, the wiring of the graph is intact, and the check of the
    graph has nothing to report but computed tensors without a producer. -/
theorem intact_of_reachable {w : Workspace} (h : w.Reachable) :
    w.graph.Intact ∧ ∀ e, w.graph.check = .error e → ∃ t, e = .missingProducer t := by
  refine ⟨h.sound.wellWired.intact, fun e he => ?_⟩
  obtain ⟨t, -, heq, -⟩ := h.sound.wellWired.check_error he
  exact ⟨t, heq⟩

/-- Two inputs of one op read the same stream, a third wire is refused because
    its op is not there, and the op is then ordered ahead of itself in vain. -/
def sharedInput : Workspace :=
  let calls : List Call := [
    .addInput "x" ⟨.f32, [2]⟩,
    .createOp Builtin.add.operator {},
    .connectInput 0 0 "x",
    .connectInput 0 1 "x",
    .createOutput 0 0 "y",
    .settle 0,
    .connectInput 7 0 "x",
    .addConstraint 0 0,
    .markOutput "y"]
  calls.foldl (fun w c => c.run w) {}

theorem Reachable.run {w : Workspace} (h : w.Reachable) (calls : List Call) :
    (calls.foldl (fun w c => c.run w) w).Reachable := by
  induction calls generalizing w with
  | nil => exact h
  | cons c rest ih => exact ih (h.call c)

theorem sharedInput_intact : sharedInput.graph.Intact ∧ sharedInput.graph.wireCount 0 "x" = 2 ∧
    sharedInput.graph.readCount "x" 0 = 2 := by
  have hreachable : sharedInput.Reachable := Reachable.run (.start "") _
  refine ⟨(intact_of_reachable hreachable).1, ?_, ?_⟩
  · decide +kernel
  · decide +kernel

/-- **Validity of schedules.**  Whatever calls were made, whatever chance
    decides and whether the answer comes from memory or not, an order that is
    given out is a valid schedule of the graph. -/
theorem isSchedule_of_reachable {w : Workspace} (h : w.Reachable) {extra : ExtraOrder}
    {optimal : Bool} {chance : Chance} {order : List OpId}
    (hok : (w.planner.scheduleGraph w.graph extra optimal chance).1 = .ok order) :
    w.graph.IsSchedule extra w.planner.options order :=
  (h.sound.planner.scheduleGraph h.sound.wellWired rfl).2 order hok

/-- Two ops in a row, and a third one that a constraint puts between them. -/
def threeOps : Workspace :=
  let calls : List Call := [
    .addInput "x" ⟨.f32, [2]⟩,
    .createOp Builtin.relu.operator {},
    .connectInput 0 0 "x",
    .createOutput 0 0 "y",
    .createOp Builtin.identity.operator {},
    .connectInput 1 0 "x",
    .createOp Builtin.identity.operator {},
    .connectInput 2 0 "y",
    .addConstraint 0 1,
    .addConstraint 1 2]
  calls.foldl (fun w c => c.run w) {}

theorem threeOps_isSchedule : ∃ order,
    (threeOps.planner.scheduleGraph threeOps.graph ∅ true).1 = .ok order ∧
    threeOps.graph.IsSchedule ∅ threeOps.planner.options order ∧
    threeOps.graph.opIds = [0, 1, 2] := by
  have hreachable : threeOps.Reachable := Reachable.run (.start "") _
  have hup : ∀ u ∈ threeOps.graph.opIds, ∀ v ∈ (threeOps.graph.successors u).toList, u < v := by
    decide +kernel
  have hacyclic : Acyclic threeOps.graph.Orders := acyclic_of_lt fun u v huv =>
    hup u (Graph.mem_opIds.2 (hreachable.sound.wellWired.predecessor_exists huv)) v
      (Std.ExtTreeSet.mem_toList.2 huv)
  obtain ⟨order, hok⟩ := Planner.scheduleGraph_eq_ok (p := threeOps.planner)
    hreachable.sound.wellWired hacyclic (Nat.le_refl 1) true (.ofOptions threeOps.planner.options)
  exact ⟨order, hok, isSchedule_of_reachable hreachable hok, by decide +kernel⟩

/-- **Schedules and cycles.**  Whatever calls were made, whatever chance decides
    and whether the answer comes from memory or not, a query that names ops of
    the graph is answered exactly if no cycle stands against it.  A cycle is
    the only answer otherwise, and whether there is a schedule can be asked
    ahead. -/
theorem scheduled_iff_acyclic {w : Workspace} (h : w.Reachable) {extra : ExtraOrder}
    (hextra : w.graph.Names extra) (hphases : w.graph.ValidPhases w.planner.options)
    (optimal : Bool) (chance : Chance) :
    ((w.planner.scheduleGraph w.graph extra optimal chance).1.isOk = true ↔
      Acyclic (w.graph.MustPrecede extra w.planner.options)) ∧
    (∀ e, (w.planner.scheduleGraph w.graph extra optimal chance).1 = .error e →
      ∃ ops, e = .cycle ops) ∧
    (w.graph.isSchedulable extra w.planner.options = true ↔
      (w.planner.scheduleGraph w.graph extra optimal chance).1.isOk = true) := by
  have hverdict := h.sound.planner.scheduleGraph_isOk_iff h.sound.wellWired hextra hphases optimal
    chance
  refine ⟨hverdict, ?_, ?_⟩
  · intro e he
    exact Planner.scheduleGraph_eq_error h.sound.wellWired hextra hphases he
  · exact (h.sound.wellWired.isSchedulable_iff hextra hphases).trans hverdict.symm

/-- Two ops in a row, in the second and the third phase, and one that has no
    phase and reads the same stream. -/
def threePhases : Workspace :=
  let calls : List Call := [
    .addInput "x" ⟨.f32, [2]⟩,
    .createOp Builtin.relu.operator { phase? := some 0 },
    .connectInput 0 0 "x",
    .createOutput 0 0 "y",
    .createOp Builtin.identity.operator { phase? := some 1 },
    .connectInput 1 0 "y",
    .createOp Builtin.identity.operator {},
    .connectInput 2 0 "x",
    .setOptions { phases := 3 }]
  calls.foldl (fun w c => c.run w) {}

/-- The op without a phase can be put ahead of the last one.  The first one
    cannot be put ahead of it, because its phase is higher. -/
theorem threePhases_scheduled :
    (threePhases.planner.scheduleGraph threePhases.graph (.ofList [(1, [2])]) true).1.isOk = true ∧
    ∃ ops, (threePhases.planner.scheduleGraph threePhases.graph (.ofList [(2, [0])]) true).1 =
      .error (.cycle ops) := by
  have hreachable : threePhases.Reachable := Reachable.run (.start "") _
  have hphases : threePhases.graph.ValidPhases threePhases.planner.options := by
    have hall : ∀ op ∈ threePhases.graph.opIds, -1 ≤ threePhases.graph.phaseOf op := by
      decide +kernel
    intro _ op hop
    exact hall op (Graph.mem_opIds.2 hop)
  have hnames : ∀ (v u : OpId), (threePhases.graph.op? v).isSome → (threePhases.graph.op? u).isSome →
      threePhases.graph.Names (.ofList [(v, [u])]) := by
    intro v u hv hu v' us hus
    simp only [Std.ExtTreeMap.ofList_singleton, Std.ExtTreeMap.getElem?_insert,
      Std.ExtTreeMap.getElem?_empty] at hus
    split at hus
    · rename_i heq
      cases hus
      rw [← Std.LawfulEqCmp.eq_of_compare heq]
      simp [hv, hu]
    · cases hus
  refine ⟨?_, ?_⟩
  · have hverdict := scheduled_iff_acyclic hreachable (hnames 1 2 (by decide +kernel)
      (by decide +kernel)) hphases true (.ofOptions threePhases.planner.options)
    exact hverdict.2.2.1 (by decide +kernel)
  · have hverdict := scheduled_iff_acyclic hreachable (hnames 2 0 (by decide +kernel)
      (by decide +kernel)) hphases true (.ofOptions threePhases.planner.options)
    -- the query leads from the first op to the one without a phase, and the phases lead back
    have hus : (Std.ExtTreeMap.ofList [(2, [0])] : ExtraOrder)[2]? = some [0] := by simp
    have hahead : threePhases.graph.MustPrecede (.ofList [(2, [0])]) threePhases.planner.options
        0 2 :=
      .asked (.extra (by decide) hus (by simp))
    have hback : threePhases.graph.MustPrecede (.ofList [(2, [0])]) threePhases.planner.options
        2 0 :=
      .phase (by decide +kernel) (by decide +kernel) (by decide +kernel) (by decide +kernel)
    cases hanswer : (threePhases.planner.scheduleGraph threePhases.graph (.ofList [(2, [0])])
        true).1 with
    | ok order =>
      exact absurd (.tail (.single hahead) hback) (hverdict.1.1 (by rw [hanswer]; rfl) 0)
    | error e =>
      obtain ⟨ops, rfl⟩ := hverdict.2.1 e hanswer
      exact ⟨ops, rfl⟩

end Workspace

end Dataflow
