import Mathlib.Data.List.Nodup
import Dataflow.Proofs.Frames
import Dataflow.Proofs.Replacement

/-! # Declarations

    The declared inputs and outputs are lists, and a tensor is declared when it
    stands in them.  Who declares a tensor again changes nothing, so one
    expects each tensor to stand there once.

    For the inputs this is so in all states.  For the outputs there is one
    exception.  A replacement puts the new tensor in the place of the old one,
    and if both were declared, the new one then stands there twice
    (`Call.merges`).  Taking back its declaration then leaves it declared. -/

namespace Dataflow

open Dataflow.Graph

variable {g g' : Graph}

/-! ## Section 1: Inputs -/

namespace Graph

/-- Every declared input is there, and is declared once. -/
structure InputsOnce (g : Graph) : Prop where
  nodup : g.inputs.Nodup
  exist : ∀ t ∈ g.inputs, (g.tensor? t).isSome

theorem frameOnly_inputsOnce : FrameOnly InputsOnce := fun _ _ h hg => {
  nodup := h.inputs ▸ hg.nodup
  exist := fun t ht => h.tensor t (hg.exist t (h.inputs ▸ ht)) }

/-- A tensor that is not declared yet may be declared. -/
theorem InputsOnce.declare (h : g.InputsOnce) {id : TensorId} (hid : (g.tensor? id).isSome)
    (hnew : id ∉ g.inputs) : InputsOnce { g with inputs := g.inputs ++ [id] } where
  nodup := List.concat_eq_append ▸ List.Nodup.concat hnew h.nodup
  exist t ht := by
    rcases List.mem_append.1 ht with ht | ht
    · exact h.exist t ht
    · cases List.mem_singleton.1 ht
      exact hid

theorem InputsOnce.without (h : g.InputsOnce) (id : TensorId) : (Edit.without g id).InputsOnce where
  nodup := h.nodup.filter _
  exist t ht := by
    obtain ⟨ht, hne⟩ := List.mem_filter.1 ht
    rw [Edit.tensor?_without, if_neg (by simpa using hne)]
    exact h.exist t ht

end Graph

namespace Edit

theorem addInput_inputsOnce (id : TensorId) (type : TensorType) :
    Keeps InputsOnce (addInput id type) := by
  have hstream := frameOnly_inputsOnce.addStream id type
  refine Keeps.bind_of (Q := fun _ g => g.InputsOnce ∧ (g.tensor? id).isSome ∧ id ∉ g.inputs)
    (fun g u g' hg h => ?_) (fun g e g' hg h => ?_) fun _ g hg => hg.1.declare hg.2.1 hg.2.2
  · have hkeep := hstream.ok hg h
    obtain ⟨rfl, hfree, -⟩ := addStream_eq_ok h
    -- what is not there yet is not declared
    refine ⟨hkeep, by simp, fun hmem => ?_⟩
    have hthere := hg.exist id hmem
    rw [hfree] at hthere
    cases hthere
  · have hkeep := hstream g hg
    rwa [h] at hkeep

theorem markInput_inputsOnce (id : TensorId) : Keeps InputsOnce (markInput id) := by
  refine keeps_ask_bind fun t g hg ht => ?_
  show InputsOnce (if g.inputs.contains id then g else { g with inputs := g.inputs ++ [id] })
  split
  · exact hg
  · rename_i hnew
    exact hg.declare (by simp [requireTensor_eq_ok.1 ht]) (by simpa using hnew)

end Edit

theorem keptByFrame_inputsOnce : KeptByFrame InputsOnce where
  frame := frameOnly_inputsOnce
  order _ hg := ⟨hg.nodup, hg.exist⟩
  withOp _ _ hg := ⟨hg.nodup, hg.exist⟩
  withoutOp _ hg := ⟨hg.nodup, hg.exist⟩
  without id hg := hg.without id
  addInput := Edit.addInput_inputsOnce
  markInput := Edit.markInput_inputsOnce
  markOutput := keeps_markOutput fun _ hg => ⟨hg.nodup, hg.exist⟩
  removeOutput := keeps_removeOutput fun _ hg => ⟨hg.nodup, hg.exist⟩

theorem keptByCalls_inputsOnce : KeptByCalls InputsOnce where
  toKeptByOtherCalls := keptByFrame_inputsOnce.keptByOtherCalls
  replaceTensor := frameOnly_inputsOnce.replaceTensor fun _ hg => ⟨hg.nodup, hg.exist⟩

/-! ## Section 2: Outputs -/

theorem frameOnly_outputs : FrameOnly fun g => g.outputs.Nodup := by
  intro g g' h hg
  rw [h.outputs]
  exact hg

theorem keptByFrame_outputs : KeptByFrame (fun g => g.outputs.Nodup) where
  frame := frameOnly_outputs
  order _ hg := hg
  withOp _ _ hg := hg
  withoutOp _ hg := hg
  without _ hg := hg.filter _
  addInput := frameOnly_outputs.addInput fun _ hg => hg
  markInput := keeps_markInput fun _ hg => hg
  markOutput id := Keeps.bind (Edit.keeps_ask _) fun _ => Edit.keeps_change fun g hg => by
    split
    · exact hg
    · rename_i hnew
      exact List.concat_eq_append ▸ List.Nodup.concat (by simpa using hnew) hg
  removeOutput id := Keeps.bind (Edit.keeps_ask _) fun _ =>
    Edit.keeps_change fun _ hg => hg.erase id

/-- Putting `new` in the place of `old` keeps a list free of duplicates unless
    both are in it. -/
theorem nodup_map_replace {l : List TensorId} (hl : l.Nodup) (old new : TensorId) :
    (l.map fun id => if id = old then new else id).Nodup ↔ old = new ∨ old ∉ l ∨ new ∉ l := by
  rw [List.nodup_map_iff_inj_on hl]
  constructor
  · intro hinj
    by_contra hboth
    simp only [not_or, not_not] at hboth
    obtain ⟨hne, hold, hnew⟩ := hboth
    exact hne (hinj old hold new hnew (by simp))
  · intro hwhy x hx y hy heq
    by_cases hxold : x = old <;> by_cases hyold : y = old
    · exact hxold.trans hyold.symm
    · simp only [hxold, hyold, if_true, if_false] at heq
      grind
    · simp only [hxold, hyold, if_true, if_false] at heq
      grind
    · simpa only [hxold, hyold, if_false] using heq

namespace Call

/-- Whether the call replaces a declared output by another one. -/
def merges (w : Workspace) : Call → Bool
  | replaceTensor old new =>
    decide (old ≠ new ∧ old ∈ w.graph.outputs ∧ new ∈ w.graph.outputs) &&
      succeeds (Edit.replaceTensor old new w.graph)
  | _ => false

/-- **One replacement** makes duplicates exactly if it merges. -/
theorem run_replaceTensor_outputs {w : Workspace} (hg : w.graph.WellWired)
    (hnodup : w.graph.outputs.Nodup) (old new : TensorId) :
    ((replaceTensor old new).run w).graph.outputs.Nodup ↔
      (replaceTensor old new).merges w = false := by
  show (stateOf (Edit.replaceTensor old new w.graph)).outputs.Nodup ↔ _
  simp only [merges]
  cases hrun : Edit.replaceTensor old new w.graph with
  | ok u g' =>
    rw [stateOf_ok, (hg.replaced hrun).parts.outputs, nodup_map_replace hnodup]
    simp only [succeeds, Bool.and_true, decide_eq_false_iff_not]
    grind
  | error e g' =>
    obtain ⟨ports, -, hmoved, -⟩ := hg.partlyReplaced hrun
    rw [stateOf_error, hmoved.parts.outputs]
    simp [succeeds, hnodup]

/-- **One call** makes duplicates among the outputs exactly if it merges. -/
theorem run_outputs {w : Workspace} (h : w.Sound) (hnodup : w.graph.outputs.Nodup) (c : Call) :
    (c.run w).graph.outputs.Nodup ↔ c.merges w = false := by
  by_cases hreplace : ∃ old new, c = .replaceTensor old new
  · obtain ⟨old, new, rfl⟩ := hreplace
    exact run_replaceTensor_outputs h.wellWired hnodup old new
  · have hkeep := Workspace.Call.run_keeps_of keptByFrame_outputs.keptByOtherCalls h.planner
      h.wellWired hnodup c fun old new heq => absurd ⟨old, new, heq⟩ hreplace
    have hnot : c.merges w = false := by
      cases c with
      | replaceTensor old new => exact absurd ⟨old, new, rfl⟩ hreplace
      | _ => rfl
    exact ⟨fun _ => hnot, fun _ => hkeep⟩

end Call

/-! ## Section 3: Whole runs -/

/-- Taking back the only declaration of an output leaves it undeclared. -/
theorem Edit.outputIndex?_removeOutput {id : TensorId} {u : Unit} (hnodup : g.outputs.Nodup)
    (h : Edit.removeOutput id g = .ok u g') : g'.outputIndex? id = none := by
  obtain ⟨_, -, h⟩ := ask_bind_eq_ok.1 h
  rw [change_eq_ok.1 h]
  exact List.idxOf?_eq_none_iff.2 hnodup.not_mem_erase

namespace Workspace

/-- The states that calls lead to as long as no call merges two outputs. -/
inductive Unmerged : Workspace → Prop where
  | start (scope : String) : Unmerged { graph := { scope := scope } }
  | call {w : Workspace} (c : Call) (h : Unmerged w) (hc : c.merges w = false) :
    Unmerged (c.run w)

theorem Unmerged.reachable {w : Workspace} (h : w.Unmerged) : w.Reachable := by
  induction h with
  | start scope => exact .start scope
  | call c _ _ ih => exact ih.call c

theorem Unmerged.run {w : Workspace} (h : w.Unmerged) {calls : List Call}
    (hcalls : ∀ c ∈ calls, ∀ v, c.merges v = false) :
    (calls.foldl (fun w c => c.run w) w).Unmerged := by
  induction calls generalizing w with
  | nil => exact h
  | cons c rest ih =>
    exact ih (h.call c (hcalls c List.mem_cons_self w)) fun d hd =>
      hcalls d (List.mem_cons_of_mem c hd)

theorem Unmerged.nodup_outputs {w : Workspace} (h : w.Unmerged) : w.graph.outputs.Nodup := by
  induction h with
  | start scope => exact List.nodup_nil
  | call c h hc ih => exact (Call.run_outputs h.reachable.sound ih c).2 hc

theorem Reachable.inputsOnce {w : Workspace} (h : w.Reachable) : w.graph.InputsOnce := by
  induction h with
  | start scope => exact ⟨List.nodup_nil, nofun⟩
  | call c h ih =>
    exact Call.run_keeps keptByCalls_inputsOnce h.sound.planner h.sound.wellWired ih c

/-- **What is declared is declared once, unless two outputs are merged.**
    Whatever calls are made, no input is declared twice.  As long as no
    replacement merges two declared outputs, no output is declared twice, and
    an output whose declaration is taken back is not declared any more.  A
    replacement that merges is also the only call that lets an output be
    declared twice. -/
theorem declared_once {w : Workspace} (h : w.Reachable) :
    w.graph.inputs.Nodup ∧
    (w.Unmerged → w.graph.outputs.Nodup ∧
      ∀ id g', Edit.removeOutput id w.graph = .ok () g' → g'.outputIndex? id = none) ∧
    (w.graph.outputs.Nodup →
      ∀ c : Call, (c.run w).graph.outputs.Nodup ↔ c.merges w = false) := by
  refine ⟨h.inputsOnce.nodup, fun hunmerged => ?_, fun hnodup c => ?_⟩
  · exact ⟨hunmerged.nodup_outputs, fun id g' hrun =>
      Edit.outputIndex?_removeOutput hunmerged.nodup_outputs hrun⟩
  · exact Call.run_outputs h.sound hnodup c

/-- Three streams, of which two are declared as outputs. -/
def declaredStreams : Workspace :=
  let calls : List Call := [
    .addInput "a" ⟨.f32, [2]⟩,
    .addInput "b" ⟨.f32, [2]⟩,
    .addInput "c" ⟨.f32, [2]⟩,
    .markOutput "a",
    .markOutput "b",
    .markOutput "a"]
  calls.foldl (fun w c => c.run w) {}

/-- Replacing an output by the stream that is not declared keeps all apart. -/
theorem declaredStreams_apart :
    ((Call.replaceTensor "a" "c").run declaredStreams).graph.outputs = ["c", "b"] ∧
    (∃ g', Edit.removeOutput "c" ((Call.replaceTensor "a" "c").run declaredStreams).graph
      = .ok () g' ∧ g'.outputIndex? "c" = none) ∧
    ¬ ((Call.replaceTensor "a" "b").run declaredStreams).graph.outputs.Nodup := by
  have hbefore : declaredStreams.Unmerged := Unmerged.run (.start "") (by simp [Call.merges])
  have hafter := hbefore.call (.replaceTensor "a" "c") (by decide +kernel)
  refine ⟨by decide +kernel, ⟨_, eq_ok_of_succeeds (by decide +kernel), ?_⟩, fun hnodup => ?_⟩
  · exact ((declared_once hafter.reachable).2.1 hafter).2 _ _
      (eq_ok_of_succeeds (by decide +kernel))
  · have hmerges := ((declared_once hbefore.reachable).2.2 hbefore.nodup_outputs _).1 hnodup
    exact absurd hmerges (by decide +kernel)

/-- Replacing an output by the other one declares it twice.  Its declaration is
    taken back, and it is still declared. -/
theorem declaredStreams_merged :
    ((Call.replaceTensor "a" "b").run declaredStreams).Reachable ∧
    ((Call.replaceTensor "a" "b").run declaredStreams).graph.outputs = ["b", "b"] ∧
    ∃ g', Edit.removeOutput "b" ((Call.replaceTensor "a" "b").run declaredStreams).graph
        = .ok () g' ∧
      g'.outputIndex? "b" = some 0 := by
  have hreachable : declaredStreams.Reachable := Reachable.run (.start "") _
  exact ⟨hreachable.call _, by decide +kernel, _, eq_ok_of_succeeds (by decide +kernel),
    by decide +kernel⟩

end Workspace

end Dataflow
