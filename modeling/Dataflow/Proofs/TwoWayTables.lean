import Mathlib.Order.Bounds.Defs
import Dataflow.Proofs.Conservation
import Dataflow.Proofs.Descriptions
import Dataflow.Proofs.Writers

/-! # Tables that are asked from both ends

    The ports of an op and the ordering constraints are both written down
    twice, so that they can be asked from either end.  Their types hold the
    proof that both records agree.  Here it is said what they agree on: what
    a table answers after any calls is what the calls alone tell.

    For the ports this is a map from indices to tensors that is changed at one
    index at a time (`Ports.Describes`).  For the constraints it is the pairs
    that were inserted after the last time one of their ends was removed
    (`Constraints.Demands`). -/

namespace Dataflow

/-- What calls do to a view of a state is seen in the view of what they do. -/
theorem Record.after_view {σ τ κ α : Type} {run : κ → σ → α × σ} {run' : κ → τ → α × τ}
    {view : σ → τ} (hview : ∀ c s, run' c (view s) = ((run c s).1, view (run c s).2)) (s : σ)
    (calls : List κ) : after run' (view s) calls
      = ⟨view (after run s calls).state, (after run s calls).log⟩ := by
  induction calls using List.reverseRecOn with
  | nil => rfl
  | append_singleton calls c ih => rw [after_concat, after_concat, ih, call, call, hview]

/-! ## Section 1: Ports -/

namespace Ports

/-- A call on the wiring of one side of an op. -/
inductive Call where
  | put (index : Nat) (tensor : TensorId)
  | take (index : Nat)

/-- Make a call.  The answer is the tensor that was wired at the index. -/
def Call.run : Call → Ports → Option TensorId × Ports
  | .put index tensor, p => p.put index tensor
  | .take index, p => p.take index

/-- The same call on a map from indices to tensors. -/
def Call.runPlain : Call → (Nat → Option TensorId) → Option TensorId × (Nat → Option TensorId)
  | .put index tensor, m => (m index, Function.update m index (some tensor))
  | .take index, m => (m index, Function.update m index none)

/-- All that can be asked of the ports is answered by the map. -/
structure Describes (p : Ports) (m : Nat → Option TensorId) : Prop where
  get? : ∀ i, p.get? i = m i
  indices_sorted : ∀ t, (p.indices t).Pairwise (· < ·)
  mem_indices : ∀ t i, i ∈ p.indices t ↔ m i = some t
  contains : ∀ t, p.contains t ↔ p.indices t ≠ []
  tensors_sorted : p.tensors.Pairwise (· < ·)
  mem_tensors : ∀ t, t ∈ p.tensors ↔ ∃ i, m i = some t
  /-- An index beyond which no word goes has no successor to be the span. -/
  span : (∀ i, m i = none) ∧ p.span = 0 ∨
    ∃ top, IsGreatest {i | (m i).isSome} top ∧ (top + 1 < wordRange → p.span = top + 1)

variable {p : Ports}

/-- **One call**: the ports do what the map does. -/
theorem runPlain_get? (call : Call) (p : Ports) :
    call.runPlain p.get? = ((call.run p).1, (call.run p).2.get?) := by
  cases call with
  | put index tensor =>
    refine Prod.ext (p.take_fst index).symm (funext fun i => ?_)
    exact (Function.update_apply _ _ _ _).trans (p.get?_insert index i tensor).symm
  | take index =>
    refine Prod.ext (p.take_fst index).symm (funext fun i => ?_)
    exact (Function.update_apply _ _ _ _).trans (p.get?_erase index i).symm

/-- **The extent** is one more than the largest wired index. -/
theorem extent_cases (p : Ports) : (∀ i, p.get? i = none) ∧ p.extent = 0 ∨
    ∃ top, IsGreatest {i | (p.get? i).isSome} top ∧ p.extent = top + 1 := by
  cases hlast : p.toList.getLast? with
  | none =>
    refine .inl ⟨fun i => ?_, by rw [extent, hlast]⟩
    rw [List.getLast?_eq_none_iff] at hlast
    rw [Option.eq_none_iff_forall_ne_some]
    intro t hi
    have hmem := mem_toList.2 hi
    rw [hlast] at hmem
    cases hmem
  | some x =>
    have hextent : p.extent = x.1 + 1 := by rw [extent, hlast]
    refine .inr ⟨x.1, ⟨?_, fun i hi => ?_⟩, hextent⟩
    · have hget : p.get? x.1 = some x.2 := mem_toList.1 (List.mem_of_getLast? hlast)
      exact Option.isSome_iff_exists.2 ⟨x.2, hget⟩
    · obtain ⟨t, ht⟩ := Option.isSome_iff_exists.1 hi
      have hlt := lt_extent ht
      omega

/-- **The span** is the extent, as long as that is a word. -/
theorem span_cases (p : Ports) : (∀ i, p.get? i = none) ∧ p.span = 0 ∨
    ∃ top, IsGreatest {i | (p.get? i).isSome} top ∧ (top + 1 < wordRange → p.span = top + 1) := by
  rcases p.extent_cases with ⟨hnone, hextent⟩ | ⟨top, htop, hextent⟩
  · exact .inl ⟨hnone, by rw [span, hextent]; rfl⟩
  · refine .inr ⟨top, htop, fun hword => ?_⟩
    rw [span, hextent]
    exact toWord_of_lt hword

/-- The ports describe their own look-up. -/
theorem describes_get? (p : Ports) : p.Describes p.get? where
  get? _ := rfl
  indices_sorted t := Std.ExtTreeSet.ordered_toList.imp Nat.compare_eq_lt.1
  mem_indices _ _ := mem_indices
  contains t := by
    simp only [contains_iff, ← mem_indices]
    exact ⟨fun ⟨_, hi⟩ => List.ne_nil_of_mem hi, List.exists_mem_of_ne_nil _⟩
  tensors_sorted := by
    have hkeys : p.tensors.Pairwise fun t u => compare t u = .lt := Std.ExtTreeMap.ordered_keys
    exact hkeys.imp fun hlt => compareOfLessAndEq_eq_lt.1 hlt
  mem_tensors _ := mem_tensors
  span := p.span_cases

/-- **Ports are a map from indices to tensors**, whatever calls are made on
    them.  Every call answers with the tensor that was there before. -/
theorem described_by_map (calls : List Call) :
    (Record.after Call.run ∅ calls).log
      = (Record.after Call.runPlain (fun _ => none) calls).log ∧
    (Record.after Call.run ∅ calls).state.Describes
      (Record.after Call.runPlain (fun _ => none) calls).state := by
  -- the look-up is a view, and calls on the ports show in it as calls on a map
  have hempty : (∅ : Ports).get? = fun _ => none := funext get?_empty
  rw [← hempty, Record.after_view runPlain_get?]
  exact ⟨rfl, describes_get? _⟩

-- an index that is wired to another tensor is lost to the first one
example : (Record.after Call.run ∅ [.put 0 "a", .put 2 "a", .put 0 "b", .put 2 "a"]).state.indices
    "a" = [2] := by decide

end Ports

/-! ## Section 2: Constraints -/

namespace Constraints

/-- A call on the constraints. -/
inductive Call where
  | insert (before after : OpId)
  | erase (op : OpId)

/-- Make a call. -/
def Call.run : Call → Constraints → Constraints
  | .insert before after, c => c.insert before after
  | .erase op, c => c.erase op

/-- The constraints after some calls. -/
def ofCalls (calls : List Call) : Constraints := calls.foldl (fun c call => call.run c) ∅

/-- The pair was inserted, and none of its ends has been removed since. -/
def Demands (calls : List Call) (before after : OpId) : Prop :=
  before ≠ after ∧ ∃ earlier later, calls = earlier ++ .insert before after :: later ∧
    .erase before ∉ later ∧ .erase after ∉ later

variable {calls : List Call} {before after : OpId}

/-- **One more call** demands the pair, or leaves a demand as it was. -/
theorem demands_concat {call : Call} : Demands (calls ++ [call]) before after ↔
    (before ≠ after ∧ call = .insert before after) ∨
      (Demands calls before after ∧ call ≠ .erase before ∧ call ≠ .erase after) := by
  constructor
  · rintro ⟨hne, earlier, later, heq, hbefore, hafter⟩
    -- the insertion is the last call, or it is one of those before
    rcases List.eq_nil_or_concat' later with rfl | ⟨later, last, rfl⟩
    · obtain ⟨-, hcall⟩ := List.append_inj' heq rfl
      exact .inl ⟨hne, List.singleton_inj.1 hcall⟩
    · rw [← List.cons_append, ← List.append_assoc] at heq
      obtain ⟨hcalls, hcall⟩ := List.append_inj' heq rfl
      rw [← hcall, List.mem_append, List.mem_singleton, not_or] at hbefore hafter
      exact .inr ⟨⟨hne, earlier, later, hcalls, hbefore.1, hafter.1⟩, Ne.symm hbefore.2,
        Ne.symm hafter.2⟩
  · rintro (⟨hne, rfl⟩ | ⟨⟨hne, earlier, later, rfl, hbefore, hafter⟩, hcall⟩)
    · exact ⟨hne, calls, [], rfl, List.not_mem_nil, List.not_mem_nil⟩
    · refine ⟨hne, earlier, later ++ [call], by simp, ?_, ?_⟩
      · simp [hbefore, Ne.symm hcall.1]
      · simp [hafter, Ne.symm hcall.2]

theorem ofCalls_concat (calls : List Call) (call : Call) :
    ofCalls (calls ++ [call]) = call.run (ofCalls calls) := by
  simp [ofCalls]

/-- **Any calls**: an edge is listed exactly when it is demanded. -/
theorem mem_ofCalls {e : Edge} :
    e ∈ (ofCalls calls).toList ↔ Demands calls e.before e.after := by
  -- by the last call, since a demand is about what comes after an insertion
  induction calls using List.reverseRecOn with
  | nil => simp [ofCalls, Demands]
  | append_singleton calls call ih =>
    rw [ofCalls_concat]
    cases call with
    | insert before after =>
      rw [Call.run, mem_toList_insert, demands_concat, ih]
      cases e
      grind
    | erase op =>
      rw [Call.run, mem_toList_erase, demands_concat, ih]
      grind

/-- Removing an op strikes its edges off the list. -/
theorem toList_erase (c : Constraints) (op : OpId) :
    (c.erase op).toList = c.toList.filter fun e => e.before ≠ op ∧ e.after ≠ op := by
  have hperm : (c.erase op).toList.Perm
      (c.toList.filter fun e => e.before ≠ op ∧ e.after ≠ op) := by
    refine (List.perm_ext_iff_of_nodup (nodup_toList _) (c.nodup_toList.filter _)).2 fun e => ?_
    rw [mem_toList_erase, List.mem_filter, decide_eq_true_eq]
  -- both are sorted, so the same edges stand in the same order
  refine hperm.eq_of_pairwise ?_ (c.erase op).ordered_toList (c.ordered_toList.filter _)
  intro e f _ _ hef hfe
  omega

/-- **The constraints are exactly what was demanded**, whatever calls are made
    on them.  Once an op is removed nothing is left of it, and no more is gone. -/
theorem exactly_demanded (calls : List Call) :
    (∀ before after, (ofCalls calls).contains before after ↔ Demands calls before after) ∧
    ((ofCalls calls).toList.Pairwise fun e f =>
      e.before < f.before ∨ e.before = f.before ∧ e.after < f.after) ∧
    (∀ before after, ⟨before, after⟩ ∈ (ofCalls calls).toList ↔ Demands calls before after) ∧
    (∀ op, (ofCalls calls).mentions op ↔
      ∃ e ∈ (ofCalls calls).toList, e.before = op ∨ e.after = op) ∧
    ∀ op, (ofCalls (calls ++ [.erase op])).mentions op = false ∧
      (ofCalls (calls ++ [.erase op])).toList
        = (ofCalls calls).toList.filter fun e => e.before ≠ op ∧ e.after ≠ op := by
  refine ⟨fun _ _ => contains_iff.trans mem_ofCalls, ordered_toList _, fun _ _ => mem_ofCalls,
    fun _ => mentions_iff, fun op => ?_⟩
  rw [ofCalls_concat]
  exact ⟨mentions_erase _ op, toList_erase _ op⟩

-- an edge comes back when it is inserted anew
example : (ofCalls [.insert 0 1, .insert 1 2, .insert 0 2, .erase 1, .insert 1 2]).toList
    = [⟨0, 2⟩, ⟨1, 2⟩] := by decide

end Constraints

end Dataflow
