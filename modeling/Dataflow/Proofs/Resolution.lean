import Dataflow.Proofs.Conservation
import Dataflow.Proofs.Fitting

/-! # Ops are resolved once

    The ledger of outputs lets go of an op in one of two ways: the op comes out
    complete, or it is given up because none of its outputs can have a gradient
    any more.  Whatever calls are made, in whatever order, an op goes only one
    of these ways, and it goes only once.  After that the ledger has nothing
    more to do with it.

    Which way an op goes depends on when its operator is content.  For an
    operator that waits for all required outputs it can be said in terms of the
    calls alone. -/

namespace Dataflow

namespace OutputGradients

/-! ## Section 1: Calls and what they leave in the log -/

/-- A call on the ledger. -/
inductive Call where
  | require (op : OpId) (outputs : Std.ExtTreeSet Nat)
  | insert (op : OpId) (o : Op) (index : Nat)
  | waive (op : OpId) (o : Op) (index : Nat)
  | takeComplete

/-- The answer to a call. -/
inductive Answer where
  | done
  | refused (error : GradientError)
  | waived (given : Bool)
  | taken (ops : List OpId)

/-- Make a call. -/
def Call.run : Call → OutputGradients → Answer × OutputGradients
  | .require op outputs, l => (.done, l.require op outputs)
  | .insert op o index, l =>
    match OutputGradients.insert op o index l with
    | .ok _ l' => (.done, l')
    | .error e l' => (.refused e, l')
  | .waive op o index, l => (.waived (l.waive op o index).1, (l.waive op o index).2)
  | .takeComplete, l => (.taken l.takeComplete.1, l.takeComplete.2)

/-- The calls that have been made, with their answers. -/
abbrev Log := List (Call × Answer)

/-- The outputs that have got a gradient, each with its op. -/
def told (log : Log) : List (OpId × Nat) :=
  log.filterMap fun
    | (.insert op _ index, .done) => some (op, index)
    | _ => none

/-- The outputs that have been struck off, each with its op. -/
def struck (log : Log) : List (OpId × Nat) :=
  log.filterMap fun
    | (.waive op _ index, _) => some (op, index)
    | _ => none

/-- The ops that have come out complete, in order. -/
def returned (log : Log) : List OpId :=
  log.flatMap fun
    | (_, .taken ops) => ops
    | _ => []

/-- The ops that have been given up, in order. -/
def retired (log : Log) : List OpId :=
  log.filterMap fun
    | (.waive op _ _, .waived true) => some op
    | _ => none

/-- The ledger and its past, after some calls on an empty ledger. -/
abbrev history (calls : List Call) : Record OutputGradients Call Answer :=
  .after Call.run {} calls

variable {l l' : OutputGradients} {op p : OpId} {o : Op} {index : Nat}
  {r : Record OutputGradients Call Answer} {log : Log}

theorem exists_of_mem_told (h : (op, index) ∈ told log) :
    ∃ o, (Call.insert op o index, Answer.done) ∈ log := by
  obtain ⟨entry, hentry, hsome⟩ := List.mem_filterMap.1 h
  split at hsome
  · cases hsome
    exact ⟨_, hentry⟩
  · cases hsome

theorem exists_of_mem_struck (h : (op, index) ∈ struck log) :
    ∃ o answer, (Call.waive op o index, answer) ∈ log := by
  obtain ⟨entry, hentry, hsome⟩ := List.mem_filterMap.1 h
  split at hsome
  · cases hsome
    exact ⟨_, _, hentry⟩
  · cases hsome

theorem exists_of_mem_retired (h : op ∈ retired log) :
    ∃ o index, (Call.waive op o index, Answer.waived true) ∈ log := by
  obtain ⟨entry, hentry, hsome⟩ := List.mem_filterMap.1 h
  split at hsome
  · cases hsome
    exact ⟨_, _, hentry⟩
  · cases hsome

theorem insert_refused {e : GradientError}
    (hrun : OutputGradients.insert op o index l = .error e l') : l' = l := by
  unfold OutputGradients.insert at hrun
  split at hrun
  · cases hrun
    rfl
  · split at hrun
    · cases hrun
      rfl
    · simp only at hrun
      split at hrun
      · cases hrun
      · cases hrun

/-- A gradient is accepted, or the ledger stays as it was. -/
theorem run_insert (op : OpId) (o : Op) (index : Nat) (l : OutputGradients) :
    (∃ l', OutputGradients.insert op o index l = .ok () l' ∧
      (Call.insert op o index).run l = (.done, l')) ∨
    ∃ e, (Call.insert op o index).run l = (.refused e, l) := by
  cases hrun : OutputGradients.insert op o index l with
  | ok u l' => exact .inl ⟨l', rfl, by simp [Call.run, hrun]⟩
  | error e l' => exact .inr ⟨e, by simp [Call.run, hrun, insert_refused hrun]⟩

/-! ## Section 2: An op goes once -/

/-- The ops that are done with are those that the log shows to have gone, each
    of them once, and none of them can go again. -/
structure Resolves (r : Record OutputGradients Call Answer) : Prop where
  closed : ∀ op, op ∈ r.state.closed ↔ op ∈ returned r.log ∨ op ∈ retired r.log
  apart : ∀ op ∈ r.state.complete, op ∉ r.state.closed
  once : (returned r.log ++ retired r.log).Nodup

/-- Only ops that are not done with become complete. -/
theorem apart_insert {u : Unit} (h : ∀ p ∈ l.complete, p ∉ l.closed)
    (hrun : OutputGradients.insert op o index l = .ok u l') :
    ∀ p ∈ l'.complete, p ∉ l'.closed := by
  obtain ⟨hopen, hclosed, -, -, hother, -⟩ := insert_eq_ok hrun
  intro p hp
  rw [hclosed]
  by_cases heq : p = op
  · rw [heq]
    exact hopen
  · exact h p ((hother p heq).2.1 hp)

theorem apart_waive {given : Bool} (h : ∀ p ∈ l.complete, p ∉ l.closed)
    (hrun : l.waive op o index = (given, l')) : ∀ p ∈ l'.complete, p ∉ l'.closed := by
  rcases waive_eq hrun with ⟨-, -, rfl⟩ | ⟨-, -, -, hother, hgiven, hkept⟩
  · exact h
  · intro p hp
    by_cases heq : p = op
    · subst heq
      cases given with
      | true => exact absurd hp (hgiven rfl).2.1
      | false => exact (hkept rfl).1
    · obtain ⟨hclosed, hcomplete⟩ := hother p heq
      rw [hclosed]
      exact h p (hcomplete.1 hp)

theorem mem_closed_waive {given : Bool} (hrun : l.waive op o index = (given, l')) :
    p ∈ l'.closed ↔ p ∈ l.closed ∨ (given = true ∧ p = op) := by
  rcases waive_eq hrun with ⟨-, rfl, rfl⟩ | ⟨hopen, -, -, hother, hgiven, hkept⟩
  · simp
  · by_cases heq : p = op
    · subst heq
      cases given with
      | true => exact iff_of_true (hgiven rfl).1 (.inr ⟨rfl, rfl⟩)
      | false => exact iff_of_false (hkept rfl).1 (by simp [hopen])
    · rw [(hother p heq).1]
      simp [heq]

/-- **One call**: what it lets go has not gone before. -/
theorem Resolves.call (h : Resolves r) (c : Call) : Resolves (r.call Call.run c) := by
  cases c with
  | require p outputs =>
    constructor
    · simpa [Record.call, Call.run, returned, retired, OutputGradients.require] using h.closed
    · exact h.apart
    · simpa [Record.call, Call.run, returned, retired] using h.once
  | insert p o index =>
    rcases run_insert p o index r.state with ⟨l', hrun, hcall⟩ | ⟨e, hcall⟩
    · have hclosed := (insert_eq_ok hrun).2.1
      rw [Record.call, hcall]
      constructor
      · simpa [returned, retired, hclosed] using h.closed
      · exact apart_insert h.apart hrun
      · simpa [returned, retired] using h.once
    · rw [Record.call, hcall]
      constructor
      · simpa [returned, retired] using h.closed
      · exact h.apart
      · simpa [returned, retired] using h.once
  | waive p o index =>
    obtain ⟨given, l', hrun⟩ : ∃ given l', r.state.waive p o index = (given, l') := ⟨_, _, rfl⟩
    simp only [Record.call, Call.run, hrun]
    constructor
    · intro q
      rw [mem_closed_waive hrun, h.closed q]
      cases given <;> simp [returned, retired, or_assoc]
    · exact apart_waive h.apart hrun
    · cases given with
      | false => simpa [returned, retired] using h.once
      | true =>
        -- an op that is given up was not done with, so the log does not show it
        have hnew : p ∉ returned r.log ++ retired r.log := by
          rw [List.mem_append, ← h.closed p]
          exact waive_open hrun
        have hlog : returned (r.log ++ [(Call.waive p o index, Answer.waived true)]) ++
            retired (r.log ++ [(Call.waive p o index, Answer.waived true)]) =
            (returned r.log ++ retired r.log) ++ [p] := by
          simp [returned, retired]
        rw [hlog]
        exact h.once.append (List.nodup_singleton p) (by simpa using hnew)
  | takeComplete =>
    constructor
    · intro q
      show q ∈ r.state.takeComplete.2.closed ↔ _
      rw [mem_closed_takeComplete, h.closed q]
      simp [Record.call, Call.run, returned, retired, or_assoc, or_comm]
    · intro q hq
      exact absurd hq Std.ExtTreeSet.not_mem_empty
    · have hlog : returned (r.call Call.run .takeComplete).log =
          returned r.log ++ r.state.takeComplete.1 := by
        simp [Record.call, Call.run, returned]
      have hsame : retired (r.call Call.run .takeComplete).log = retired r.log := by
        simp [Record.call, Call.run, retired]
      rw [hlog, hsame, List.append_assoc,
        (List.perm_append_comm.append_left (returned r.log)).nodup_iff, ← List.append_assoc]
      refine h.once.append (nodup_toList _) ?_
      intro q hq hout
      exact h.apart q (mem_takeComplete_ops.1 hout) ((h.closed q).2 (List.mem_append.1 hq))

theorem resolves_history (calls : List Call) : Resolves (history calls) := by
  apply Record.holds_callAll
  · constructor
    · intro op
      simp [returned, retired]
    · intro op hop
      exact absurd hop Std.ExtTreeSet.not_mem_empty
    · exact List.nodup_nil
  · intro r c _ h
    exact h.call c

/-- The ledger has nothing more to do with an op that is done with. -/
theorem run_of_closed (h : op ∈ l.closed) (o : Op) (index : Nat) :
    (∃ reason, (Call.insert op o index).run l = (.refused (.internal reason), l)) ∧
      (Call.waive op o index).run l = (.waived false, l) := by
  have hclosed : l.closed.contains op = true := Std.ExtTreeSet.contains_iff_mem.2 h
  constructor
  · simp only [Call.run, OutputGradients.insert, if_pos hclosed]
    exact ⟨_, rfl⟩
  · simp only [Call.run, OutputGradients.waive, if_pos hclosed]

/-! ## Section 3: Ops that wait for all required outputs -/

/-- The call says nothing of an output of `op`. -/
def Call.Leaves (op : OpId) : Call → Prop
  | .insert p _ _ | .waive p _ _ => p ≠ op
  | .require _ _ | .takeComplete => True

/-- The call does not change what is required of `op`, and if it speaks of an
    output of `op`, then of an op that waits for all required outputs. -/
def Call.Keeps (op : OpId) : Call → Prop
  | .require p _ => p ≠ op
  | .insert p o _ | .waive p o _ => p = op → o.operator.WaitsForAll
  | .takeComplete => True

theorem promptOn_of_waitsForAll (h : o.operator.WaitsForAll) : o.PromptOn fun _ => True := by
  intro available required _ _ _
  rw [h]
  simp

/-- The ledger knows of `op` what the log says, when `outputs` are required. -/
def Attends (op : OpId) (outputs : Std.ExtTreeSet Nat)
    (r : Record OutputGradients Call Answer) : Prop :=
  r.state.TracksAt (fun _ i => i ∈ outputs) (told r.log) (struck r.log) (returned r.log)
    (retired r.log) op

variable {outputs : Std.ExtTreeSet Nat}

/-- **One call**, by the op that it speaks of. -/
theorem Attends.call (h : Attends op outputs r) {c : Call} (hc : c.Keeps op) :
    Attends op outputs (r.call Call.run c) := by
  unfold Attends at h ⊢
  cases c with
  | require p required =>
    have hp : ¬ p = op := hc
    refine h.congr Iff.rfl rfl ?_ Iff.rfl ?_ ?_ ?_ ?_
    · simp [Record.call, Call.run, OutputGradients.require, Std.ExtTreeMap.getD_insert, hp]
    all_goals simp [Record.call, Call.run, told, struck, returned, retired]
  | insert p o index =>
    rcases run_insert p o index r.state with ⟨l', hrun, hcall⟩ | ⟨e, hcall⟩
    · have hnext : l'.TracksAt (fun _ i => i ∈ outputs) (told r.log ++ [(p, index)])
          (struck r.log) (returned r.log) (retired r.log) op := by
        by_cases hp : op = p
        · subst hp
          exact h.insert_self (promptOn_of_waitsForAll (hc rfl)) (fun _ _ => trivial)
            (fun _ _ => trivial) trivial hrun
        · exact h.insert_other hp hrun
      rw [Record.call, hcall]
      simpa [told, struck, returned, retired] using hnext
    · rw [Record.call, hcall]
      simpa [told, struck, returned, retired] using h
  | waive p o index =>
    obtain ⟨given, l', hrun⟩ : ∃ given l', r.state.waive p o index = (given, l') := ⟨_, _, rfl⟩
    have hnext : l'.TracksAt (fun _ i => i ∈ outputs) (told r.log)
        (struck r.log ++ [(p, index)]) (returned r.log)
        (if given then retired r.log ++ [p] else retired r.log) op := by
      by_cases hp : op = p
      · subst hp
        exact h.waive_self (promptOn_of_waitsForAll (hc rfl)) (fun _ _ => trivial)
          (fun _ _ => trivial) hrun
      · exact h.waive_other hp hrun
    simp only [Record.call, Call.run, hrun]
    cases given <;> simpa [told, struck, returned, retired] using hnext
  | takeComplete =>
    have hnext := h.takeComplete
    simpa [Record.call, Call.run, told, struck, returned, retired] using hnext

/-- What a log that says nothing of the outputs of `op` does not show. -/
theorem unmentioned (h : ∀ entry ∈ log, entry.1.Leaves op) :
    (∀ i, (op, i) ∉ told log) ∧ (∀ i, (op, i) ∉ struck log) ∧ op ∉ retired log := by
  refine ⟨fun i hi => ?_, fun i hi => ?_, fun hop => ?_⟩
  · obtain ⟨o, hentry⟩ := exists_of_mem_told hi
    exact h _ hentry rfl
  · obtain ⟨o, answer, hentry⟩ := exists_of_mem_struck hi
    exact h _ hentry rfl
  · obtain ⟨o, i, hentry⟩ := exists_of_mem_retired hop
    exact h _ hentry rfl

/-- Saying what is required of an op, before anything has been said of its
    outputs. -/
theorem Attends.require {required : Std.ExtTreeSet Nat} (h : Attends op required r)
    (hlog : ∀ entry ∈ r.log, entry.1.Leaves op) :
    Attends op outputs (r.call Call.run (.require op outputs)) := by
  obtain ⟨htold, hstruck, hretired⟩ := unmentioned hlog
  -- nothing has been told of the op, so it has neither come out nor been given up
  have hopen : op ∉ r.state.closed := by
    intro hclosed
    rcases h.closed.1 hclosed with hout | hgiven
    · obtain ⟨i, hi⟩ := h.requested_told hout
      exact htold i hi
    · exact hretired hgiven
  have hnext : (r.state.require op outputs).TracksAt (fun _ i => i ∈ outputs) (told r.log)
      (struck r.log) (returned r.log) (retired r.log) op := by
    constructor
    · exact h.closed
    · exact h.available
    · intro _ i
      simp [OutputGradients.require, hstruck]
    · apply iff_of_false
      · intro hcomplete
        obtain ⟨-, ⟨i, hi⟩, -⟩ := h.complete.1 hcomplete
        exact htold i hi
      · intro ⟨_, ⟨i, hi⟩, _⟩
        exact htold i hi
    · intro _ ⟨i, hi⟩
      exact .inr ⟨i, hi, hstruck i⟩
    · intro hclosed
      exact absurd hclosed hopen
    · exact h.requested_told
    · exact h.retired_untold
  simpa [Attends, Record.call, Call.run, told, struck, returned, retired] using hnext

/-- As long as nothing is said of the outputs of an op, it is attended to,
    whatever is required of it. -/
theorem attends_before {before : List Call} (h : ∀ c ∈ before, c.Leaves op) :
    (∀ entry ∈ (history before).log, entry.1.Leaves op) ∧
      ∃ required, Attends op required (history before) := by
  apply Record.holds_callAll (P := fun r : Record OutputGradients Call Answer =>
    (∀ entry ∈ r.log, entry.1.Leaves op) ∧ ∃ required, Attends op required r)
  · have hstart : Tracks {} (fun _ i => i ∈ (∅ : Std.ExtTreeSet Nat)) [] [] [] [] :=
      tracks_start (by simp)
    constructor
    · simp
    · exact ⟨∅, hstart.tracksAt op⟩
  · intro r c hc ⟨hlog, required, hattends⟩
    have hleaves := h c hc
    constructor
    · intro entry hentry
      rcases List.mem_append.1 hentry with hold | hnew
      · exact hlog entry hold
      · rw [List.mem_singleton.1 hnew]
        exact hleaves
    · cases c with
      | require p more =>
        by_cases hp : p = op
        · subst hp
          exact ⟨more, hattends.require hlog⟩
        · exact ⟨required, hattends.call hp⟩
      | insert p o index => exact ⟨required, hattends.call fun heq => absurd heq hleaves⟩
      | waive p o index => exact ⟨required, hattends.call fun heq => absurd heq hleaves⟩
      | takeComplete => exact ⟨required, hattends.call trivial⟩

/-- **Whole runs**: once it has been said what is required of an op, it is
    attended to. -/
theorem attends_history {before later : List Call} (hbefore : ∀ c ∈ before, c.Leaves op)
    (hlater : ∀ c ∈ later, c.Keeps op) :
    Attends op outputs (history (before ++ .require op outputs :: later)) := by
  obtain ⟨hlog, required, hattends⟩ := attends_before hbefore
  rw [history, Record.after_append]
  show Attends op outputs
    (((history before).call Call.run (.require op outputs)).callAll Call.run later)
  apply Record.holds_callAll
  · exact hattends.require hlog
  · intro r c hc hr
    exact hr.call (hlater c hc)

/-! ## Section 4: Resolution -/

section

variable {needed : OpId → Nat → Prop} {heard dropped : List (OpId × Nat)}
  {requested given : List OpId}

/-- An op is complete from the moment on when the fate of all that is needed is
    known, unless nothing has been heard, until it is requested. -/
theorem TracksAt.complete_iff (h : l.TracksAt needed heard dropped requested given op) :
    op ∈ l.complete ↔ op ∉ requested ∧ (∃ i, (op, i) ∈ heard) ∧
      ∀ i, needed op i → (op, i) ∈ heard ∨ (op, i) ∈ dropped := by
  rw [h.complete, h.closed, not_or]
  constructor
  · intro ⟨⟨hrequested, _⟩, hsome, hall⟩
    refine ⟨hrequested, hsome, fun i hi => ?_⟩
    by_cases hdropped : (op, i) ∈ dropped
    · exact .inr hdropped
    · exact .inl (hall i hi hdropped)
  · intro ⟨hrequested, ⟨i, hi⟩, hall⟩
    refine ⟨⟨hrequested, fun hgiven => h.retired_untold hgiven i hi⟩, ⟨i, hi⟩, ?_⟩
    intro j hj hdropped
    exact (hall j hj).resolve_right hdropped

/-- An op of which something is needed is given up exactly if nothing has been
    heard and all that is needed has been dropped. -/
theorem TracksAt.given_iff (h : l.TracksAt needed heard dropped requested given op)
    (hsome : ∃ i, needed op i) : op ∈ given ↔
      (∀ i, (op, i) ∉ heard) ∧ ∀ i, needed op i → (op, i) ∈ dropped := by
  constructor
  · intro hgiven
    have hnone := h.retired_untold hgiven
    refine ⟨hnone, fun i hi => ?_⟩
    exact (h.decided (h.closed.2 (.inr hgiven)) i hi).resolve_left (hnone i)
  · intro ⟨hnone, hall⟩
    -- there is nothing left to hope for, so the op is done with
    have hclosed : op ∈ l.closed := by
      by_contra hopen
      rcases h.hope hopen hsome with ⟨i, hi⟩ | ⟨i, hi, hkept⟩
      · exact hnone i hi
      · exact hkept (hall i hi)
    rcases h.closed.1 hclosed with hrequested | hgiven
    · obtain ⟨i, hi⟩ := h.requested_told hrequested
      exact absurd hi (hnone i)
    · exact hgiven

/-- It is given up at the drop after which nothing is needed any more. -/
theorem TracksAt.waive_iff (h : l.TracksAt needed heard dropped requested given op)
    (hsome : ∃ i, needed op i) (hwaits : o.operator.WaitsForAll) :
    (l.waive op o index).1 = true ↔ (∀ i, (op, i) ∉ heard) ∧
      (∃ i, needed op i ∧ (op, i) ∉ dropped) ∧
      ∀ i, needed op i → (op, i) ∈ dropped ∨ i = index := by
  obtain ⟨answer, l', hrun⟩ : ∃ answer l', l.waive op o index = (answer, l') := ⟨_, _, rfl⟩
  have hnow := h.given_iff hsome
  have hnext := (h.waive_self (promptOn_of_waitsForAll hwaits) (fun _ _ => trivial)
    (fun _ _ => trivial) hrun).given_iff hsome
  simp only [List.mem_append, List.mem_singleton, Prod.mk.injEq, true_and] at hnext
  rw [hrun]
  constructor
  · intro (hanswer : answer = true)
    subst hanswer
    obtain ⟨hnone, hall⟩ := hnext.1 (by simp)
    refine ⟨hnone, ?_, hall⟩
    by_contra hleft
    push Not at hleft
    exact waive_open hrun (h.closed.2 (.inr (hnow.2 ⟨hnone, hleft⟩)))
  · intro ⟨hnone, ⟨i, hi, hkept⟩, hall⟩
    have hgiven := hnext.2 ⟨hnone, hall⟩
    cases answer with
    | true => rfl
    | false => exact absurd ((hnow.1 hgiven).2 i hi) hkept

end

/-- What becomes of an op of which `outputs` are required, after some calls. -/
structure Attended (calls : List Call) (op : OpId) (outputs : Std.ExtTreeSet Nat) : Prop where
  /-- With a gradient, the op is complete as soon as each required output has
      been told of or struck off, and stays so until it comes out. -/
  complete : op ∈ (history calls).state.complete ↔
    op ∉ returned (history calls).log ∧ (∃ i, (op, i) ∈ told (history calls).log) ∧
      ∀ i ∈ outputs, (op, i) ∈ told (history calls).log ∨ (op, i) ∈ struck (history calls).log
  /-- It does not come out before. -/
  not_early : op ∈ returned (history calls).log →
    (∃ i, (op, i) ∈ told (history calls).log) ∧
      ∀ i ∈ outputs, (op, i) ∈ told (history calls).log ∨ (op, i) ∈ struck (history calls).log
  /-- Without one, it is given up once each required output has been struck off. -/
  given_up : (∃ i, i ∈ outputs) → (op ∈ retired (history calls).log ↔
    (∀ i, (op, i) ∉ told (history calls).log) ∧
      ∀ i ∈ outputs, (op, i) ∈ struck (history calls).log)
  /-- The last of these drops is the call that says so. -/
  last_drop : (∃ i, i ∈ outputs) → ∀ o index, o.operator.WaitsForAll →
    (((history calls).state.waive op o index).1 = true ↔
      (∀ i, (op, i) ∉ told (history calls).log) ∧
      (∃ i ∈ outputs, (op, i) ∉ struck (history calls).log) ∧
      ∀ i ∈ outputs, (op, i) ∈ struck (history calls).log ∨ i = index)

/-- **Ops are resolved once.**  Whatever calls are made, an op comes out once or
    is given up once, not both, and the ledger then refuses all gradients for it
    and ignores all drops.  An op that waits for all required outputs, of which
    it is first said which these are, goes as soon as their fate is known. -/
theorem ops_resolved_once (calls : List Call) :
    (returned (history calls).log ++ retired (history calls).log).Nodup ∧
    (∀ op, op ∈ returned (history calls).log ∨ op ∈ retired (history calls).log → ∀ o index,
      (∃ reason, (Call.insert op o index).run (history calls).state =
        (.refused (.internal reason), (history calls).state)) ∧
      (Call.waive op o index).run (history calls).state =
        (.waived false, (history calls).state)) ∧
    ∀ before op outputs later, calls = before ++ .require op outputs :: later →
      (∀ c ∈ before, c.Leaves op) → (∀ c ∈ later, c.Keeps op) → Attended calls op outputs := by
  have hresolves := resolves_history calls
  refine ⟨hresolves.once, ?_, ?_⟩
  · intro op hgone
    exact run_of_closed ((hresolves.closed op).2 hgone)
  · intro before op outputs later hcalls hbefore hlater
    have hattends : Attends op outputs (history calls) := by
      rw [hcalls]
      exact attends_history hbefore hlater
    constructor
    · exact hattends.complete_iff
    · intro hout
      exact ⟨hattends.requested_told hout, hattends.decided (hattends.closed.2 (.inl hout))⟩
    · exact hattends.given_iff
    · intro hsome o index hwaits
      exact hattends.waive_iff hsome hwaits

/-- An op that waits for all its required outputs. -/
def patientOp : Op := { operator := { typeName := "patient", infer := fun _ => .ok [] } }

/-- One output of op 0 gets its gradient and the other one is dropped, so that
    it comes out.  Op 1 loses both outputs and is given up.  More is said of both
    after that, in vain. -/
def mixedFates : List Call := [
  .require 0 (.ofList [0, 1]),
  .insert 0 patientOp 1,
  .takeComplete,
  .waive 0 patientOp 0,
  .require 1 (.ofList [0, 1]),
  .takeComplete,
  .insert 0 patientOp 0,
  .waive 1 patientOp 1,
  .waive 1 patientOp 0,
  .insert 1 patientOp 0,
  .waive 0 patientOp 1,
  .takeComplete]

theorem mixedFates_resolved :
    Attended mixedFates 0 (.ofList [0, 1]) ∧ Attended mixedFates 1 (.ofList [0, 1]) ∧
    returned (history mixedFates).log = [0] ∧ retired (history mixedFates).log = [1] ∧
    (Call.waive 1 patientOp 0).run (history mixedFates).state =
      (.waived false, (history mixedFates).state) := by
  have hwaits : patientOp.operator.WaitsForAll := fun _ _ => rfl
  obtain ⟨-, hgone, hattended⟩ := ops_resolved_once mixedFates
  have hretired : retired (history mixedFates).log = [1] := by decide +kernel
  refine ⟨hattended [] 0 _ _ rfl (by simp) ?_, hattended (mixedFates.take 4) 1 _ _ rfl ?_ ?_,
    by decide +kernel, hretired, (hgone 1 (.inr ?_) patientOp 0).2⟩
  · simp [Call.Keeps, hwaits]
  · simp [mixedFates, Call.Leaves]
  · simp [Call.Keeps, hwaits]
  · rw [hretired]
    exact List.mem_singleton_self 1

end OutputGradients

end Dataflow
