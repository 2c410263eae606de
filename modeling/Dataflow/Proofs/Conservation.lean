import Mathlib.Data.List.Induction
import Mathlib.Data.List.Nodup
import Dataflow.Gradient.Ledger

/-! # Conservation of edges

    The ledger of partial gradients expects one gradient for each edge of a
    tensor.  Whatever calls are made on it, an edge is in one of three states:
    it has delivered, it has been waived, or it is still expected.  A tensor is
    complete when none of its edges is expected any more, it comes out of the
    ledger once, and it comes out with what its edges have delivered.

    `Knows` says this of one tensor.  There is one lemma for each call, which
    covers the tensor of the call and all the others. -/

namespace Dataflow

/-! ## Section 1: Records of calls -/

/-- A state with the calls that led to it and their answers. -/
structure Record (σ κ α : Type) where
  state : σ
  log : List (κ × α) := []

namespace Record

variable {σ κ α : Type} {run : κ → σ → α × σ} {s : σ}

/-- One more call. -/
def call (run : κ → σ → α × σ) (r : Record σ κ α) (c : κ) : Record σ κ α where
  state := (run c r.state).2
  log := r.log ++ [(c, (run c r.state).1)]

/-- Some more calls, one after the other. -/
def callAll (run : κ → σ → α × σ) (r : Record σ κ α) (calls : List κ) : Record σ κ α :=
  calls.foldl (call run) r

/-- All calls, from a state without a past. -/
def after (run : κ → σ → α × σ) (s : σ) (calls : List κ) : Record σ κ α :=
  callAll run { state := s } calls

@[simp] theorem after_nil : after run s [] = { state := s } := rfl

theorem after_append (calls more : List κ) :
    after run s (calls ++ more) = (after run s calls).callAll run more := by
  simp [after, callAll]

theorem after_concat (calls : List κ) (c : κ) :
    after run s (calls ++ [c]) = (after run s calls).call run c :=
  after_append calls [c]

/-- **Whole runs**: what is kept by each call is kept by all of them. -/
theorem holds_callAll {P : Record σ κ α → Prop} {r : Record σ κ α} {calls : List κ} (hr : P r)
    (hcall : ∀ r, ∀ c ∈ calls, P r → P (r.call run c)) : P (r.callAll run calls) := by
  induction calls generalizing r with
  | nil => exact hr
  | cons c calls ih =>
    apply ih
    · exact hcall r c List.mem_cons_self hr
    · intro r' c' hc'
      exact hcall r' c' (List.mem_cons_of_mem c hc')

end Record

namespace PartialGradients

variable {l l' : PartialGradients} {t s grad : TensorId} {edges waived : Nat}
  {grads : List TensorId} {taken : Prop}

/-! ## Section 2: What the ledger knows of one tensor -/

/-- Of the `edges` of a tensor, some have delivered `grads` and some have been
    `waived`.  When these are all, the tensor is complete, until it is `taken`
    out. -/
structure Knows (l : PartialGradients) (t : TensorId) (edges : Nat) (grads : List TensorId)
    (waived : Nat) (taken : Prop) : Prop where
  bounded : grads.length + waived ≤ edges
  waiting : grads.length + waived < edges →
    l.expected[t]? = some (edges - waived) ∧ l.arrived t = grads ∧ l.complete[t]? = none ∧ ¬ taken
  finished : grads.length + waived = edges →
    l.expected[t]? = none ∧ ∀ xs, l.complete[t]? = some xs ↔ edges ≠ 0 ∧ ¬ taken ∧ xs = grads

/-- What is known of one tensor does not depend on the others. -/
theorem Knows.congr (h : l.Knows t edges grads waived taken)
    (hexpected : l'.expected[t]? = l.expected[t]?) (harrived : l'.arrived t = l.arrived t)
    (hcomplete : l'.complete[t]? = l.complete[t]?) : l'.Knows t edges grads waived taken := by
  constructor
  · exact h.bounded
  · rw [hexpected, harrived, hcomplete]
    exact h.waiting
  · rw [hexpected, hcomplete]
    exact h.finished

/-- A tensor of which something is expected is waiting. -/
theorem Knows.lt_of_expected (h : l.Knows t edges grads waived taken) {n : Nat}
    (hn : l.expected[t]? = some n) : grads.length + waived < edges := by
  rcases Nat.lt_or_eq_of_le h.bounded with hlt | heq
  · exact hlt
  · rw [(h.finished heq).1] at hn
    cases hn

theorem settle_other (hs : s ≠ t) :
    (l.settle t).expected[s]? = l.expected[s]? ∧ (l.settle t).arrived s = l.arrived s ∧
      (l.settle t).complete[s]? = l.complete[s]? := by
  have hts : ¬ t = s := fun h => hs h.symm
  unfold settle
  simp only
  split
  · refine ⟨?_, ?_, ?_⟩
    · simp [Std.ExtTreeMap.getElem?_erase, hts]
    · simp [arrived, Std.ExtTreeMap.getD_erase, hts]
    · simp [Std.ExtTreeMap.getElem?_insert, hts]
  · exact ⟨rfl, rfl, rfl⟩

/-- **Settling** a tensor of which the last thing has just been heard. -/
theorem knows_settle (hbound : grads.length + waived ≤ edges) (hsome : edges ≠ 0)
    (hexpected : l.expected[t]? = some (edges - waived)) (harrived : l.arrived t = grads)
    (hcomplete : l.complete[t]? = none) (htaken : ¬ taken) :
    (l.settle t).Knows t edges grads waived taken := by
  have hnumber : (l.expected? t).getD 0 = edges - waived := by
    rw [expected?, hexpected, Option.getD_some]
  refine ⟨hbound, fun hlt => ?_, fun heq => ?_⟩
  · have hnot : ¬ (l.arrived t).length = (l.expected? t).getD 0 := by
      rw [harrived, hnumber]
      omega
    unfold settle
    simp only
    rw [if_neg hnot]
    exact ⟨hexpected, harrived, hcomplete, htaken⟩
  · have hfull : (l.arrived t).length = (l.expected? t).getD 0 := by
      rw [harrived, hnumber]
      omega
    unfold settle
    simp only
    rw [if_pos hfull]
    simp [hsome, htaken, harrived, eq_comm]

/-! ## Section 3: One call -/

/-- What a delivery does: the tensor waits for more than has arrived. -/
theorem insert_eq_ok {u : Unit} (hrun : PartialGradients.insert t grad l = .ok u l') :
    ∃ n, l.expected[t]? = some n ∧ grad ∉ l.arrived t ∧ (l.arrived t).length < n ∧
      l' = settle { l with held := l.held.insert t (l.arrived t ++ [grad]) } t := by
  unfold PartialGradients.insert at hrun
  cases hn : l.expected? t with
  | none =>
    simp only [hn] at hrun
    cases hrun
  | some n =>
    simp only [hn] at hrun
    split at hrun
    · cases hrun
    · rename_i hnew
      split at hrun
      · cases hrun
      · rename_i hle
        cases hrun
        rw [List.length_append, List.length_singleton] at hle
        exact ⟨n, hn, by simpa using hnew, by omega, rfl⟩

/-- **A delivery** joins those that have been made for the tensor. -/
theorem Knows.insert (h : l.Knows s edges grads waived taken) {u : Unit}
    (hrun : PartialGradients.insert t grad l = .ok u l') :
    l'.Knows s edges (if s = t then grads ++ [grad] else grads) waived taken := by
  obtain ⟨n, hn, -, -, rfl⟩ := insert_eq_ok hrun
  by_cases hs : s = t
  · subst hs
    have hlt := h.lt_of_expected hn
    obtain ⟨hexpected, harrived, hcomplete, htaken⟩ := h.waiting hlt
    rw [if_pos rfl]
    refine knows_settle ?_ (by omega) hexpected ?_ hcomplete htaken
    · rw [List.length_append, List.length_singleton]
      omega
    · rw [← harrived]
      simp [arrived]
  · have hts : ¬ t = s := fun heq => hs heq.symm
    rw [if_neg hs]
    obtain ⟨he, ha, hc⟩ := settle_other (t := t)
      (l := { l with held := l.held.insert t (l.arrived t ++ [grad]) }) hs
    refine h.congr he (ha.trans ?_) hc
    simp [arrived, Std.ExtTreeMap.getD_insert, hts]

/-- **A refused delivery** changes nothing: a tensor that waits has room. -/
theorem Knows.insert_refused (h : l.Knows t edges grads waived taken) {e : GradientError}
    (hrun : PartialGradients.insert t grad l = .error e l') : l' = l := by
  unfold PartialGradients.insert at hrun
  cases hn : l.expected? t with
  | none =>
    simp only [hn] at hrun
    cases hrun
    rfl
  | some n =>
    simp only [hn] at hrun
    split at hrun
    · cases hrun
      rfl
    · split at hrun
      · rename_i hfull
        have hlt := h.lt_of_expected hn
        obtain ⟨hexpected, harrived, -⟩ := h.waiting hlt
        have hcount : n = edges - waived := Option.some.inj (hn.symm.trans hexpected)
        rw [harrived, List.length_append, List.length_singleton] at hfull
        omega
      · cases hrun

theorem waive_eq_ok {u : Unit} (hrun : PartialGradients.waive t l = .ok u l') :
    ∃ n, l.expected[t]? = some (n + 1) ∧ l' = (l.expect t n).settle t := by
  unfold PartialGradients.waive at hrun
  split at hrun
  · rename_i n hn
    cases hrun
    exact ⟨n, hn, rfl⟩
  · cases hrun
  · cases hrun

/-- **A waiver** takes one edge of the tensor away. -/
theorem Knows.waive (h : l.Knows s edges grads waived taken) {u : Unit}
    (hrun : PartialGradients.waive t l = .ok u l') :
    l'.Knows s edges grads (if s = t then waived + 1 else waived) taken := by
  obtain ⟨n, hn, rfl⟩ := waive_eq_ok hrun
  by_cases hs : s = t
  · subst hs
    have hlt := h.lt_of_expected hn
    obtain ⟨hexpected, harrived, hcomplete, htaken⟩ := h.waiting hlt
    have hcount : n + 1 = edges - waived := Option.some.inj (hn.symm.trans hexpected)
    rw [if_pos rfl]
    refine knows_settle (by omega) (by omega) ?_ harrived hcomplete htaken
    rw [expect, Std.ExtTreeMap.getElem?_insert_self, Option.some.injEq]
    omega
  · have hts : ¬ t = s := fun heq => hs heq.symm
    rw [if_neg hs]
    obtain ⟨he, ha, hc⟩ := settle_other (t := t) (l := l.expect t n) hs
    refine h.congr (he.trans ?_) ha hc
    simp [expect, Std.ExtTreeMap.getElem?_insert, hts]

theorem waive_refused {e : GradientError} (hrun : PartialGradients.waive t l = .error e l') :
    l' = l := by
  unfold PartialGradients.waive at hrun
  split at hrun
  · cases hrun
  · cases hrun
    rfl
  · cases hrun
    rfl

theorem mem_takeComplete_iff {xs : List TensorId} :
    (t, xs) ∈ l.takeComplete.1 ↔ l.complete[t]? = some xs :=
  Std.ExtTreeMap.mem_toList_iff_getElem?_eq_some

/-- What comes out is complete and has not come out before. -/
theorem Knows.mem_takeComplete (h : l.Knows t edges grads waived taken) {xs : List TensorId} :
    (t, xs) ∈ l.takeComplete.1 ↔
      grads.length + waived = edges ∧ edges ≠ 0 ∧ ¬ taken ∧ xs = grads := by
  rw [mem_takeComplete_iff]
  rcases Nat.lt_or_eq_of_le h.bounded with hlt | heq
  · rw [(h.waiting hlt).2.2.1]
    constructor
    · intro hnone
      cases hnone
    · intro hc
      omega
  · rw [(h.finished heq).2]
    exact (and_iff_right heq).symm

theorem mem_map_takeComplete :
    t ∈ l.takeComplete.1.map Prod.fst ↔ ∃ xs, (t, xs) ∈ l.takeComplete.1 := by
  rw [List.mem_map]
  constructor
  · intro ⟨(_, xs), hmem, heq⟩
    exact ⟨xs, heq ▸ hmem⟩
  · intro ⟨xs, hmem⟩
    exact ⟨(t, xs), hmem, rfl⟩

/-- **Taking out**: what was complete is taken, and nothing is complete. -/
theorem Knows.takeComplete (h : l.Knows t edges grads waived taken) :
    l.takeComplete.2.Knows t edges grads waived
      (taken ∨ t ∈ l.takeComplete.1.map Prod.fst) := by
  refine ⟨h.bounded, fun hlt => ?_, fun heq => ?_⟩
  · obtain ⟨hexpected, harrived, hnone, htaken⟩ := h.waiting hlt
    refine ⟨hexpected, harrived, Std.ExtTreeMap.getElem?_empty, fun hout => ?_⟩
    rcases hout with hold | hnew
    · exact htaken hold
    · obtain ⟨xs, hxs⟩ := mem_map_takeComplete.1 hnew
      rw [h.mem_takeComplete] at hxs
      omega
  · refine ⟨(h.finished heq).1, fun xs => ?_⟩
    constructor
    · intro hsome
      cases Std.ExtTreeMap.getElem?_empty.symm.trans hsome
    · -- a tensor with edges that is not out already comes out now
      intro ⟨hedges, hout, hxs⟩
      rw [not_or] at hout
      exact absurd (mem_map_takeComplete.2
        ⟨xs, h.mem_takeComplete.2 ⟨heq, hedges, hout.1, hxs⟩⟩) hout.2

/-- A tensor comes out once. -/
theorem nodup_append_takeComplete {out : List TensorId} {number waivers : TensorId → Nat}
    {delivered : TensorId → List TensorId} (hout : out.Nodup)
    (h : ∀ t, l.Knows t (number t) (delivered t) (waivers t) (t ∈ out)) :
    (out ++ l.takeComplete.1.map Prod.fst).Nodup := by
  rw [List.nodup_append]
  refine ⟨hout, ?_, ?_⟩
  · show (l.complete.toList.map Prod.fst).Nodup
    rw [Std.ExtTreeMap.map_fst_toList_eq_keys]
    exact Std.ExtTreeMap.nodup_keys
  · intro t ht t' ht' heq
    subst heq
    obtain ⟨xs, hxs⟩ := mem_map_takeComplete.1 ht'
    exact ((h t).mem_takeComplete.1 hxs).2.2.1 ht

/-! ## Section 4: Whole runs -/

/-- A call on the ledger, once it has been said what to expect. -/
inductive Call where
  | insert (tensor grad : TensorId)
  | waive (tensor : TensorId)
  | takeComplete

/-- The answer to a call. -/
inductive Answer where
  | done
  | refused (error : GradientError)
  | taken (tensors : List (TensorId × List TensorId))

/-- The answer to an update, and what the update leaves behind. -/
def Answer.ofResult : EStateM.Result GradientError PartialGradients Unit →
    Answer × PartialGradients
  | .ok _ l => (.done, l)
  | .error e l => (.refused e, l)

/-- Make a call. -/
def Call.run : Call → PartialGradients → Answer × PartialGradients
  | insert tensor grad, l => Answer.ofResult (PartialGradients.insert tensor grad l)
  | waive tensor, l => Answer.ofResult (PartialGradients.waive tensor l)
  | takeComplete, l => (.taken l.takeComplete.1, l.takeComplete.2)

/-- The calls that have been made, with their answers. -/
abbrev Log := List (Call × Answer)

/-- The gradients of `t` that have been accepted, in order of arrival. -/
def delivered (log : Log) (t : TensorId) : List TensorId :=
  log.filterMap fun
    | (.insert tensor grad, .done) => if tensor = t then some grad else none
    | _ => none

/-- The number of edges of `t` that have been waived. -/
def waivers (log : Log) (t : TensorId) : Nat :=
  log.countP fun
    | (.waive tensor, .done) => tensor = t
    | _ => false

/-- The number of edges of `t` of which nothing more is expected. -/
def accounted (log : Log) (t : TensorId) : Nat := (delivered log t).length + waivers log t

/-- The tensors that have been taken out, in order. -/
def takenOut (log : Log) : List TensorId :=
  log.flatMap fun
    | (_, .taken tensors) => tensors.map Prod.fst
    | _ => []

/-- All is expected that has been said, and nothing has arrived. -/
def expecting (edges : List (TensorId × Nat)) : PartialGradients :=
  edges.foldl (fun l e => l.expect e.1 e.2) {}

/-- The ledger and its past, after some calls. -/
abbrev history (edges : List (TensorId × Nat)) (calls : List Call) :
    Record PartialGradients Call Answer :=
  .after Call.run (expecting edges) calls

/-- The ledger knows of every tensor what the log says. -/
structure Follows (number : TensorId → Nat) (r : Record PartialGradients Call Answer) : Prop where
  knows : ∀ t, r.state.Knows t (number t) (delivered r.log t) (waivers r.log t)
    (t ∈ takenOut r.log)
  taken_nodup : (takenOut r.log).Nodup

variable {number : TensorId → Nat} {r : Record PartialGradients Call Answer}

theorem Answer.ofResult_eq {result : EStateM.Result GradientError PartialGradients Unit}
    {answer : Answer} (h : Answer.ofResult result = (answer, l')) :
    (answer = .done ∧ result = .ok () l') ∨ ∃ e, answer = .refused e ∧ result = .error e l' := by
  cases result with
  | ok u l =>
    cases h
    exact .inl ⟨rfl, rfl⟩
  | error e l =>
    cases h
    exact .inr ⟨e, rfl, rfl⟩

/-- A call that is refused leaves the ledger as it was. -/
theorem Follows.refused (h : Follows number r) {c : Call} {e : GradientError}
    (hrun : c.run r.state = (.refused e, l')) : l' = r.state := by
  cases c with
  | insert t grad =>
    rcases Answer.ofResult_eq hrun with ⟨hanswer, -⟩ | ⟨_, -, hresult⟩
    · cases hanswer
    · exact (h.knows t).insert_refused hresult
  | waive t =>
    rcases Answer.ofResult_eq hrun with ⟨hanswer, -⟩ | ⟨_, -, hresult⟩
    · cases hanswer
    · exact waive_refused hresult
  | takeComplete => cases hrun

/-- A refused call leaves no trace. -/
theorem Follows.call_refused (h : Follows number r) {c : Call} {e : GradientError}
    (hrun : c.run r.state = (.refused e, l')) : Follows number ⟨l', r.log ++ [(c, .refused e)]⟩ := by
  rw [h.refused hrun]
  constructor
  · intro t
    simpa [delivered, waivers, takenOut] using h.knows t
  · simpa [takenOut] using h.taken_nodup

/-- **One call** is followed: what is accepted adds to one thing that the log
    says, for one tensor. -/
theorem Follows.call (h : Follows number r) (c : Call) : Follows number (r.call Call.run c) := by
  obtain ⟨answer, l', hrun⟩ : ∃ answer l', c.run r.state = (answer, l') := ⟨_, _, rfl⟩
  have hrecord : r.call Call.run c = ⟨l', r.log ++ [(c, answer)]⟩ := by
    rw [Record.call, hrun]
  rw [hrecord]
  cases c with
  | insert t grad =>
    rcases Answer.ofResult_eq hrun with ⟨rfl, hresult⟩ | ⟨e, rfl, -⟩
    · constructor
      · intro s
        have hknows := (h.knows s).insert hresult
        by_cases hs : s = t
        · simpa [delivered, waivers, takenOut, hs] using hknows
        · have hts : ¬ t = s := fun heq => hs heq.symm
          simpa [delivered, waivers, takenOut, hs, hts] using hknows
      · simpa [takenOut] using h.taken_nodup
    · exact h.call_refused hrun
  | waive t =>
    rcases Answer.ofResult_eq hrun with ⟨rfl, hresult⟩ | ⟨e, rfl, -⟩
    · constructor
      · intro s
        have hknows := (h.knows s).waive hresult
        by_cases hs : s = t
        · simpa [delivered, waivers, takenOut, hs] using hknows
        · have hts : ¬ t = s := fun heq => hs heq.symm
          simpa [delivered, waivers, takenOut, hs, hts] using hknows
      · simpa [takenOut] using h.taken_nodup
    · exact h.call_refused hrun
  | takeComplete =>
    cases hrun
    constructor
    · intro s
      have hknows := (h.knows s).takeComplete
      simpa [delivered, waivers, takenOut] using hknows
    · have hlog : takenOut (r.log ++ [(Call.takeComplete, Answer.taken r.state.takeComplete.1)]) =
          takenOut r.log ++ r.state.takeComplete.1.map Prod.fst := by
        simp [takenOut]
      rw [hlog]
      exact nodup_append_takeComplete h.taken_nodup h.knows

theorem mem_takenOut_call (r : Record PartialGradients Call Answer) (c : Call) :
    t ∈ takenOut (r.call Call.run c).log ↔
      t ∈ takenOut r.log ∨ (c = .takeComplete ∧ t ∈ r.state.takeComplete.1.map Prod.fst) := by
  obtain ⟨answer, l', hrun⟩ : ∃ answer l', c.run r.state = (answer, l') := ⟨_, _, rfl⟩
  rw [Record.call, hrun]
  cases c with
  | insert s grad =>
    rcases Answer.ofResult_eq hrun with ⟨rfl, -⟩ | ⟨e, rfl, -⟩ <;> simp [takenOut]
  | waive s =>
    rcases Answer.ofResult_eq hrun with ⟨rfl, -⟩ | ⟨e, rfl, -⟩ <;> simp [takenOut]
  | takeComplete =>
    cases hrun
    simp [takenOut]

/-! ## Section 5: The start -/

/-- What is expected of a tensor is what was last said of it. -/
theorem expected_foldl_of_notMem {edges : List (TensorId × Nat)} (ht : t ∉ edges.map Prod.fst) :
    (edges.foldl (fun l e => l.expect e.1 e.2) l).expected[t]? = l.expected[t]? := by
  induction edges generalizing l with
  | nil => rfl
  | cons e edges ih =>
    rw [List.map_cons, List.mem_cons, not_or] at ht
    have hne : ¬ e.1 = t := fun heq => ht.1 heq.symm
    rw [List.foldl_cons, ih ht.2]
    simp [expect, Std.ExtTreeMap.getElem?_insert, hne]

theorem expected_foldl {edges : List (TensorId × Nat)} (hdistinct : (edges.map Prod.fst).Nodup)
    {n : Nat} (ht : (t, n) ∈ edges) :
    (edges.foldl (fun l e => l.expect e.1 e.2) l).expected[t]? = some n := by
  induction edges generalizing l with
  | nil => cases ht
  | cons e edges ih =>
    rw [List.map_cons, List.nodup_cons] at hdistinct
    rw [List.foldl_cons]
    cases List.mem_cons.1 ht with
    | inl heq =>
      subst heq
      rw [expected_foldl_of_notMem hdistinct.1]
      simp [expect]
    | inr hrest => exact ih hdistinct.2 hrest

theorem foldl_expect (edges : List (TensorId × Nat)) :
    (edges.foldl (fun l e => l.expect e.1 e.2) l).held = l.held ∧
      (edges.foldl (fun l e => l.expect e.1 e.2) l).complete = l.complete := by
  induction edges generalizing l with
  | nil => exact ⟨rfl, rfl⟩
  | cons e edges ih => exact ih

/-- The number of edges that were announced for a tensor. -/
def announced (edges : List (TensorId × Nat)) (t : TensorId) : Nat :=
  ((expecting edges).expected[t]?).getD 0

theorem announced_eq {edges : List (TensorId × Nat)} (hdistinct : (edges.map Prod.fst).Nodup)
    {n : Nat} (ht : (t, n) ∈ edges) : announced edges t = n := by
  rw [announced, expecting, expected_foldl hdistinct ht, Option.getD_some]

theorem follows_start {edges : List (TensorId × Nat)} (hdistinct : (edges.map Prod.fst).Nodup)
    (hpos : ∀ e ∈ edges, 1 ≤ e.2) : Follows (announced edges) { state := expecting edges } := by
  have hparts := foldl_expect (l := {}) edges
  have harrived : ∀ t, (expecting edges).arrived t = [] := by
    intro t
    rw [arrived, expecting, hparts.1]
    exact Std.ExtTreeMap.getD_empty
  have hcomplete : ∀ t : TensorId, (expecting edges).complete[t]? = none := by
    intro t
    rw [expecting, hparts.2]
    exact Std.ExtTreeMap.getElem?_empty
  refine ⟨fun t => ?_, List.nodup_nil⟩
  by_cases ht : t ∈ edges.map Prod.fst
  · obtain ⟨⟨_, n⟩, hmem, rfl⟩ := List.mem_map.1 ht
    have hn : 1 ≤ n := hpos _ hmem
    rw [announced_eq hdistinct hmem]
    refine ⟨Nat.zero_le _, fun _ => ?_, fun hzero => ?_⟩
    · exact ⟨expected_foldl hdistinct hmem, harrived _, hcomplete _, List.not_mem_nil⟩
    · -- an announced tensor has an edge, so it does not start out finished
      have hlength : 0 = n := hzero
      omega
  · have hnone : (expecting edges).expected[t]? = none := by
      rw [expecting, expected_foldl_of_notMem ht]
      exact Std.ExtTreeMap.getElem?_empty
    have hzero : announced edges t = 0 := by rw [announced, hnone, Option.getD_none]
    rw [hzero]
    refine ⟨Nat.zero_le _, fun hlt => absurd hlt (Nat.not_lt_zero _), fun _ => ⟨hnone, fun xs => ?_⟩⟩
    simp [hcomplete]

/-- **Whole runs** are followed. -/
theorem follows_history {edges : List (TensorId × Nat)} (hdistinct : (edges.map Prod.fst).Nodup)
    (hpos : ∀ e ∈ edges, 1 ≤ e.2) (calls : List Call) :
    Follows (announced edges) (history edges calls) :=
  Record.holds_callAll (follows_start hdistinct hpos) fun _ c _ h => h.call c

/-! ## Section 6: Conservation -/

section Conservation

variable {announcements : List (TensorId × Nat)} {calls : List Call} {n : Nat}

/-- A tensor is out exactly if a call has asked for what is complete since all
    its edges were accounted for. -/
theorem mem_takenOut_iff (hdistinct : (announcements.map Prod.fst).Nodup)
    (hpos : ∀ e ∈ announcements, 1 ≤ e.2) (ht : (t, n) ∈ announcements) :
    t ∈ takenOut (history announcements calls).log ↔
      ∃ before later, calls = before ++ .takeComplete :: later ∧
        accounted (history announcements before).log t = n := by
  induction calls using List.reverseRecOn with
  | nil => simp [takenOut]
  | append_singleton calls c ih =>
    have hknows := (follows_history hdistinct hpos calls).knows t
    rw [announced_eq hdistinct ht] at hknows
    have hn : n ≠ 0 := Nat.ne_of_gt (hpos _ ht)
    rw [history, Record.after_concat, mem_takenOut_call, ih]
    constructor
    · intro hout
      rcases hout with ⟨before, later, hsplit, hall⟩ | ⟨hc, hnow⟩
      · exact ⟨before, later ++ [c], by rw [hsplit]; simp, hall⟩
      · obtain ⟨grads, hgrads⟩ := mem_map_takeComplete.1 hnow
        exact ⟨calls, [], by rw [hc], (hknows.mem_takeComplete.1 hgrads).1⟩
    · intro ⟨before, later, hsplit, hall⟩
      rcases List.eq_nil_or_concat later with rfl | ⟨rest, last, rfl⟩
      · -- the last call is the one that asks: the tensor comes out unless it is out
        obtain ⟨rfl, hc⟩ := List.append_inj' hsplit rfl
        by_cases hold : t ∈ takenOut (history announcements calls).log
        · exact .inl (ih.1 hold)
        · exact .inr ⟨List.singleton_inj.1 hc, mem_map_takeComplete.2
            ⟨_, hknows.mem_takeComplete.2 ⟨hall, hn, hold, rfl⟩⟩⟩
      · have hfront : calls = before ++ .takeComplete :: rest := by
          rw [List.concat_eq_append, ← List.cons_append, ← List.append_assoc] at hsplit
          exact (List.append_inj' hsplit rfl).1
        exact .inl ⟨before, rest, hfront, hall⟩

/-- What holds of a tensor of which `n` gradients were announced, after some
    calls. -/
structure Conserved (announcements : List (TensorId × Nat)) (calls : List Call) (t : TensorId)
    (n : Nat) : Prop where
  bounded : accounted (history announcements calls).log t ≤ n
  /-- More is expected than has arrived, until all edges are accounted for. -/
  waiting : accounted (history announcements calls).log t < n →
    ∃ k, (history announcements calls).state.expected? t = some k ∧
      ((history announcements calls).state.arrived t).length < k
  outstanding : t ∈ (history announcements calls).state.outstanding ↔
    accounted (history announcements calls).log t < n
  /-- The tensor has not come out before all its edges are accounted for. -/
  early : accounted (history announcements calls).log t < n →
    t ∉ takenOut (history announcements calls).log
  /-- It comes out at the first request after that, with all that was delivered. -/
  comes_out : ∀ grads, (t, grads) ∈ (history announcements calls).state.takeComplete.1 ↔
    accounted (history announcements calls).log t = n ∧
      (∀ before later, calls = before ++ .takeComplete :: later →
        accounted (history announcements before).log t < n) ∧
      grads = delivered (history announcements calls).log t

/-- **Edges are conserved.**  Of each tensor some edges are announced, at least
    one.  Whatever calls are made then, the tensor comes out of the ledger when
    all of them have delivered or been waived, and only once; and a call that is
    refused changes nothing. -/
theorem edges_conserved (hdistinct : (announcements.map Prod.fst).Nodup)
    (hpos : ∀ e ∈ announcements, 1 ≤ e.2) (calls : List Call) :
    (∀ t n, (t, n) ∈ announcements → Conserved announcements calls t n) ∧
    (takenOut (history announcements calls).log).Nodup ∧
    ∀ (c : Call) e l', c.run (history announcements calls).state = (.refused e, l') →
      l' = (history announcements calls).state := by
  have hfollows := follows_history hdistinct hpos calls
  refine ⟨fun t n ht => ?_, hfollows.taken_nodup, fun c e l' hrun => hfollows.refused hrun⟩
  have hknows := hfollows.knows t
  rw [announced_eq hdistinct ht] at hknows
  have hn : n ≠ 0 := Nat.ne_of_gt (hpos _ ht)
  exact {
    bounded := hknows.bounded
    waiting := by
      intro hlt
      obtain ⟨hexpected, harrived, -⟩ := hknows.waiting hlt
      refine ⟨_, hexpected, ?_⟩
      rw [harrived]
      unfold accounted at hlt
      omega
    outstanding := by
      rw [outstanding, Std.ExtTreeMap.mem_keys, Std.ExtTreeMap.mem_iff_isSome_getElem?]
      rcases Nat.lt_or_eq_of_le hknows.bounded with hlt | heq
      · rw [(hknows.waiting hlt).1]
        exact iff_of_true rfl hlt
      · rw [(hknows.finished heq).1]
        exact iff_of_false (by simp) (Nat.not_lt_of_ge (Nat.le_of_eq heq.symm))
    early := fun hlt => (hknows.waiting hlt).2.2.2
    comes_out := by
      intro grads
      -- not out yet: no request has been made since all edges were accounted for
      have hlate : t ∉ takenOut (history announcements calls).log ↔
          ∀ before later, calls = before ++ .takeComplete :: later →
            accounted (history announcements before).log t < n := by
        rw [mem_takenOut_iff hdistinct hpos ht]
        constructor
        · intro hnone before later hsplit
          have hbefore := (follows_history hdistinct hpos before).knows t
          rw [announced_eq hdistinct ht] at hbefore
          have hne : accounted (history announcements before).log t ≠ n := fun heq =>
            hnone ⟨before, later, hsplit, heq⟩
          exact Nat.lt_of_le_of_ne hbefore.bounded hne
        · intro hall ⟨before, later, hsplit, heq⟩
          exact Nat.ne_of_lt (hall before later hsplit) heq
      rw [hknows.mem_takeComplete, hlate]
      exact and_congr_right fun _ => and_iff_right hn }

end Conservation

/-- Two of the three edges of `w` deliver, one of them twice in vain, and the
    third is waived.  The only edge of `m` is waived, and then once more. -/
def slowDelivery : List Call := [
  .insert "w" "a",
  .insert "w" "a",
  .takeComplete,
  .waive "m",
  .waive "m",
  .waive "w",
  .takeComplete,
  .insert "w" "b"]

theorem slowDelivery_conserved :
    Conserved [("w", 3), ("m", 1)] slowDelivery "w" 3 ∧
    takenOut (history [("w", 3), ("m", 1)] slowDelivery).log = ["m"] ∧
    (history [("w", 3), ("m", 1)] slowDelivery).state.takeComplete.1 = [("w", ["a", "b"])] := by
  refine ⟨(edges_conserved (by decide) (by decide) slowDelivery).1 "w" 3 (by decide), ?_, ?_⟩
  · decide +kernel
  · decide +kernel

end PartialGradients

end Dataflow
