import Mathlib.Data.List.Nodup
import Dataflow.Proofs.Conservation
import Dataflow.Proofs.NodeOrder

/-! # What the ledgers know

    The two ledgers of differentiation are told of one event at a time.  Here
    each of them is compared with the list of all events so far: `Tracks` says
    that the ledger knows from them exactly what it should, and there is one
    lemma for each kind of event.

    Everything after this module argues about events only. -/

namespace Dataflow

/-! ## Section 1: Readings -/

/-- Op number `op` reads `tensor` at input `index`. -/
structure Reading where
  op : OpId
  index : Nat
  tensor : TensorId
  deriving DecidableEq

/-- The name of the partial gradient along the edge. -/
def Reading.grad (r : Reading) : TensorId := Naming.edgeGrad r.tensor r.op r.index

/-- A text can be cut at the first mark in it in one way only. -/
theorem append_mark_inj {mark : Char} {xs ys xs' ys' : List Char} (hxs : mark ∉ xs)
    (hxs' : mark ∉ xs') (h : xs ++ mark :: ys = xs' ++ mark :: ys') : xs = xs' ∧ ys = ys' := by
  have hcut : ∀ {zs : List Char}, mark ∉ zs → ∀ rest,
      (zs ++ mark :: rest).takeWhile (· ≠ mark) = zs := by
    intro zs hzs rest
    have hall : ∀ c ∈ zs, decide (c ≠ mark) = true := fun c hc =>
      decide_eq_true fun heq => hzs (heq ▸ hc)
    rw [List.takeWhile_append_of_pos hall]
    simp
  have hhead := congrArg (List.takeWhile (· ≠ mark)) h
  rw [hcut hxs, hcut hxs'] at hhead
  subst hhead
  exact ⟨rfl, (List.cons.inj (List.append_cancel_left h)).2⟩

/-- The name of a partial gradient can be read from its end: digits hold no
    underscore, so the last two underscores mark where the numbers begin. -/
theorem edgeGrad_inj {t t' : TensorId} {op op' : OpId} {i i' : Nat}
    (h : Naming.edgeGrad t op i = Naming.edgeGrad t' op' i') : t = t' ∧ op = op' ∧ i = i' := by
  have hchars : (Nat.toDigits 10 i).reverse ++ '_' ::
        ((Nat.toDigits 10 op).reverse ++ '_' :: (t.toList.reverse ++ Naming.mark.toList.reverse))
      = (Nat.toDigits 10 i').reverse ++ '_' :: ((Nat.toDigits 10 op').reverse ++ '_' ::
        (t'.toList.reverse ++ Naming.mark.toList.reverse)) := by
    have htext := congrArg (fun name => name.toList.reverse) h
    simpa [Naming.edgeGrad, Nat.toString_eq_ofList_toDigits] using htext
  have hdigits : ∀ n : Nat, '_' ∉ (Nat.toDigits 10 n).reverse := fun n => by
    rw [List.mem_reverse]
    exact Nat.underscore_not_in_toDigits
  have hnumber : ∀ {m n : Nat}, (Nat.toDigits 10 m).reverse = (Nat.toDigits 10 n).reverse →
      m = n := by
    intro m n hmn
    rw [← Nat.ofDigitChars_ten_toDigits (n := m), List.reverse_inj.1 hmn,
      Nat.ofDigitChars_ten_toDigits]
  obtain ⟨hi, hrest⟩ := append_mark_inj (hdigits i) (hdigits i') hchars
  obtain ⟨hop, ht⟩ := append_mark_inj (hdigits op) (hdigits op') hrest
  exact ⟨String.toList_inj.1 (List.reverse_inj.1 (List.append_cancel_right ht)), hnumber hop,
    hnumber hi⟩

/-- Partial gradients have different names. -/
theorem Reading.grad_inj {r r' : Reading} (h : r.grad = r'.grad) : r = r' := by
  obtain ⟨op, i, t⟩ := r
  obtain ⟨op', i', t'⟩ := r'
  obtain ⟨rfl, rfl, rfl⟩ := edgeGrad_inj h
  rfl

/-- The readings of one tensor. -/
def readsOf (rs : List Reading) (t : TensorId) : List Reading := rs.filter (·.tensor = t)

theorem mem_readsOf {rs : List Reading} {t : TensorId} {r : Reading} :
    r ∈ readsOf rs t ↔ r ∈ rs ∧ r.tensor = t := by
  simp [readsOf]

@[simp] theorem readsOf_nil (t : TensorId) : readsOf [] t = [] := rfl

@[simp] theorem readsOf_append (rs rs' : List Reading) (t : TensorId) :
    readsOf (rs ++ rs') t = readsOf rs t ++ readsOf rs' t := List.filter_append ..

theorem readsOf_singleton (r : Reading) (t : TensorId) :
    readsOf [r] t = if r.tensor = t then [r] else [] := by
  unfold readsOf
  rw [List.filter_singleton]
  simp

/-! ## Section 2: Partial gradients -/

namespace PartialGradients

variable {l l' : PartialGradients} {all delivered waived delivered' waived' : List Reading}
  {taken : List TensorId} {t : TensorId}

/-- What the ledger knows of one tensor: of `all` its readings, some have been
    `delivered` and some `waived`.  When these are all, it is complete, until
    it is `taken` out. -/
structure TracksAt (l : PartialGradients) (all delivered waived : List Reading)
    (taken : List TensorId) (t : TensorId) : Prop where
  bounded : (readsOf delivered t).length + (readsOf waived t).length ≤ (readsOf all t).length
  waiting : (readsOf delivered t).length + (readsOf waived t).length < (readsOf all t).length →
    l.expected[t]? = some ((readsOf all t).length - (readsOf waived t).length) ∧
    l.arrived t = (readsOf delivered t).map Reading.grad ∧ l.complete[t]? = none ∧ t ∉ taken
  finished : (readsOf delivered t).length + (readsOf waived t).length = (readsOf all t).length →
    l.expected[t]? = none ∧ l.complete[t]? =
      if readsOf all t ≠ [] ∧ t ∉ taken then some ((readsOf delivered t).map Reading.grad) else none

/-- The ledger knows of every tensor what it should. -/
structure Tracks (l : PartialGradients) (all delivered waived : List Reading)
    (taken : List TensorId) : Prop where
  tracksAt : ∀ t, l.TracksAt all delivered waived taken t
  taken_read : ∀ t ∈ taken, readsOf all t ≠ []
  taken_nodup : taken.Nodup

/-- The readings of a tensor are its edges. -/
theorem tracksAt_iff_knows : l.TracksAt all delivered waived taken t ↔
    l.Knows t (readsOf all t).length ((readsOf delivered t).map Reading.grad)
      (readsOf waived t).length (t ∈ taken) := by
  have hread : (readsOf all t).length ≠ 0 ↔ readsOf all t ≠ [] :=
    not_congr List.length_eq_zero_iff
  have hcomplete : ∀ xs, (l.complete[t]? =
      if readsOf all t ≠ [] ∧ t ∉ taken then some xs else none) ↔
      ∀ ys, l.complete[t]? = some ys ↔ (readsOf all t).length ≠ 0 ∧ t ∉ taken ∧ ys = xs := by
    intro xs
    by_cases hc : readsOf all t ≠ [] ∧ t ∉ taken
    · rw [if_pos hc]
      constructor
      · intro h ys
        rw [h, hread, Option.some.injEq, and_iff_right hc.1, and_iff_right hc.2, eq_comm]
      · intro h
        exact (h xs).2 ⟨hread.2 hc.1, hc.2, rfl⟩
    · rw [if_neg hc]
      constructor
      · intro h ys
        rw [h]
        exact iff_of_false nofun fun hys => hc ⟨hread.1 hys.1, hys.2.1⟩
      · intro h
        rw [Option.eq_none_iff_forall_ne_some]
        intro ys hys
        obtain ⟨hne, hout, -⟩ := (h ys).1 hys
        exact hc ⟨hread.1 hne, hout⟩
  constructor
  · intro ⟨hbounded, hwaiting, hfinished⟩
    rw [hcomplete] at hfinished
    exact ⟨by rwa [List.length_map], by rwa [List.length_map], by rwa [List.length_map]⟩
  · intro ⟨hbounded, hwaiting, hfinished⟩
    rw [List.length_map] at hbounded hwaiting hfinished
    rw [← hcomplete] at hfinished
    exact ⟨hbounded, hwaiting, hfinished⟩

/-- Before anything has happened, every reading is expected. -/
theorem tracks_start {expected : Std.ExtTreeMap TensorId Nat}
    (h : ∀ t : TensorId, expected[t]? =
      if readsOf all t = [] then none else some (readsOf all t).length) :
    Tracks { expected } all [] [] [] := by
  refine ⟨fun t => ⟨Nat.zero_le _, fun hlt => ?_, fun heq => ?_⟩, nofun, List.nodup_nil⟩
  · have hread : readsOf all t ≠ [] := List.length_pos_iff.1 hlt
    refine ⟨?_, ?_, Std.ExtTreeMap.getElem?_empty, nofun⟩
    · show expected[t]? = _
      rw [h, if_neg hread]
      rfl
    · simp [arrived]
  · have hread : readsOf all t = [] := List.length_eq_zero_iff.1 heq.symm
    refine ⟨?_, ?_⟩
    · show expected[t]? = _
      rw [h, if_pos hread]
    · rw [if_neg fun hc => hc.1 hread]
      exact Std.ExtTreeMap.getElem?_empty

/-- **A delivery**: the reading joins those that have been delivered. -/
theorem Tracks.insert (h : l.Tracks all delivered waived taken) (r : Reading) {u : Unit}
    (hrun : PartialGradients.insert r.tensor r.grad l = .ok u l') :
    l'.Tracks all (delivered ++ [r]) waived taken := by
  refine ⟨fun s => tracksAt_iff_knows.2 ?_, h.taken_read, h.taken_nodup⟩
  have hknows := (tracksAt_iff_knows.1 (h.tracksAt s)).insert hrun
  by_cases hs : s = r.tensor
  · rw [if_pos hs] at hknows
    rwa [readsOf_append, readsOf_singleton, if_pos hs.symm, List.map_append]
  · rw [if_neg hs] at hknows
    rwa [readsOf_append, readsOf_singleton, if_neg fun heq => hs heq.symm, List.append_nil]

/-- **A waiver**: the reading joins those that have been waived. -/
theorem Tracks.waive (h : l.Tracks all delivered waived taken) (r : Reading) {u : Unit}
    (hrun : PartialGradients.waive r.tensor l = .ok u l') :
    l'.Tracks all delivered (waived ++ [r]) taken := by
  refine ⟨fun s => tracksAt_iff_knows.2 ?_, h.taken_read, h.taken_nodup⟩
  have hknows := (tracksAt_iff_knows.1 (h.tracksAt s)).waive hrun
  by_cases hs : s = r.tensor
  · rw [if_pos hs] at hknows
    rwa [readsOf_append, readsOf_singleton, if_pos hs.symm, List.length_append]
  · rw [if_neg hs] at hknows
    rwa [readsOf_append, readsOf_singleton, if_neg fun heq => hs heq.symm, List.append_nil]

theorem Tracks.inserts (h : l.Tracks all delivered waived taken) {rs : List Reading} {u : Unit}
    (hrun : rs.forM (fun r => PartialGradients.insert r.tensor r.grad) l = .ok u l') :
    l'.Tracks all (delivered ++ rs) waived taken := by
  induction rs generalizing l delivered with
  | nil =>
    obtain ⟨-, rfl⟩ := pure_eq_ok.1 hrun
    rwa [List.append_nil]
  | cons r rest ih =>
    obtain ⟨_, l₁, hr, hrest⟩ := forM_cons_eq_ok.1 hrun
    have hall := ih (h.insert r hr) hrest
    rwa [List.append_assoc] at hall

theorem Tracks.waives (h : l.Tracks all delivered waived taken) {rs : List Reading} {u : Unit}
    (hrun : rs.forM (fun r => PartialGradients.waive r.tensor) l = .ok u l') :
    l'.Tracks all delivered (waived ++ rs) taken := by
  induction rs generalizing l waived with
  | nil =>
    obtain ⟨-, rfl⟩ := pure_eq_ok.1 hrun
    rwa [List.append_nil]
  | cons r rest ih =>
    obtain ⟨_, l₁, hr, hrest⟩ := forM_cons_eq_ok.1 hrun
    have hall := ih (h.waive r hr) hrest
    rwa [List.append_assoc] at hall

/-- **Taking out**: exactly the complete tensors come out, each with all that
    was delivered for it. -/
theorem Tracks.takeComplete (h : l.Tracks all delivered waived taken) :
    l.takeComplete.2.Tracks all delivered waived (taken ++ l.takeComplete.1.map Prod.fst) ∧
      ∀ x ∈ l.takeComplete.1, x.2 = (readsOf delivered x.1).map Reading.grad := by
  have hknows := fun t => tracksAt_iff_knows.1 (h.tracksAt t)
  refine ⟨⟨fun t => tracksAt_iff_knows.2 ?_, fun t ht => ?_, ?_⟩, fun x hx => ?_⟩
  · rw [List.mem_append]
    exact (hknows t).takeComplete
  · cases List.mem_append.1 ht with
    | inl hold => exact h.taken_read t hold
    | inr hnew =>
      obtain ⟨xs, hxs⟩ := mem_map_takeComplete.1 hnew
      exact fun hnil => ((hknows t).mem_takeComplete.1 hxs).2.1 (by rw [hnil]; rfl)
  · exact nodup_append_takeComplete h.taken_nodup hknows
  · exact ((hknows x.1).mem_takeComplete.1 hx).2.2.2

/-- A tensor that has been taken out has nothing more to come. -/
theorem Tracks.final (h : l.Tracks all delivered waived taken) (ht : t ∈ taken)
    {rs ws : List Reading} {taken' : List TensorId}
    (h' : l'.Tracks all (delivered ++ rs) (waived ++ ws) taken') :
    readsOf (delivered ++ rs) t = readsOf delivered t := by
  have hat := h.tracksAt t
  have hfinished : (readsOf delivered t).length + (readsOf waived t).length
      = (readsOf all t).length := by
    rcases Nat.lt_or_eq_of_le hat.bounded with hlt | heq
    · exact absurd ht (hat.waiting hlt).2.2.2
    · exact heq
  have hbound := (h'.tracksAt t).bounded
  rw [readsOf_append, readsOf_append, List.length_append, List.length_append] at hbound
  have hnone : readsOf rs t = [] := List.length_eq_zero_iff.1 (by omega)
  rw [readsOf_append, hnone, List.append_nil]

end PartialGradients

/-! ## Section 3: Gradients of the outputs of ops -/

/-- The op can have its gradient ops grown as soon as every output that is
    required has its gradient, and one output has. -/
def Op.Prompt (o : Op) : Prop :=
  ∀ available required : Std.ExtTreeSet Nat, (∃ i, i ∈ available) →
    (∀ i ∈ available, (o.outputs.get? i).isSome) → (∀ i ∈ required, (o.outputs.get? i).isSome) →
    (o.operator.isReady available required ↔ ∀ i ∈ required, i ∈ available)

/-- The op is prompt as long as only some of its outputs are spoken of. -/
def Op.PromptOn (o : Op) (outputs : Nat → Prop) : Prop :=
  ∀ available required : Std.ExtTreeSet Nat, (∃ i, i ∈ available) → (∀ i ∈ available, outputs i) →
    (∀ i ∈ required, outputs i) →
    (o.operator.isReady available required ↔ ∀ i ∈ required, i ∈ available)

theorem Op.Prompt.promptOn {o : Op} (h : o.Prompt) :
    o.PromptOn fun i => (o.outputs.get? i).isSome := h

namespace OutputGradients

variable {l l' : OutputGradients} {needed : OpId → Nat → Prop} {told struck : List (OpId × Nat)}
  {requested retired : List OpId} {op p : OpId} {o : Op} {index : Nat} {outputs : Nat → Prop}

/-- What the ledger knows of one op: of the outputs that are `needed`, some
    have been `told` of and some `struck` off.  The op is done with once it has
    been `requested` or `retired`. -/
structure TracksAt (l : OutputGradients) (needed : OpId → Nat → Prop)
    (told struck : List (OpId × Nat)) (requested retired : List OpId) (op : OpId) : Prop where
  closed : op ∈ l.closed ↔ op ∈ requested ∨ op ∈ retired
  available : op ∉ l.closed → ∀ i, i ∈ l.available op ↔ (op, i) ∈ told
  required : op ∉ l.closed → ∀ i, i ∈ l.required.getD op ∅ ↔ needed op i ∧ (op, i) ∉ struck
  complete : op ∈ l.complete ↔ op ∉ l.closed ∧ (∃ i, (op, i) ∈ told) ∧
    ∀ i, needed op i → (op, i) ∉ struck → (op, i) ∈ told
  /-- As long as an op is not done with, there is something to hope for. -/
  hope : op ∉ l.closed → (∃ i, needed op i) →
    (∃ i, (op, i) ∈ told) ∨ ∃ i, needed op i ∧ (op, i) ∉ struck
  /-- An op is done with only when the fate of each of its outputs is known. -/
  decided : op ∈ l.closed → ∀ i, needed op i → (op, i) ∈ told ∨ (op, i) ∈ struck
  requested_told : op ∈ requested → ∃ i, (op, i) ∈ told
  retired_untold : op ∈ retired → ∀ i, (op, i) ∉ told

/-- The ledger knows of every op what it should. -/
structure Tracks (l : OutputGradients) (needed : OpId → Nat → Prop)
    (told struck : List (OpId × Nat)) (requested retired : List OpId) : Prop where
  tracksAt : ∀ op, l.TracksAt needed told struck requested retired op
  requested_nodup : requested.Nodup

/-- Before anything has happened, all that is needed is required. -/
theorem tracks_start {required : Std.ExtTreeMap OpId (Std.ExtTreeSet Nat)}
    (h : ∀ op i, i ∈ required.getD op ∅ ↔ needed op i) :
    Tracks { required } needed [] [] [] [] := by
  refine ⟨fun op => ⟨?_, fun _ i => ?_, fun _ i => ?_, ?_, fun _ hsome => ?_, fun hclosed => ?_,
    nofun, nofun⟩, List.nodup_nil⟩
  · simp
  · simp [available]
  · simp [h]
  · simp
  · obtain ⟨i, hi⟩ := hsome
    exact .inr ⟨i, hi, List.not_mem_nil⟩
  · exact absurd hclosed Std.ExtTreeSet.not_mem_empty

/-- What is known of one op does not depend on the others. -/
theorem TracksAt.congr {told' struck' : List (OpId × Nat)} {requested' retired' : List OpId}
    (h : l.TracksAt needed told struck requested retired op)
    (hclosed : op ∈ l'.closed ↔ op ∈ l.closed) (havailable : l'.available op = l.available op)
    (hrequired : l'.required.getD op ∅ = l.required.getD op ∅)
    (hcomplete : op ∈ l'.complete ↔ op ∈ l.complete)
    (htold : ∀ i, (op, i) ∈ told' ↔ (op, i) ∈ told)
    (hstruck : ∀ i, (op, i) ∈ struck' ↔ (op, i) ∈ struck)
    (hrequested : op ∈ requested' ↔ op ∈ requested) (hretired : op ∈ retired' ↔ op ∈ retired) :
    l'.TracksAt needed told' struck' requested' retired' op := by
  constructor
  · rw [hclosed, hrequested, hretired]
    exact h.closed
  · simp only [hclosed, havailable, htold]
    exact h.available
  · simp only [hclosed, hrequired, hstruck]
    exact h.required
  · simp only [hclosed, hcomplete, hstruck, htold]
    exact h.complete
  · simp only [hclosed, hstruck, htold]
    exact h.hope
  · simp only [hclosed, hstruck, htold]
    exact h.decided
  · simp only [hrequested, htold]
    exact h.requested_told
  · simp only [hretired, htold]
    exact h.retired_untold

/-- Of an op that is done with there is nothing more to know. -/
theorem tracksAt_done (hclosed : op ∈ l.closed) (hcomplete : op ∉ l.complete)
    (hdone : op ∈ requested ∨ op ∈ retired)
    (hdecided : ∀ i, needed op i → (op, i) ∈ told ∨ (op, i) ∈ struck)
    (hrequested : op ∈ requested → ∃ i, (op, i) ∈ told)
    (hretired : op ∈ retired → ∀ i, (op, i) ∉ told) :
    l.TracksAt needed told struck requested retired op where
  closed := iff_of_true hclosed hdone
  available := fun hopen => absurd hclosed hopen
  required := fun hopen => absurd hclosed hopen
  complete := iff_of_false hcomplete fun hc => hc.1 hclosed
  hope := fun hopen => absurd hclosed hopen
  decided := fun _ => hdecided
  requested_told := hrequested
  retired_untold := hretired

/-- What an entry does to the ledger: only op number `op` is affected. -/
theorem insert_eq_ok {u : Unit} (hrun : OutputGradients.insert op o index l = .ok u l') :
    op ∉ l.closed ∧ l'.closed = l.closed ∧ l'.required = l.required ∧
      l'.available op = (l.available op).insert index ∧
      (∀ p, p ≠ op → l'.available p = l.available p ∧ (p ∈ l'.complete ↔ p ∈ l.complete)) ∧
      (op ∈ l'.complete ↔ op ∈ l.complete ∨
        o.operator.isReady ((l.available op).insert index) (l.required.getD op ∅)) := by
  unfold OutputGradients.insert at hrun
  split at hrun
  · cases hrun
  · rename_i hopen
    rw [Std.ExtTreeSet.contains_iff_mem] at hopen
    split at hrun
    · cases hrun
    · have hother : ∀ p, p ≠ op →
          (l.held.insert op ((l.available op).insert index)).getD p ∅ = l.available p := by
        intro p hp
        have hop : ¬ op = p := fun heq => hp heq.symm
        simp [available, Std.ExtTreeMap.getD_insert, hop]
      simp only at hrun
      split at hrun
      · rename_i hready
        cases hrun
        refine ⟨hopen, rfl, rfl, ?_, fun p hp => ⟨hother p hp, ?_⟩, ?_⟩
        · simp [available]
        · rw [Std.ExtTreeSet.mem_insert, Std.compare_eq_iff_eq]
          exact or_iff_right fun heq => hp heq.symm
        · exact iff_of_true Std.ExtTreeSet.mem_insert_self (.inr hready)
      · rename_i hready
        cases hrun
        refine ⟨hopen, rfl, rfl, ?_, fun p hp => ⟨hother p hp, Iff.rfl⟩, ?_⟩
        · simp [available]
        · exact (or_iff_left hready).symm

theorem exists_mem_of_ne_empty {s : Std.ExtTreeSet Nat} (h : s ≠ ∅) : ∃ i, i ∈ s := by
  rw [Ne, Std.ExtTreeSet.eq_empty_iff_forall_not_mem] at h
  simpa using h

/-- Readiness, in terms of what has happened. -/
theorem isReady_iff {available required : Std.ExtTreeSet Nat} (hprompt : o.PromptOn outputs)
    (hneeded : ∀ i, needed op i → outputs i) (htold : ∀ i, (op, i) ∈ told → outputs i)
    (havailable : ∀ i, i ∈ available ↔ (op, i) ∈ told)
    (hrequired : ∀ i, i ∈ required ↔ needed op i ∧ (op, i) ∉ struck)
    (hsome : ∃ i, i ∈ available) :
    o.operator.isReady available required ↔
      ∀ i, needed op i → (op, i) ∉ struck → (op, i) ∈ told := by
  rw [hprompt available required hsome (fun i hi => htold i ((havailable i).1 hi))
    (fun i hi => hneeded i ((hrequired i).1 hi).1)]
  constructor
  · intro hall i hi hs
    exact (havailable i).1 (hall i ((hrequired i).2 ⟨hi, hs⟩))
  · intro hall i hi
    obtain ⟨hi, hs⟩ := (hrequired i).1 hi
    exact (havailable i).2 (hall i hi hs)

/-- **Telling** of an output: it joins those the ledger has been told of. -/
theorem TracksAt.insert_self (h : l.TracksAt needed told struck requested retired op)
    (hprompt : o.PromptOn outputs) (hneeded : ∀ i, needed op i → outputs i)
    (htold : ∀ i, (op, i) ∈ told → outputs i) (hindex : outputs index) {u : Unit}
    (hrun : OutputGradients.insert op o index l = .ok u l') :
    l'.TracksAt needed (told ++ [(op, index)]) struck requested retired op := by
  obtain ⟨hopen, hclosed, hrequired, havailable, -, hcomplete⟩ := insert_eq_ok hrun
  have htold' : ∀ i, i ∈ l'.available op ↔ (op, i) ∈ told ++ [(op, index)] := by
    intro i
    rw [havailable, Std.ExtTreeSet.mem_insert, h.available hopen i, List.mem_append,
      List.mem_singleton, Prod.mk.injEq, Std.compare_eq_iff_eq, or_comm]
    simp [eq_comm]
  have hsome : ∃ i, i ∈ l'.available op := ⟨index, (htold' index).2 (by simp)⟩
  have houtputs : ∀ i, (op, i) ∈ told ++ [(op, index)] → outputs i := by
    intro i hi
    rcases List.mem_append.1 hi with hi | hi
    · exact htold i hi
    · cases List.mem_singleton.1 hi
      exact hindex
  have hneeds : ∀ i, i ∈ l'.required.getD op ∅ ↔ needed op i ∧ (op, i) ∉ struck := by
    rw [hrequired]
    exact h.required hopen
  have hready := isReady_iff hprompt hneeded houtputs htold' hneeds hsome
  constructor
  · rw [hclosed]
    exact h.closed
  · exact fun _ => htold'
  · rw [hrequired, hclosed]
    exact h.required
  · rw [hcomplete, ← havailable, ← hrequired, hready, hclosed]
    constructor
    · rintro (hold | hall)
      · refine ⟨hopen, ⟨index, by simp⟩, fun i hi hs => ?_⟩
        exact List.mem_append_left _ ((h.complete.1 hold).2.2 i hi hs)
      · exact ⟨hopen, ⟨index, by simp⟩, hall⟩
    · exact fun hall => .inr hall.2.2
  · exact fun _ _ => .inl ⟨index, by simp⟩
  · rw [hclosed]
    exact fun hdone => absurd hdone hopen
  · exact fun _ => ⟨index, by simp⟩
  · exact fun hretired => absurd (h.closed.2 (.inr hretired)) hopen

theorem TracksAt.insert_other (h : l.TracksAt needed told struck requested retired p)
    (hp : p ≠ op) {u : Unit} (hrun : OutputGradients.insert op o index l = .ok u l') :
    l'.TracksAt needed (told ++ [(op, index)]) struck requested retired p := by
  obtain ⟨-, hclosed, hrequired, -, hother, -⟩ := insert_eq_ok hrun
  obtain ⟨hheld, hdone⟩ := hother p hp
  refine h.congr (by rw [hclosed]) hheld (by rw [hrequired]) hdone (fun i => ?_)
    (fun _ => Iff.rfl) Iff.rfl Iff.rfl
  simp [hp]

theorem Tracks.insert (h : l.Tracks needed told struck requested retired) (hprompt : o.Prompt)
    (hneeded : ∀ i, needed op i → (o.outputs.get? i).isSome)
    (htold : ∀ i, (op, i) ∈ told → (o.outputs.get? i).isSome)
    (hindex : (o.outputs.get? index).isSome) {u : Unit}
    (hrun : OutputGradients.insert op o index l = .ok u l') :
    l'.Tracks needed (told ++ [(op, index)]) struck requested retired := by
  refine ⟨fun p => ?_, h.requested_nodup⟩
  by_cases hp : p = op
  · subst hp
    exact (h.tracksAt p).insert_self hprompt.promptOn hneeded htold hindex hrun
  · exact (h.tracksAt p).insert_other hp hrun

/-- What striking an output off does to the ledger: only op number `op` is
    affected, and only if it is not done with. -/
theorem waive_eq {given : Bool} (hrun : l.waive op o index = (given, l')) :
    (op ∈ l.closed ∧ given = false ∧ l' = l) ∨
    (op ∉ l.closed ∧ l'.held = l.held ∧
      l'.required = l.required.insert op ((l.required.getD op ∅).erase index) ∧
      (∀ p, p ≠ op → (p ∈ l'.closed ↔ p ∈ l.closed) ∧ (p ∈ l'.complete ↔ p ∈ l.complete)) ∧
      (given = true → op ∈ l'.closed ∧ op ∉ l'.complete ∧ l.available op = ∅ ∧
        (l.required.getD op ∅).erase index = ∅) ∧
      (given = false → op ∉ l'.closed ∧
        (l.available op = ∅ → (l.required.getD op ∅).erase index ≠ ∅ ∧
          (op ∈ l'.complete ↔ op ∈ l.complete)) ∧
        (l.available op ≠ ∅ → (op ∈ l'.complete ↔ op ∈ l.complete ∨
          o.operator.isReady (l.available op) ((l.required.getD op ∅).erase index))))) := by
  unfold waive at hrun
  split at hrun
  · rename_i hclosed
    cases hrun
    exact .inl ⟨Std.ExtTreeSet.contains_iff_mem.1 hclosed, rfl, rfl⟩
  · rename_i hopen
    rw [Std.ExtTreeSet.contains_iff_mem] at hopen
    have hheld : ∀ required, (l.require op required).available op = l.available op := fun _ => rfl
    refine .inr ⟨hopen, ?_⟩
    simp only [hheld] at hrun
    have hinsert : ∀ (s : Std.ExtTreeSet OpId) p, p ≠ op → (p ∈ s.insert op ↔ p ∈ s) := by
      intro s p hp
      rw [Std.ExtTreeSet.mem_insert, Std.compare_eq_iff_eq]
      exact or_iff_right fun heq => hp heq.symm
    have herase : ∀ (s : Std.ExtTreeSet OpId) p, p ≠ op → (p ∈ s.erase op ↔ p ∈ s) := by
      intro s p hp
      rw [Std.ExtTreeSet.mem_erase, Ne, Std.compare_eq_iff_eq]
      exact and_iff_right fun heq => hp heq.symm
    split at hrun
    · -- no output has a gradient: the op is given up if none is required any more
      rename_i hnone
      rw [Std.ExtTreeSet.isEmpty_iff] at hnone
      split at hrun
      · rename_i hlast
        rw [Std.ExtTreeSet.isEmpty_iff] at hlast
        cases hrun
        refine ⟨rfl, rfl, fun p hp => ⟨hinsert _ p hp, herase _ p hp⟩,
          fun _ => ⟨?_, ?_, hnone, hlast⟩, nofun⟩
        · exact Std.ExtTreeSet.mem_insert_self
        · simp
      · rename_i hsome
        rw [Std.ExtTreeSet.isEmpty_iff] at hsome
        cases hrun
        exact ⟨rfl, rfl, fun _ _ => ⟨Iff.rfl, Iff.rfl⟩, nofun,
          fun _ => ⟨hopen, fun _ => ⟨hsome, Iff.rfl⟩, fun hne => absurd hnone hne⟩⟩
    · -- some output has one: what is required has shrunk, so the op may be ready now
      rename_i hsome
      rw [Std.ExtTreeSet.isEmpty_iff] at hsome
      split at hrun
      · rename_i hready
        cases hrun
        refine ⟨rfl, rfl, fun p hp => ⟨Iff.rfl, hinsert _ p hp⟩, nofun,
          fun _ => ⟨hopen, fun hnone => absurd hnone hsome, fun _ => ?_⟩⟩
        exact iff_of_true Std.ExtTreeSet.mem_insert_self (.inr hready)
      · rename_i hready
        cases hrun
        exact ⟨rfl, rfl, fun _ _ => ⟨Iff.rfl, Iff.rfl⟩, nofun,
          fun _ => ⟨hopen, fun hnone => absurd hnone hsome, fun _ => (or_iff_left hready).symm⟩⟩

theorem TracksAt.untold (h : l.TracksAt needed told struck requested retired op)
    (hopen : op ∉ l.closed) (hnone : l.available op = ∅) (i : Nat) : (op, i) ∉ told := by
  intro hi
  have hin := (h.available hopen i).2 hi
  rw [hnone] at hin
  exact Std.ExtTreeSet.not_mem_empty hin

theorem TracksAt.exists_told (h : l.TracksAt needed told struck requested retired op)
    (hopen : op ∉ l.closed) (hsome : l.available op ≠ ∅) : ∃ i, (op, i) ∈ told := by
  obtain ⟨i, hi⟩ := exists_mem_of_ne_empty hsome
  exact ⟨i, (h.available hopen i).1 hi⟩

/-- What is still required once an output has been struck off. -/
theorem TracksAt.mem_required_erase (h : l.TracksAt needed told struck requested retired op)
    (hopen : op ∉ l.closed) (index i : Nat) : i ∈ (l.required.getD op ∅).erase index ↔
      needed op i ∧ (op, i) ∉ struck ++ [(op, index)] := by
  rw [Std.ExtTreeSet.mem_erase, h.required hopen i, Ne, Std.compare_eq_iff_eq]
  simp only [List.mem_append, List.mem_singleton, Prod.mk.injEq, true_and, not_or]
  grind

/-- Striking off an output of an op that goes on hoping. -/
theorem TracksAt.strike (h : l.TracksAt needed told struck requested retired op)
    (hprompt : o.PromptOn outputs) (hneeded : ∀ i, needed op i → outputs i)
    (htold : ∀ i, (op, i) ∈ told → outputs i)
    (hopen : op ∉ l.closed) (hopen' : op ∉ l'.closed) (hheld : l'.held = l.held)
    (hrequired : l'.required = l.required.insert op ((l.required.getD op ∅).erase index))
    (hempty : l.available op = ∅ → (l.required.getD op ∅).erase index ≠ ∅ ∧
      (op ∈ l'.complete ↔ op ∈ l.complete))
    (hsome : l.available op ≠ ∅ → (op ∈ l'.complete ↔ op ∈ l.complete ∨
      o.operator.isReady (l.available op) ((l.required.getD op ∅).erase index))) :
    l'.TracksAt needed told (struck ++ [(op, index)]) requested retired op := by
  have hleft := h.mem_required_erase hopen index
  constructor
  · rw [← h.closed]
    exact iff_of_false hopen' hopen
  · have havailable : l'.available op = l.available op := by
      simp [OutputGradients.available, hheld]
    rw [havailable]
    exact fun _ => h.available hopen
  · rw [hrequired, Std.ExtTreeMap.getD_insert_self]
    exact fun _ => hleft
  · -- completeness: without a gradient the op is not complete, before and after
    by_cases hn : l.available op = ∅
    · have huntold := h.untold hopen hn
      rw [(hempty hn).2, h.complete]
      exact iff_of_false (fun hc => hc.2.1.elim huntold) fun hc => hc.2.1.elim huntold
    · obtain ⟨j, hj⟩ := h.exists_told hopen hn
      rw [hsome hn, h.complete, isReady_iff hprompt hneeded htold (h.available hopen) hleft
        ⟨j, (h.available hopen j).2 hj⟩]
      constructor
      · rintro (⟨-, -, hall⟩ | hall)
        · exact ⟨hopen', ⟨j, hj⟩, fun i hi hs => hall i hi fun hin =>
            hs (List.mem_append_left _ hin)⟩
        · exact ⟨hopen', ⟨j, hj⟩, hall⟩
      · exact fun hc => .inr hc.2.2
  · -- hope: an output with a gradient, or one that is still required
    intro _ _
    by_cases hn : l.available op = ∅
    · obtain ⟨i, hi⟩ := exists_mem_of_ne_empty (hempty hn).1
      exact .inr ⟨i, (hleft i).1 hi⟩
    · exact .inl (h.exists_told hopen hn)
  · exact fun hclosed => absurd hclosed hopen'
  · exact h.requested_told
  · exact h.retired_untold

/-- **Striking off** an output.  An op that is done with does not care. -/
theorem TracksAt.waive_self (h : l.TracksAt needed told struck requested retired op)
    (hprompt : o.PromptOn outputs) (hneeded : ∀ i, needed op i → outputs i)
    (htold : ∀ i, (op, i) ∈ told → outputs i) {given : Bool}
    (hrun : l.waive op o index = (given, l')) :
    l'.TracksAt needed told (struck ++ [(op, index)]) requested
      (if given then retired ++ [op] else retired) op := by
  rcases waive_eq hrun with ⟨hclosed, rfl, rfl⟩ | ⟨hopen, hheld, hrequired, -, hgiven, hkept⟩
  · refine tracksAt_done hclosed (fun hc => (h.complete.1 hc).1 hclosed) (h.closed.1 hclosed)
      (fun i hi => ?_) h.requested_told h.retired_untold
    exact (h.decided hclosed i hi).imp_right (List.mem_append_left _)
  · cases given with
    | true =>
      obtain ⟨hclosed, hcomplete, hnone, hlast⟩ := hgiven rfl
      refine tracksAt_done hclosed hcomplete (.inr (by simp)) (fun i hi => .inr ?_)
        (fun hr => absurd (h.closed.2 (.inl hr)) hopen) fun _ => h.untold hopen hnone
      -- nothing is required any more, so every output has been struck off
      by_contra hs
      have hin := (h.mem_required_erase hopen index i).2 ⟨hi, hs⟩
      rw [hlast] at hin
      exact Std.ExtTreeSet.not_mem_empty hin
    | false =>
      obtain ⟨hopen', hempty, hsome⟩ := hkept rfl
      exact h.strike hprompt hneeded htold hopen hopen' hheld hrequired hempty hsome

theorem TracksAt.waive_other (h : l.TracksAt needed told struck requested retired p)
    (hp : p ≠ op) {given : Bool} (hrun : l.waive op o index = (given, l')) :
    l'.TracksAt needed told (struck ++ [(op, index)]) requested
      (if given then retired ++ [op] else retired) p := by
  have hstruck : ∀ i, (p, i) ∈ struck ++ [(op, index)] ↔ (p, i) ∈ struck := by
    intro i
    simp [hp]
  have hretired : p ∈ (if given then retired ++ [op] else retired) ↔ p ∈ retired := by
    split <;> simp [hp]
  rcases waive_eq hrun with ⟨-, -, rfl⟩ | ⟨-, hheld, hrequired, hother, -, -⟩
  · exact h.congr Iff.rfl rfl rfl Iff.rfl (fun _ => Iff.rfl) hstruck Iff.rfl hretired
  · obtain ⟨hclosed, hcomplete⟩ := hother p hp
    refine h.congr hclosed ?_ ?_ hcomplete (fun _ => Iff.rfl) hstruck Iff.rfl hretired
    · simp [OutputGradients.available, hheld]
    · have hop : ¬ op = p := fun heq => hp heq.symm
      simp [hrequired, Std.ExtTreeMap.getD_insert, hop]

/-- An op that is given up was not done with. -/
theorem waive_open (hrun : l.waive op o index = (true, l')) : op ∉ l.closed := by
  rcases waive_eq hrun with ⟨-, hfalse, -⟩ | ⟨hopen, -⟩
  · cases hfalse
  · exact hopen

theorem Tracks.waive (h : l.Tracks needed told struck requested retired) (hprompt : o.Prompt)
    (hneeded : ∀ i, needed op i → (o.outputs.get? i).isSome)
    (htold : ∀ i, (op, i) ∈ told → (o.outputs.get? i).isSome)
    {given : Bool} (hrun : l.waive op o index = (given, l')) :
    l'.Tracks needed told (struck ++ [(op, index)]) requested
        (if given then retired ++ [op] else retired) ∧
      (given = true → op ∉ requested ∧ op ∉ retired) := by
  refine ⟨⟨fun p => ?_, h.requested_nodup⟩, fun hgiven => ?_⟩
  · by_cases hp : p = op
    · subst hp
      exact (h.tracksAt p).waive_self hprompt.promptOn hneeded htold hrun
    · exact (h.tracksAt p).waive_other hp hrun
  · subst hgiven
    rw [← not_or, ← (h.tracksAt op).closed]
    exact waive_open hrun

theorem getD_foldl_erase {ops : List OpId} {held : Std.ExtTreeMap OpId (Std.ExtTreeSet Nat)}
    (h : op ∉ ops) :
    (ops.foldl (fun held op => held.erase op) held).getD op ∅ = held.getD op ∅ := by
  induction ops generalizing held with
  | nil => rfl
  | cons p rest ih =>
    rw [List.mem_cons, not_or] at h
    have hp : ¬ p = op := fun heq => h.1 heq.symm
    rw [List.foldl_cons, ih h.2]
    simp [Std.ExtTreeMap.getD_erase, hp]

theorem mem_takeComplete_ops : p ∈ l.takeComplete.1 ↔ p ∈ l.complete :=
  Std.ExtTreeSet.mem_toList

theorem mem_closed_takeComplete :
    p ∈ l.takeComplete.2.closed ↔ p ∈ l.closed ∨ p ∈ l.takeComplete.1 := by
  rw [mem_takeComplete_ops]
  exact Std.ExtTreeSet.mem_union_iff

/-- **Taking out**: exactly the complete ops come out, and they are requested. -/
theorem TracksAt.takeComplete (h : l.TracksAt needed told struck requested retired p) :
    l.takeComplete.2.TracksAt needed told struck (requested ++ l.takeComplete.1) retired p := by
  by_cases hp : p ∈ l.takeComplete.1
  · obtain ⟨-, htold, hall⟩ := h.complete.1 (mem_takeComplete_ops.1 hp)
    refine tracksAt_done (mem_closed_takeComplete.2 (.inr hp)) Std.ExtTreeSet.not_mem_empty
      (.inl (List.mem_append_right _ hp)) (fun i hi => ?_) (fun _ => htold) h.retired_untold
    by_cases hs : (p, i) ∈ struck
    · exact .inr hs
    · exact .inl (hall i hi hs)
  · refine h.congr ?_ ?_ rfl (iff_of_false Std.ExtTreeSet.not_mem_empty fun hc =>
      hp (mem_takeComplete_ops.2 hc)) (fun _ => Iff.rfl) (fun _ => Iff.rfl) ?_ Iff.rfl
    · rw [mem_closed_takeComplete]
      exact or_iff_left hp
    · exact getD_foldl_erase hp
    · rw [List.mem_append]
      exact or_iff_left hp

theorem Tracks.takeComplete (h : l.Tracks needed told struck requested retired) :
    l.takeComplete.2.Tracks needed told struck (requested ++ l.takeComplete.1) retired := by
  refine ⟨fun p => (h.tracksAt p).takeComplete, ?_⟩
  rw [List.nodup_append]
  refine ⟨h.requested_nodup, nodup_toList _, ?_⟩
  intro p hp p' hp' heq
  subst heq
  have hat := h.tracksAt p
  exact (hat.complete.1 (mem_takeComplete_ops.1 hp')).1 (hat.closed.2 (.inl hp))

end OutputGradients

end Dataflow
