import Dataflow.Proofs.Reachability

/-! # Live sets of a schedule

    At a step of a schedule, an op is live if it has run and a later op reads
    one of its outputs.  To find the live sets, the last position is looked up
    at which an output of an op is read, and every reader has to come later
    than the op itself.

    A schedule runs every op after those that it reads from, apart from itself:
    an op that reads its own output is scheduled all the same.  So the live
    sets of a schedule can be found exactly if no op reads its own output. -/

namespace Dataflow

open Dataflow.Graph

/-! ## Section 1: Loops that look for a last position -/

/-- If each step takes the later of two positions, a loop finds the last one.
    Positions are given by what comes before them. -/
theorem foldlM_last {ε α : Type} {f : Nat → α → Except ε Nat} {xs : List α}
    {Later : α → Nat → Prop} (last : Nat)
    (hf : ∀ x ∈ xs, ∀ last, ∃ last', f last x = .ok last' ∧
      ∀ k, k < last' ↔ k < last ∨ Later x k) :
    ∃ last', xs.foldlM f last = .ok last' ∧ ∀ k, k < last' ↔ k < last ∨ ∃ x ∈ xs, Later x k := by
  induction xs generalizing last with
  | nil => exact ⟨last, rfl, by simp⟩
  | cons x xs ih =>
    obtain ⟨next, hnext, hx⟩ := hf x List.mem_cons_self last
    obtain ⟨last', hlast, hxs⟩ := ih next fun y hy => hf y (List.mem_cons_of_mem x hy)
    refine ⟨last', ?_, fun k => ?_⟩
    · rw [List.foldlM_cons]
      exact except_bind_eq_ok.2 ⟨next, hnext, hlast⟩
    · rw [hxs, hx, or_assoc]
      simp

namespace Graph

variable {g : Graph} {order : List OpId} {position : Std.ExtTreeMap OpId Nat}

/-! ## Section 2: Positions -/

theorem place_eq_ok {table : Std.ExtTreeMap OpId Nat} {op : OpId} (hop : (g.op? op).isSome)
    (hfree : table[op]? = none) (pos : Nat) :
    g.place table op pos = .ok (table.insert op pos) := by
  obtain ⟨o, ho⟩ := Option.isSome_iff_exists.1 hop
  have hnot : table.contains op = false := by
    rw [Std.ExtTreeMap.contains_eq_isSome_getElem?, hfree]
    rfl
  refine except_bind_eq_ok.2 ⟨o, requireOp_eq_ok.2 ho, ?_⟩
  simp only [hnot]
  rfl

/-- The table gives every op of the order its position. -/
def Places (order : List OpId) (table : Std.ExtTreeMap OpId Nat) : Prop :=
  ∀ (op : OpId) (p : Nat), table[op]? = some p ↔ order[p]? = some op

namespace Places

theorem of_not_mem (h : Places order position) {op : OpId} (hop : op ∉ order) :
    position[op]? = none := by
  cases hp : position[op]? with
  | none => rfl
  | some p => exact absurd (List.mem_of_getElem? ((h op p).1 hp)) hop

/-- One more op gets the next position. -/
theorem snoc (h : Places order position) {x : OpId} (hx : x ∉ order) :
    Places (order ++ [x]) (position.insert x order.length) := by
  intro op p
  have hget : (order ++ [x])[p]? = some op ↔
      order[p]? = some op ∨ p = order.length ∧ op = x := by
    rw [List.getElem?_append]
    split
    · rename_i hlt
      simp [Nat.ne_of_lt hlt]
    · rename_i hge
      rw [List.getElem?_eq_none (Nat.not_lt.1 hge)]
      by_cases hp : p = order.length
      · simp [hp, eq_comm]
      · rw [List.getElem?_eq_none (by simp; omega)]
        simp [hp]
  rw [hget, ← h, Std.ExtTreeMap.getElem?_insert]
  by_cases heq : op = x
  · rw [heq, h.of_not_mem hx]
    simp [eq_comm]
  · simp [heq, Ne.symm heq]

end Places

/-- **Positions**, step by step: those of the ops up to here are in the table. -/
theorem foldlM_place (done : List OpId) {rest : List OpId} {table : Std.ExtTreeMap OpId Nat}
    (hexist : ∀ op ∈ rest, (g.op? op).isSome) (hnodup : (done ++ rest).Nodup)
    (h : Places done table) :
    ∃ table', (rest.zipIdx done.length).foldlM (fun table x => g.place table x.1 x.2) table
        = .ok table' ∧ Places (done ++ rest) table' := by
  induction rest generalizing done table with
  | nil => exact ⟨table, rfl, by simpa using h⟩
  | cons x rest ih =>
    have hx : x ∉ done := fun hmem =>
      (List.nodup_append.1 hnodup).2.2 x hmem x List.mem_cons_self rfl
    have hplace := place_eq_ok (hexist x List.mem_cons_self) (h.of_not_mem hx) done.length
    rw [← List.singleton_append, ← List.append_assoc] at hnodup
    obtain ⟨table', hrun, hplaces⟩ := ih (done ++ [x])
      (fun op hop => hexist op (List.mem_cons_of_mem x hop)) hnodup (h.snoc hx)
    rw [List.length_append, List.length_singleton] at hrun
    refine ⟨table', ?_, by simpa using hplaces⟩
    rw [List.zipIdx_cons, List.foldlM_cons]
    exact except_bind_eq_ok.2 ⟨_, hplace, hrun⟩

theorem positions_eq_ok (hexist : ∀ op ∈ order, (g.op? op).isSome) (hnodup : order.Nodup) :
    ∃ position, g.positions order = .ok position ∧ Places order position :=
  foldlM_place [] hexist hnodup (by simp [Places])

/-! ## Section 3: The last use of an op -/

section LastUse

variable {pos last : Nat} {op reader : OpId} {e : GraphError}

/-- The reader has a position after `pos`. -/
def Follows (position : Std.ExtTreeMap OpId Nat) (pos : Nat) (reader : OpId) : Prop :=
  ∃ p, position[reader]? = some p ∧ pos < p

theorem Places.follows_iff (h : Places order position) :
    Follows position pos reader ↔ ∃ m > pos, order[m]? = some reader := by
  simp only [Follows, h reader, and_comm, gt_iff_lt]

theorem Places.follows_of_before (h : Places order position) (hnodup : order.Nodup)
    (hop : order[pos]? = some op) (hbefore : Before order op reader) :
    Follows position pos reader := by
  obtain ⟨m, hm⟩ := List.mem_iff_getElem?.1 hbefore.right_mem
  exact h.follows_iff.2 ⟨m, hbefore.lt hnodup hop hm, hm⟩

theorem awaitReader_eq_ok {p : Nat} (hp : position[reader]? = some p) (hlt : pos < p) :
    awaitReader position pos op last reader = .ok (max last p) := by
  simp [awaitReader, hp, hlt]

theorem awaitReader_eq_error (h : ¬ Follows position pos reader) :
    awaitReader position pos op last reader
      = .error (.internal s!"schedule does not run consumer {reader} after op {op}") := by
  unfold awaitReader
  cases hp : position[reader]? with
  | none => rfl
  | some p => exact if_neg fun hlt => h ⟨p, hp, hlt⟩

/-- The readers of the outputs of an op are the ops that it feeds. -/
theorem WellWired.feeds_iff (hg : g.WellWired) {o : Op} (ho : g.op? op = some o) :
    g.Feeds op reader ↔
      ∃ output ∈ o.outputs.toList, ∃ t, g.tensor? output.2 = some t ∧ reader ∈ t.readers.ops := by
  have hreaders : ∀ {tensor t}, g.tensor? tensor = some t →
      (reader ∈ t.readers.ops ↔ ∃ i, g.inputAt reader i = some tensor) := by
    intro tensor t ht
    rw [← hg.reader_iff, readers, ht]
  constructor
  · rintro ⟨j, tensor, hj, hp⟩
    obtain ⟨i, hi⟩ := (hg.produces tensor op).1 hp
    obtain ⟨t, ht⟩ := hg.input_exists hj
    rw [outputAt_eq ho] at hi
    exact ⟨(i, tensor), Ports.mem_toList.2 hi, t, ht, (hreaders ht).2 ⟨j, hj⟩⟩
  · rintro ⟨⟨i, tensor⟩, hmem, t, ht, hr⟩
    obtain ⟨j, hj⟩ := (hreaders ht).1 hr
    refine ⟨j, tensor, hj, (hg.produces tensor op).2 ⟨i, ?_⟩⟩
    rw [outputAt_eq ho]
    exact Ports.mem_toList.1 hmem

/-- **The last use** of an op whose readers all come after it. -/
theorem WellWired.lastUse_eq_ok (hg : g.WellWired) (hop : (g.op? op).isSome)
    (hlater : ∀ reader, g.Feeds op reader → Follows position pos reader) :
    ∃ last, g.lastUse position pos op = .ok last ∧ ∀ k, k < last ↔
      k < pos ∨ ∃ reader, g.Feeds op reader ∧ Follows position k reader := by
  obtain ⟨o, ho⟩ := Option.isSome_iff_exists.1 hop
  have hreader : ∀ reader, g.Feeds op reader → ∀ last, ∃ last',
      awaitReader position pos op last reader = .ok last' ∧
        ∀ k, k < last' ↔ k < last ∨ Follows position k reader := by
    intro reader hfeeds last
    obtain ⟨p, hp, hlt⟩ := hlater reader hfeeds
    exact ⟨max last p, awaitReader_eq_ok hp hlt, fun k => by
      simp only [Follows, hp, Option.some.injEq, exists_eq_left']
      omega⟩
  have houtput : ∀ output ∈ o.outputs.toList, ∀ last, ∃ last',
      g.awaitOutput position pos op last output.2 = .ok last' ∧
        ∀ k, k < last' ↔ k < last ∨ ∃ t, g.tensor? output.2 = some t ∧
          ∃ reader ∈ t.readers.ops, Follows position k reader := by
    intro output hmem last
    obtain ⟨t, ht, -⟩ := hg.output_exists (outputAt_eq_some.2 ⟨o, ho, Ports.mem_toList.1 hmem⟩)
    obtain ⟨last', hrun, hspec⟩ := foldlM_last last fun reader hr =>
      hreader reader ((hg.feeds_iff ho).2 ⟨output, hmem, t, ht, hr⟩)
    refine ⟨last', except_bind_eq_ok.2 ⟨t, requireTensor_eq_ok.2 ht, hrun⟩, fun k => ?_⟩
    rw [hspec]
    simp [ht]
  obtain ⟨last, hrun, hspec⟩ := foldlM_last pos houtput
  refine ⟨last, except_bind_eq_ok.2 ⟨o, requireOp_eq_ok.2 ho, hrun⟩, fun k => ?_⟩
  · rw [hspec]
    refine or_congr_right ⟨?_, ?_⟩
    · rintro ⟨output, hmem, t, ht, reader, hr, hfollows⟩
      exact ⟨reader, (hg.feeds_iff ho).2 ⟨output, hmem, t, ht, hr⟩, hfollows⟩
    · rintro ⟨reader, hfeeds, hfollows⟩
      obtain ⟨output, hmem, t, ht, hr⟩ := (hg.feeds_iff ho).1 hfeeds
      exact ⟨output, hmem, t, ht, reader, hr, hfollows⟩

/-- A last use is refused because of a reader that does not come after the op. -/
theorem WellWired.lastUse_eq_error (hg : g.WellWired) (hop : (g.op? op).isSome)
    (h : g.lastUse position pos op = .error e) :
    ∃ reader, g.Feeds op reader ∧ ¬ Follows position pos reader ∧
      e = .internal s!"schedule does not run consumer {reader} after op {op}" := by
  obtain ⟨o, ho⟩ := Option.isSome_iff_exists.1 hop
  rcases except_bind_eq_error.1 h with hask | ⟨o', hask, h⟩
  · rw [requireOp_eq_ok.2 ho] at hask
    cases hask
  cases (requireOp_eq_ok.2 ho).symm.trans hask
  obtain ⟨output, hmem, last, h⟩ := foldlM_eq_error h
  obtain ⟨t, ht, -⟩ := hg.output_exists (outputAt_eq_some.2 ⟨o, ho, Ports.mem_toList.1 hmem⟩)
  rcases except_bind_eq_error.1 h with hask | ⟨t', hask, h⟩
  · rw [requireTensor_eq_ok.2 ht] at hask
    cases hask
  cases (requireTensor_eq_ok.2 ht).symm.trans hask
  obtain ⟨reader, hr, last', h⟩ := foldlM_eq_error h
  refine ⟨reader, (hg.feeds_iff ho).2 ⟨output, hmem, t, ht, hr⟩, ?_⟩
  by_cases hfollows : Follows position pos reader
  · obtain ⟨p, hp, hlt⟩ := hfollows
    rw [awaitReader_eq_ok hp hlt] at h
    cases h
  · rw [awaitReader_eq_error hfollows] at h
    cases h
    exact ⟨hfollows, rfl⟩

/-- Where a last use is found, all readers come after the op. -/
theorem WellWired.follows_of_lastUse (hg : g.WellWired)
    (h : g.lastUse position pos op = .ok last) (hfeeds : g.Feeds op reader) :
    Follows position pos reader := by
  obtain ⟨o, ho, h⟩ := except_bind_eq_ok.1 h
  obtain ⟨output, hmem, t, ht, hr⟩ := (hg.feeds_iff (requireOp_eq_ok.1 ho)).1 hfeeds
  obtain ⟨c, c', h⟩ := foldlM_steps h output hmem
  obtain ⟨t', ht', h⟩ := except_bind_eq_ok.1 h
  cases ht.symm.trans (requireTensor_eq_ok.1 ht')
  obtain ⟨d, d', h⟩ := foldlM_steps h reader hr
  by_contra hfollows
  rw [awaitReader_eq_error hfollows] at h
  cases h

end LastUse

/-! ## Section 4: Live sets -/

/-- The live sets of an order: one for each step, with the ops that have run by
    then and that a later op reads from. -/
structure AwaitedIn (g : Graph) (order : List OpId) (sets : List (List OpId)) : Prop where
  length : sets.length = order.length
  mem : ∀ (k : Nat) (live : List OpId), sets[k]? = some live → ∀ op, op ∈ live ↔
    (∃ j ≤ k, order[j]? = some op) ∧
      ∃ m > k, ∃ reader, order[m]? = some reader ∧ g.Feeds op reader
  /-- Each set lists its ops by number. -/
  sorted : ∀ live ∈ sets, live.Pairwise (· < ·)
  last : ∀ live, sets.getLast? = some live → live = []

theorem mem_liveAt {lasts : List Nat} {k : Nat} {op : OpId} : op ∈ liveAt order lasts k ↔
    ∃ j ≤ k, order[j]? = some op ∧ ∃ last, lasts[j]? = some last ∧ k < last := by
  simp only [liveAt, Std.ExtTreeSet.mem_toList, Std.ExtTreeSet.mem_ofList, List.contains_iff_mem,
    List.mem_filterMap, Option.ite_none_right_eq_some, Option.some.injEq, Prod.exists]
  constructor
  · rintro ⟨op', last, hmem, hlt, rfl⟩
    obtain ⟨j, hj⟩ := List.mem_iff_getElem?.1 hmem
    rw [List.getElem?_take] at hj
    split at hj
    · rename_i hle
      obtain ⟨hop, hlast⟩ := List.getElem?_zip_eq_some.1 hj
      exact ⟨j, Nat.le_of_lt_succ hle, hop, last, hlast, hlt⟩
    · cases hj
  · rintro ⟨j, hle, hop, last, hlast, hlt⟩
    refine ⟨op, last, List.mem_iff_getElem?.2 ⟨j, ?_⟩, hlt, rfl⟩
    rw [List.getElem?_take, if_pos (Nat.lt_succ_of_le hle)]
    exact List.getElem?_zip_eq_some.2 ⟨hop, hlast⟩

/-- Live sets, from a last use of each op that tells which readers are to come. -/
theorem awaitedIn_of_lasts (lasts : List Nat)
    (hlasts : ∀ (j : Nat) (op : OpId), order[j]? = some op →
      ∃ last, lasts[j]? = some last ∧ ∀ k, j ≤ k →
      (k < last ↔ ∃ m > k, ∃ reader, order[m]? = some reader ∧ g.Feeds op reader)) :
    AwaitedIn g order ((List.range order.length).map (liveAt order lasts)) := by
  have hmem : ∀ k op, op ∈ liveAt order lasts k ↔ (∃ j ≤ k, order[j]? = some op) ∧
      ∃ m > k, ∃ reader, order[m]? = some reader ∧ g.Feeds op reader := by
    intro k op
    rw [mem_liveAt]
    constructor
    · rintro ⟨j, hle, hop, last, hlast, hlt⟩
      obtain ⟨last', hlast', hspec⟩ := hlasts j op hop
      cases hlast.symm.trans hlast'
      exact ⟨⟨j, hle, hop⟩, (hspec k hle).1 hlt⟩
    · rintro ⟨⟨j, hle, hop⟩, hlater⟩
      obtain ⟨last, hlast, hspec⟩ := hlasts j op hop
      exact ⟨j, hle, hop, last, hlast, (hspec k hle).2 hlater⟩
  refine ⟨by simp, fun k live hlive op => ?_, fun live hlive => ?_, fun live hlive => ?_⟩
  · rw [List.getElem?_map] at hlive
    obtain ⟨k', hk', rfl⟩ := Option.map_eq_some_iff.1 hlive
    obtain ⟨hlt, rfl⟩ := List.getElem?_eq_some_iff.1 hk'
    rw [List.getElem_range, hmem]
  · obtain ⟨k, -, rfl⟩ := List.mem_map.1 hlive
    exact Std.ExtTreeSet.ordered_toList.imp fun hlt => Nat.compare_eq_lt.1 hlt
  · -- nothing comes after the last step
    rw [List.getLast?_map] at hlive
    obtain ⟨k, hk, rfl⟩ := Option.map_eq_some_iff.1 hlive
    rw [List.getLast?_range] at hk
    refine List.eq_nil_iff_forall_not_mem.2 fun op hop => ?_
    obtain ⟨-, m, hm, reader, hget, -⟩ := (hmem k op).1 hop
    have hlt := (List.getElem?_eq_some_iff.1 hget).1
    split at hk
    · cases hk
    · cases hk
      omega

/-- The readers of every op in the order come after it. -/
def RunsForward (g : Graph) (order : List OpId) : Prop :=
  ∀ u ∈ order, ∀ v, g.Feeds u v → Before order u v

/-- **Live sets** of an order in which all readers come later. -/
theorem WellWired.liveSets_eq_ok (hg : g.WellWired) (hperm : order.Perm g.opIds)
    (hforward : g.RunsForward order) :
    ∃ sets, g.liveSets order = .ok sets ∧ AwaitedIn g order sets := by
  have hnodup : order.Nodup := hperm.nodup_iff.2 (nodup_opIds g)
  have hexist : ∀ op ∈ order, (g.op? op).isSome := fun op hop => mem_opIds.1 (hperm.subset hop)
  obtain ⟨position, hpositions, hplaces⟩ := positions_eq_ok hexist hnodup
  have huse : ∀ j op, order[j]? = some op → ∃ last, g.lastUse position j op = .ok last ∧
      ∀ k, k < last ↔ k < j ∨ ∃ reader, g.Feeds op reader ∧ Follows position k reader :=
    fun j op hj => hg.lastUse_eq_ok (hexist op (List.mem_of_getElem? hj)) fun reader hfeeds =>
      hplaces.follows_of_before hnodup hj (hforward op (List.mem_of_getElem? hj) reader hfeeds)
  obtain ⟨lasts, hlasts⟩ := mapM_exists_ok (fun x => g.lastUse position x.2 x.1) order.zipIdx
    fun x hx => by
      obtain ⟨last, hlast, -⟩ := huse x.2 x.1 (List.mem_zipIdx_iff_getElem?.1 hx)
      exact ⟨last, hlast⟩
  refine ⟨_, ?_, awaitedIn_of_lasts lasts fun j op hj => ?_⟩
  · unfold liveSets
    exact except_bind_eq_ok.2 ⟨position, hpositions, except_bind_eq_ok.2 ⟨lasts, hlasts, rfl⟩⟩
  · have hentry : order.zipIdx[j]? = some (op, j) := by simp [List.getElem?_zipIdx, hj]
    obtain ⟨last, hlast, hrun⟩ := forall₂_getElem? (mapM_eq_ok hlasts) hentry
    obtain ⟨last', hrun', hspec⟩ := huse j op hj
    cases hrun.symm.trans hrun'
    refine ⟨last, hlast, fun k hle => ?_⟩
    rw [hspec, or_iff_right (Nat.not_lt.2 hle)]
    constructor
    · rintro ⟨reader, hfeeds, hfollow⟩
      obtain ⟨m, hm, hget⟩ := hplaces.follows_iff.1 hfollow
      exact ⟨m, hm, reader, hget, hfeeds⟩
    · rintro ⟨m, hm, reader, hget, hfeeds⟩
      exact ⟨reader, hfeeds, hplaces.follows_iff.2 ⟨m, hm, hget⟩⟩

/-- **Live sets** of a schedule, when an op reads its own output: the search
    ends at such an op, because all other readers come later. -/
theorem WellWired.liveSets_eq_error (hg : g.WellWired) {extra : ExtraOrder}
    {options : ScheduleOptions} (h : g.IsSchedule extra options order) {op : OpId}
    (hself : g.Feeds op op) :
    ∃ x, g.Feeds x x ∧ g.liveSets order
      = .error (.internal s!"schedule does not run consumer {x} after op {x}") := by
  have hexist : ∀ op ∈ order, (g.op? op).isSome := fun op hop => mem_opIds.1 (h.perm.subset hop)
  obtain ⟨position, hpositions, hplaces⟩ := positions_eq_ok hexist h.nodup
  cases hlasts : order.zipIdx.mapM fun x => g.lastUse position x.2 x.1 with
  | ok lasts =>
    -- the op would have to come after itself
    have hop : op ∈ order := by
      obtain ⟨i, t, hi, -⟩ := hself
      obtain ⟨o, ho, -⟩ := inputAt_eq_some.1 hi
      exact h.perm.mem_iff.2 (mem_opIds.2 (by simp [ho]))
    obtain ⟨j, hj⟩ := List.mem_iff_getElem?.1 hop
    have hentry : order.zipIdx[j]? = some (op, j) := by simp [List.getElem?_zipIdx, hj]
    obtain ⟨last, -, hlast⟩ := forall₂_getElem? (mapM_eq_ok hlasts) hentry
    obtain ⟨p, hp, hlt⟩ := hg.follows_of_lastUse hlast hself
    cases hp.symm.trans ((hplaces op j).2 hj)
    exact absurd hlt (Nat.lt_irrefl _)
  | error e =>
    obtain ⟨⟨x, j⟩, hmem, hfail⟩ := mapM_eq_error hlasts
    have hj := List.mem_zipIdx_iff_getElem?.1 hmem
    obtain ⟨reader, hfeeds, hnot, rfl⟩ := hg.lastUse_eq_error (hexist x (List.mem_of_getElem? hj))
      hfail
    have hsame : x = reader := by
      by_contra hne
      exact hnot (hplaces.follows_of_before h.nodup hj (h.before_of_asks hg (.data hne hfeeds)))
    subst hsame
    refine ⟨x, hfeeds, ?_⟩
    unfold liveSets
    exact except_bind_eq_error.2 (.inr ⟨position, hpositions,
      except_bind_eq_error.2 (.inl hlasts)⟩)

end Graph

namespace Workspace

/-- **Schedules and live sets agree, unless an op reads its own output.**
    Whatever calls were made, whatever chance decides and whether the answer
    comes from memory or not, an order that is given out has live sets exactly
    if no op reads its own output.  Otherwise the search ends at such an op. -/
theorem awaited_of_reachable {w : Workspace} (h : w.Reachable) {extra : ExtraOrder}
    {optimal : Bool} {chance : Chance} {order : List OpId}
    (hok : (w.planner.scheduleGraph w.graph extra optimal chance).1 = .ok order) :
    ((∀ op, ¬ w.graph.Feeds op op) →
      ∃ sets, w.graph.liveSets order = .ok sets ∧ w.graph.AwaitedIn order sets) ∧
    ((∃ op, w.graph.Feeds op op) → ∃ op, w.graph.Feeds op op ∧ w.graph.liveSets order
      = .error (.internal s!"schedule does not run consumer {op} after op {op}")) := by
  have hg := h.sound.wellWired
  have horder := (h.sound.planner.scheduleGraph hg rfl).2 order hok
  refine ⟨fun hnone => hg.liveSets_eq_ok horder.perm fun u _ v hfeeds => ?_, ?_⟩
  · exact horder.before_of_asks hg (.data (fun heq => hnone u (heq ▸ hfeeds)) hfeeds)
  · rintro ⟨op, hself⟩
    exact hg.liveSets_eq_error horder hself

/-- The output of the first of three ops is awaited until the last one runs. -/
theorem threeOps_awaited :
    (threeOps.planner.scheduleGraph threeOps.graph ∅ false).1 = .ok [0, 1, 2] ∧
    threeOps.graph.liveSets [0, 1, 2] = .ok [[0], [0], []] ∧
    threeOps.graph.AwaitedIn [0, 1, 2] [[0], [0], []] := by
  have hreachable : threeOps.Reachable := Reachable.run (.start "") _
  have horder : (threeOps.planner.scheduleGraph threeOps.graph ∅ false).1 = .ok [0, 1, 2] :=
    toOption_eq_some.1 (by decide +kernel)
  have hsets : threeOps.graph.liveSets [0, 1, 2] = .ok [[0], [0], []] := by decide +kernel
  have hapart : ∀ op ∈ threeOps.graph.opIds, op ∉ threeOps.graph.feeders op := by decide +kernel
  obtain ⟨sets, hok, hawaited⟩ := (awaited_of_reachable hreachable horder).1 fun op hself => by
    obtain ⟨i, t, hi, -⟩ := id hself
    obtain ⟨o, ho, -⟩ := Graph.inputAt_eq_some.1 hi
    exact hapart op (Graph.mem_opIds.2 (by simp [ho])) (Graph.mem_feeders.2 hself)
  cases hsets.symm.trans hok
  exact ⟨horder, hsets, hawaited⟩

/-- An activation whose input is wired to its own output. -/
def selfReader : Workspace :=
  let calls : List Call := [
    .addInput "x" ⟨.f32, [2]⟩,
    .createOp Builtin.relu.operator {},
    .connectInput 0 0 "x",
    .createOutput 0 0 "y",
    .settle 0,
    .connectInput 0 0 "y"]
  calls.foldl (fun w c => c.run w) {}

/-- The activation is scheduled, and the schedule has no live sets. -/
theorem selfReader_refused :
    selfReader.Reachable ∧
    (selfReader.planner.scheduleGraph selfReader.graph ∅ false).1 = .ok [0] ∧
    selfReader.graph.liveSets [0]
      = .error (.internal "schedule does not run consumer 0 after op 0") :=
  ⟨Reachable.run (.start "") _, toOption_eq_some.1 (by decide +kernel), by decide +kernel⟩

end Workspace

end Dataflow
