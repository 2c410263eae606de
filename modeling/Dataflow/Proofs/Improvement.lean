import Dataflow.Proofs.Allocations
import Dataflow.Proofs.Liveness

/-! # Annealing never makes an order worse

    Annealing moves about among the orders, sometimes on to one that is no
    better, and keeps the best order that it has met apart.  Whatever the dice
    and the clock decide, what it knows of the two is exact: the profile of the
    order at hand is kept up to date, so the objective that is noted down with
    the best order is the objective of that order (`Annealing.Improves`).

    No order needs less than what a single node uses at once.  So an order whose
    peak is the lower bound is as good as any.  This is where it matters that bytes
    are counted in words: a peak that has wrapped around can be below the bound. -/

namespace Dataflow

/-! ## Section 1: How orders are judged -/

/-- Objectives are compared by their peaks, and by their totals if the peaks
    are the same. -/
def Objective.AtMost (a b : Objective) : Prop :=
  a.peak < b.peak ∨ a.peak = b.peak ∧ a.total ≤ b.total

namespace Objective

variable {a b c : Objective}

theorem AtMost.refl (a : Objective) : a.AtMost a := .inr ⟨rfl, Nat.le_refl _⟩

/-- What is better than something is at most that. -/
theorem AtMost.of_isBetter (h : a.isBetter b = true) (hb : b.AtMost c) : a.AtMost c := by
  simp only [isBetter, Bool.or_eq_true, Bool.and_eq_true, decide_eq_true_eq] at h
  unfold AtMost at hb ⊢
  omega

end Objective

namespace DependencyGraph

variable {d : DependencyGraph}

/-- The peak and the total of live bytes of an order. -/
def judge (d : DependencyGraph) (order : List Nat) : Objective :=
  ⟨peak (d.profile order), wordTotal (d.profile order)⟩

/-! ## Section 2: No order needs less than a single node -/

/-- What a node uses is live where the node is. -/
theorem liveOf_self (order : List Nat) {node a : Nat} (h : node ∈ d.users a) :
    d.liveOf order (order.idxOf node) a = d.allocSize a := by
  have hplace : order.idxOf node ∈ (d.users a).map fun node => order.idxOf node :=
    List.mem_map.2 ⟨node, h, rfl⟩
  unfold liveOf
  rw [liveAt_hull]
  exact if_pos ⟨⟨_, hplace, Nat.le_refl _⟩, ⟨_, hplace, Nat.le_refl _⟩⟩

/-- What a node uses is part of what is live at its position. -/
theorem total_allocs_le_liveSum (hnodup : ∀ node, (d.allocs node).Nodup) {order : List Nat}
    (hperm : order.Perm (List.range d.size)) {node : Nat} (hnode : node < d.size) :
    total ((d.allocs node).map d.allocSize) ≤ d.liveSum order (order.idxOf node) := by
  have huser : ∀ a ∈ d.allocs node, node ∈ d.users a := fun a ha => mem_users.2 ⟨hnode, ha⟩
  have hplaced := (LiveOrder.Exact.ofOrder hperm).toPlaced
  have horder : (LiveOrder.ofOrder d order).order.toList = order := rfl
  have hpart := hplaced.total_bytesAt_le (hnodup node)
    (fun a ha => List.ne_nil_of_mem (huser a ha)) (order.idxOf node)
  have hsizes : (d.allocs node).map ((LiveOrder.ofOrder d order).bytesAt d (order.idxOf node))
      = (d.allocs node).map d.allocSize := by
    refine List.map_congr_left fun a ha => ?_
    have husers : d.users a ≠ [] := List.ne_nil_of_mem (huser a ha)
    rw [hplaced.bytesAt_eq husers, horder, liveOf_self order (huser a ha)]
  rwa [hsizes, horder] at hpart

/-- **The lower bound** holds for every order of all nodes, valid or not, unless
    bytes wrap around. -/
theorem lowerBound_le_peak (hnodup : ∀ node, (d.allocs node).Nodup)
    (hbytes : d.allocBytes < signedRange) {order : List Nat}
    (hperm : order.Perm (List.range d.size)) : d.lowerBound ≤ peak (d.profile order) := by
  refine peak_le_iff.2 fun bytes hmem => ?_
  obtain ⟨node, hrange, rfl⟩ := List.mem_map.1 hmem
  have hnode : node < d.size := List.mem_range.1 hrange
  have hp : order.idxOf node < order.length :=
    List.idxOf_lt_length_of_mem ((mem_of_perm hperm).2 hnode)
  calc wordTotal ((d.allocs node).map d.allocSize)
      ≤ total ((d.allocs node).map d.allocSize) := toWord_le _
    _ ≤ d.liveSum order (order.idxOf node) := total_allocs_le_liveSum hnodup hperm hnode
    _ = toWord (d.liveSum order (order.idxOf node)) := (toWord_liveSum hbytes ..).symm
    _ ≤ peak (d.profile order) := by
        refine peak_le_iff.1 (Nat.le_refl _) _ ?_
        rw [profile_eq hperm]
        exact List.mem_map.2 ⟨_, List.mem_range.2 hp, rfl⟩

end DependencyGraph

/-! ## Section 3: The search -/

namespace Annealing

variable {σ : Type} {d : DependencyGraph} {st : Annealing σ} {initial : Objective}

/-- The order at hand is known exactly, the best order is noted down with its
    own objective, and this is at most the one that the search began with. -/
structure Improves (d : DependencyGraph) (initial : Objective) (st : Annealing σ) : Prop extends
    Sound d st where
  exact : st.current.Exact d
  best_eq : st.best = d.judge st.bestOrder.toList
  atMost : st.best.AtMost initial
  accepted_le : st.accepted ≤ st.proposals

/-- What may come of a proposal: nothing at all, an exchange that is taken back,
    or one that is kept, and noted down if it is the best so far. -/
theorem consider_cases (d : DependencyGraph) (dice : Dice σ) (st : Annealing σ) (i : Nat) :
    st.consider d dice i = st ∨ ∃ s,
      st.consider d dice i = { st with
        dice := s, current := (st.current.swap d i).swap d i } ∨
      st.consider d dice i = { st with
        dice := s, current := st.current.swap d i, accepted := st.accepted + 1 } ∨
      (st.current.swap d i).objective.isBetter st.best = true ∧
        st.consider d dice i = { st with
          dice := s, current := st.current.swap d i, accepted := st.accepted + 1,
          best := (st.current.swap d i).objective, bestOrder := (st.current.swap d i).order,
          stall := 0 } := by
  unfold consider
  simp only
  split
  · exact .inl rfl
  · generalize accepts d dice _ _ _ _ _ = verdict
    refine .inr ⟨verdict.2, ?_⟩
    split
    · exact .inl rfl
    · split
      · rename_i hbetter
        exact .inr (.inr ⟨hbetter, rfl⟩)
      · exact .inr (.inl rfl)

/-- **One proposal**, which is counted already. -/
theorem Improves.consider (h : Improves d initial st) (dice : Dice σ) {i : Nat}
    (hi : i + 1 < d.size) (hcounted : st.accepted < st.proposals) :
    Improves d initial (st.consider d dice i) := by
  have hsound : Sound d (st.consider d dice i) := h.toSound.consider (by rw [h.size]; exact hi)
  have hswapped := h.exact.swap hi
  have hback := hswapped.swap hi
  have hobjective : (st.current.swap d i).objective
      = d.judge (st.current.swap d i).order.toList := hswapped.objective
  have hcases := consider_cases d dice st i
  generalize (st.current.swap d i).swap d i = back at hback hcases
  generalize st.current.swap d i = swapped at hswapped hobjective hcases
  generalize st.consider d dice i = next at hsound hcases ⊢
  obtain rfl | ⟨s, rfl | rfl | ⟨hbetter, rfl⟩⟩ := hcases
  · exact h
  · exact { hsound with
      exact := hback
      best_eq := h.best_eq
      atMost := h.atMost
      accepted_le := h.accepted_le }
  · exact { hsound with
      exact := hswapped
      best_eq := h.best_eq
      atMost := h.atMost
      accepted_le := hcounted }
  · exact { hsound with
      exact := hswapped
      best_eq := hobjective
      atMost := h.atMost.of_isBetter hbetter
      accepted_le := hcounted }

theorem Improves.propose (h : Improves d initial st) (hd : 2 ≤ d.size) (dice : Dice σ) :
    Improves d initial (st.propose d dice) := by
  have hsize := h.size
  have hlt := dice.below_lt (st.current.order.size - 1) st.dice (by omega)
  let drawn : Annealing σ := { st with
    proposals := st.proposals + 1
    stall := st.stall + 1
    dice := (dice.below (st.current.order.size - 1) st.dice).2 }
  have hdrawn : Improves d initial drawn := {
    current := h.current
    best := h.best
    exact := h.exact
    best_eq := h.best_eq
    atMost := h.atMost
    accepted_le := Nat.le_succ_of_le h.accepted_le }
  refine hdrawn.consider dice ?_ (Nat.lt_succ_of_le h.accepted_le)
  show (dice.below (st.current.order.size - 1) st.dice).1 + 1 < d.size
  omega

theorem proposals_propose (d : DependencyGraph) (dice : Dice σ) (st : Annealing σ) :
    (st.propose d dice).proposals = st.proposals + 1 := by
  have hkeep : ∀ (st : Annealing σ) (i : Nat), (st.consider d dice i).proposals = st.proposals := by
    intro st i
    obtain hsame | ⟨s, hback | hkept | ⟨-, hbest⟩⟩ := consider_cases d dice st i
    · rw [hsame]
    · rw [hback]
    · rw [hkept]
    · rw [hbest]
  exact hkeep _ _

/-- **The whole search**, wherever it stops. -/
theorem Improves.search (h : Improves d initial st) (hd : 2 ≤ d.size) (dice : Dice σ)
    (isTimeUp : Nat → Bool) (lowerBound stallLimit swaps : Nat) :
    Improves d initial (Annealing.search d dice isTimeUp lowerBound stallLimit swaps st) ∧
    (Annealing.search d dice isTimeUp lowerBound stallLimit swaps st).proposals
      ≤ st.proposals + swaps := by
  induction swaps generalizing st with
  | zero => exact ⟨h, Nat.le_refl _⟩
  | succ swaps ih =>
    unfold Annealing.search
    split
    · exact ⟨h, Nat.le_add_right _ _⟩
    · split
      · exact ⟨h, Nat.le_add_right _ _⟩
      · obtain ⟨hlast, hcount⟩ := ih (h.propose hd dice)
        rw [proposals_propose] at hcount
        exact ⟨hlast, by omega⟩

end Annealing

/-! ## Section 4: Annealing -/

namespace DependencyGraph

variable {d : DependencyGraph}

/-- What annealing makes of an order: an order that is at most as costly, and a
    report that is true of both. -/
structure AnnealsTo (d : DependencyGraph) (swapLimit : Nat) (order : List Nat)
    (result : List Nat × AnnealReport) : Prop where
  isOrder : d.IsOrder result.1
  initial : result.2.initial = d.judge order
  best : result.2.best = d.judge result.1
  atMost : result.2.best.AtMost result.2.initial
  accepted : result.2.accepted ≤ result.2.proposals
  proposals : result.2.proposals ≤ swapLimit

theorem IsOrder.annealsTo {σ : Type} {order : List Nat} (h : d.IsOrder order) (dice : Dice σ)
    (s : σ) (isTimeUp : Nat → Bool) (swapLimit : Nat) :
    d.AnnealsTo swapLimit order (d.annealWith dice s isTimeUp swapLimit order) := by
  have hexact := LiveOrder.Exact.ofOrder h.perm
  have hinitial : (LiveOrder.ofOrder d order).objective = d.judge order := hexact.objective
  unfold annealWith
  simp only
  split
  · exact ⟨h, hinitial, hinitial, .refl _, Nat.le_refl 0, Nat.zero_le _⟩
  · have hsize : order.length = d.size := by simpa using h.perm.length_eq
    let start : Annealing σ := {
      current := LiveOrder.ofOrder d order
      bestOrder := (LiveOrder.ofOrder d order).order
      best := (LiveOrder.ofOrder d order).objective
      dice := s }
    have hstart : Annealing.Improves d (LiveOrder.ofOrder d order).objective start := {
      current := h
      best := h
      exact := hexact
      best_eq := hinitial
      atMost := .refl _
      accepted_le := Nat.le_refl 0 }
    obtain ⟨hlast, hcount⟩ := hstart.search (by omega) dice isTimeUp d.lowerBound
      (stallLimit order.length) swapLimit
    exact ⟨hlast.best, hinitial, hlast.best_eq, hlast.atMost, hlast.accepted_le,
      hcount.trans (Nat.le_of_eq (Nat.zero_add swapLimit))⟩

/-- **Annealing is safe and never makes an order worse.**  Take the dependency
    graph of any graph and any order of it.  Whatever the options, the dice and
    the clock are, annealing leads to an order that is at most as costly, and
    its report is true.  If all allocations together fit in a signed word, no order
    has a peak below the lower bound, so none is better than one that reaches it. -/
theorem anneal_improves {g : Graph} {extra : ExtraOrder} {made : ScheduleOptions}
    (hd : g.dependencies extra made = .ok d) {order : List Nat} (horder : d.IsOrder order)
    (options : ScheduleOptions) (chance : Chance) :
    let result := d.annealWith chance.dice chance.start chance.isTimeUp options.swapLimit order
    d.AnnealsTo options.swapLimit order result ∧
    (d.allocBytes < signedRange →
      (∀ other, other.Perm (List.range d.size) → d.lowerBound ≤ peak (d.profile other)) ∧
      (result.2.best.peak = d.lowerBound → ∀ other, other.Perm (List.range d.size) →
        peak (d.profile result.1) ≤ peak (d.profile other))) := by
  intro result
  have hanneals : d.AnnealsTo options.swapLimit order result := horder.annealsTo ..
  refine ⟨hanneals, fun hbytes => ?_⟩
  obtain ⟨ids, hids⟩ := Graph.exists_allocation hd
  have hbound : ∀ other, other.Perm (List.range d.size) → d.lowerBound ≤ peak (d.profile other) :=
    fun other hother => lowerBound_le_peak hids.nodup_allocs hbytes hother
  refine ⟨hbound, fun hreached other hother => ?_⟩
  have hpeak : peak (d.profile result.1) = d.lowerBound := by
    rw [← hreached, hanneals.best]
    rfl
  exact hpeak ▸ hbound other hother

/-- Two branches that need much memory for a while, and an op that joins them. -/
def twoBranches : Workspace :=
  let calls : List Call := [
    .addInput "x" ⟨.f32, [8]⟩,
    .createOp Builtin.relu.operator {},
    .connectInput 0 0 "x",
    .createOutput 0 0 "a",
    .settle 0,
    .createOp Builtin.reduceSum.operator {},
    .connectInput 1 0 "a",
    .createOutput 1 0 "s",
    .settle 1,
    .createOp Builtin.relu.operator {},
    .connectInput 2 0 "x",
    .createOutput 2 0 "b",
    .settle 2,
    .createOp Builtin.reduceSum.operator {},
    .connectInput 3 0 "b",
    .createOutput 3 0 "t",
    .settle 3,
    .createOp Builtin.add.operator {},
    .connectInput 4 0 "s",
    .connectInput 4 1 "t",
    .createOutput 4 0 "u",
    .settle 4]
  calls.foldl (fun w c => c.run w) {}

/-- The branches are interleaved to begin with, so both are live at once. -/
theorem twoBranches_improves : ∃ d, twoBranches.graph.dependencies ∅ {} = .ok d ∧
    d.IsOrder [0, 2, 1, 3, 4] ∧ d.judge [0, 2, 1, 3, 4] = ⟨96, 280⟩ ∧ d.lowerBound = 64 ∧
    d.allocBytes = 108 ∧
    ∀ (options : ScheduleOptions) (chance : Chance),
      d.AnnealsTo options.swapLimit [0, 2, 1, 3, 4]
        (d.annealWith chance.dice chance.start chance.isTimeUp options.swapLimit [0, 2, 1, 3, 4]) ∧
      ∀ other, other.Perm (List.range d.size) → 64 ≤ peak (d.profile other) := by
  have hvalue : ((twoBranches.graph.dependencies ∅ {}).toOption.map fun d =>
      (decide (d.IsOrder [0, 2, 1, 3, 4]), d.judge [0, 2, 1, 3, 4], d.lowerBound, d.allocBytes))
        = some (true, ⟨96, 280⟩, 64, 108) := by
    decide +kernel
  obtain ⟨d, hd, hvalue⟩ := Option.map_eq_some_iff.1 hvalue
  rw [toOption_eq_some] at hd
  simp only [Prod.mk.injEq, decide_eq_true_eq] at hvalue
  obtain ⟨horder, hjudge, hbound, hbytes⟩ := hvalue
  have hfits : d.allocBytes < signedRange := by
    rw [hbytes]
    decide
  refine ⟨d, hd, horder, hjudge, hbound, hbytes, fun options chance => ?_⟩
  obtain ⟨hanneals, hlower⟩ := anneal_improves hd horder options chance
  exact ⟨hanneals, fun other hother => hbound ▸ (hlower hfits).1 other hother⟩

/-- Where a stream nearly fills a word, an order is taken for one that needs 12
    bytes, far below the lower bound. -/
theorem wideStream_undercut : ∃ d, Graph.wideStream.graph.dependencies ∅ {} = .ok d ∧
    d.IsOrder [0, 1, 2] ∧ peak (d.profile [0, 1, 2]) = 12 ∧
    d.lowerBound = 18446744073709551612 := by
  have hvalue : ((Graph.wideStream.graph.dependencies ∅ {}).toOption.map fun d =>
      (decide (d.IsOrder [0, 1, 2]), peak (d.profile [0, 1, 2]), d.lowerBound))
        = some (true, 12, 18446744073709551612) := by
    decide +kernel
  obtain ⟨d, hd, hvalue⟩ := Option.map_eq_some_iff.1 hvalue
  rw [toOption_eq_some] at hd
  simp only [Prod.mk.injEq, decide_eq_true_eq] at hvalue
  exact ⟨d, hd, hvalue⟩

end DependencyGraph

end Dataflow
