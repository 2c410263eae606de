import Dataflow.Proofs.NodeOrder
import Dataflow.Schedule.Planner

/-! # Exchanging neighbours

    Annealing only ever exchanges neighbours that no edge joins, and takes an
    exchange back by making it once more.  So whatever the dice decide and
    whenever the time runs out, the order at hand and the best order so far
    are orders of the dependency graph. -/

namespace Dataflow

/-! ## Section 1: One exchange -/

/-- Exchanging two neighbours turns round their own order and no other. -/
theorem Before.exchange {α : Type} {l r : List α} {a b u v : α}
    (h : Before (l ++ a :: b :: r) u v) (hne : ¬ (u = a ∧ v = b)) :
    Before (l ++ b :: a :: r) u v := by
  induction l with
  | nil =>
    rw [List.nil_append] at h ⊢
    cases h with
    | cons_cons _ h =>
      -- `u` is `a`, so `v` is further on
      have hv : v ∈ r := by
        rcases List.mem_cons.1 (List.singleton_sublist.1 h) with hvb | hv
        · exact absurd ⟨rfl, hvb⟩ hne
        · exact hv
      exact ((List.singleton_sublist.2 hv).cons_cons _).cons _
    | cons _ h =>
      cases h with
      | cons_cons _ h => exact (h.cons a).cons_cons _
      | cons _ h => exact (h.cons a).cons b
  | cons x xs ih =>
    rw [List.cons_append] at h ⊢
    cases h with
    | cons _ h => exact (ih h).cons x
    | cons_cons _ h =>
      have hv : v ∈ xs ++ b :: a :: r := by
        have hmem := List.singleton_sublist.1 h
        simp only [List.mem_append, List.mem_cons] at hmem ⊢
        rcases hmem with hv | hv | hv | hv
        · exact .inl hv
        · exact .inr (.inr (.inl hv))
        · exact .inr (.inl hv)
        · exact .inr (.inr (.inr hv))
      exact (List.singleton_sublist.2 hv).cons_cons _

namespace DependencyGraph

variable {d : DependencyGraph}

/-- Neighbours that no edge joins may change places. -/
theorem IsOrder.exchange {l r : List Nat} {a b : Nat} (h : d.IsOrder (l ++ a :: b :: r))
    (hab : d.hasEdge a b = false) : d.IsOrder (l ++ b :: a :: r) where
  perm := ((List.Perm.swap a b r).append_left l).trans h.perm
  respects e he := by
    refine (h.respects e he).exchange ?_
    rintro ⟨rfl, rfl⟩
    have hmem : d.hasEdge e.before e.after = true := Std.ExtTreeSet.contains_iff_mem.2 he
    rw [hab] at hmem
    cases hmem

end DependencyGraph

namespace LiveOrder

/-- An order with the nodes at positions `i` and `i + 1` exchanged. -/
def exchange (order : Array Nat) (i : Nat) : Array Nat :=
  (order.setIfInBounds i (order.getD (i + 1) 0)).setIfInBounds (i + 1) (order.getD i 0)

/-- The neighbours at a position, with what comes before and after them. -/
theorem split_at {order : Array Nat} {i : Nat} (h : i + 1 < order.size) :
    order.toList = order.toList.take i ++ order.getD i 0 :: order.getD (i + 1) 0
      :: order.toList.drop (i + 2) := by
  have hi : i < order.toList.length := by
    rw [Array.length_toList]
    omega
  have hi' : i + 1 < order.toList.length := by
    rwa [Array.length_toList]
  have ha : order.getD i 0 = order.toList[i] := by
    simp [Array.getD_eq_getD_getElem?, Nat.lt_of_succ_lt h]
  have hb : order.getD (i + 1) 0 = order.toList[i + 1] := by
    simp [Array.getD_eq_getD_getElem?, h]
  rw [ha, hb, ← List.drop_eq_getElem_cons hi', ← List.drop_eq_getElem_cons hi,
    List.take_append_drop]

theorem toList_exchange {order : Array Nat} {i : Nat} (h : i + 1 < order.size) :
    (exchange order i).toList = order.toList.take i ++ order.getD (i + 1) 0 :: order.getD i 0
      :: order.toList.drop (i + 2) := by
  have hset : ∀ (l r : List Nat) (a b : Nat), l.length = i →
      ((l ++ a :: b :: r).set i b).set (i + 1) a = l ++ b :: a :: r := by
    rintro l r a b rfl
    simp
  have hlen : (order.toList.take i).length = i := by
    rw [List.length_take, Array.length_toList]
    omega
  have hboth := hset _ (order.toList.drop (i + 2)) (order.getD i 0) (order.getD (i + 1) 0) hlen
  rw [← split_at h] at hboth
  unfold exchange
  rw [Array.toList_setIfInBounds, Array.toList_setIfInBounds]
  exact hboth

/-- Exchanging the same neighbours again leads back. -/
theorem exchange_exchange {order : Array Nat} {i : Nat} (h : i + 1 < order.size) :
    exchange (exchange order i) i = order := by
  have hswap : ∀ xs : Array Nat, (hx : i + 1 < xs.size) →
      exchange xs i = xs.swap i (i + 1) (Nat.lt_of_succ_lt hx) hx := by
    intro xs hx
    have hlt : i < xs.size := Nat.lt_of_succ_lt hx
    simp [exchange, Array.swap, Array.getD_eq_getD_getElem?, Array.setIfInBounds, hx, hlt]
  rw [hswap order h, hswap _ (by simpa using h)]
  simp

theorem order_setLevel (l : LiveOrder) (pos value : Nat) :
    (l.setLevel pos value).order = l.order := by
  unfold setLevel
  simp only
  split <;> rfl

theorem order_swap (d : DependencyGraph) (l : LiveOrder) (i : Nat) :
    (l.swap d i).order = exchange l.order i := by
  unfold swap
  simp only [order_setLevel]
  rfl

end LiveOrder

/-! ## Section 2: The search -/

namespace Annealing

variable {σ : Type} {d : DependencyGraph} {dice : Dice σ} {st : Annealing σ}

/-- The order at hand and the best one so far are orders. -/
structure Sound (d : DependencyGraph) (st : Annealing σ) : Prop where
  current : d.IsOrder st.current.order.toList
  best : d.IsOrder st.bestOrder.toList

theorem isLegal_hasEdge {a b : Nat} (h : isLegal d a b = true) : d.hasEdge a b = false := by
  simp only [isLegal, Bool.and_eq_true, Bool.not_eq_true'] at h
  exact h.2

/-- **One proposal** keeps both orders, whether it is kept or taken back. -/
theorem Sound.consider (h : Sound d st) {i : Nat} (hi : i + 1 < st.current.order.size) :
    Sound d (st.consider d dice i) := by
  unfold Annealing.consider
  cases hlegal : isLegal d (st.current.order.getD i 0) (st.current.order.getD (i + 1) 0) with
  | false =>
    simp only [hlegal, Bool.not_false, if_true]
    exact h
  | true =>
    have hswap : d.IsOrder (st.current.swap d i).order.toList := by
      rw [LiveOrder.order_swap, LiveOrder.toList_exchange hi]
      have hcurrent := h.current
      rw [LiveOrder.split_at hi] at hcurrent
      exact hcurrent.exchange (isLegal_hasEdge hlegal)
    have hback : d.IsOrder ((st.current.swap d i).swap d i).order.toList := by
      rw [LiveOrder.order_swap, LiveOrder.order_swap, LiveOrder.exchange_exchange hi]
      exact h.current
    simp only [hlegal, Bool.not_true, Bool.false_eq_true, if_false]
    -- from here on it only matters that both are orders
    generalize (st.current.swap d i).swap d i = back at hback ⊢
    generalize st.current.swap d i = swapped at hswap ⊢
    generalize accepts d dice _ _ _ _ _ = verdict
    cases verdict.1 with
    | false =>
      simp only [Bool.not_false, if_true]
      exact ⟨hback, h.best⟩
    | true =>
      simp only [Bool.not_true, Bool.false_eq_true, if_false]
      split
      · exact ⟨hswap, hswap⟩
      · exact ⟨hswap, h.best⟩

theorem Sound.size (h : Sound d st) : st.current.order.size = d.size := by
  have hlen := h.current.perm.length_eq
  simpa using hlen

/-- The dice only name places that have a neighbour. -/
theorem Sound.propose (h : Sound d st) (hd : 2 ≤ d.size) : Sound d (st.propose d dice) := by
  have hsize := h.size
  have hlt := dice.below_lt (st.current.order.size - 1) st.dice (by omega)
  let drawn : Annealing σ := { st with
    proposals := st.proposals + 1
    stall := st.stall + 1
    dice := (dice.below (st.current.order.size - 1) st.dice).2 }
  have hdrawn : Sound d drawn := ⟨h.current, h.best⟩
  refine hdrawn.consider ?_
  show (dice.below (st.current.order.size - 1) st.dice).1 + 1 < st.current.order.size
  omega

/-- **The whole search** keeps both orders, wherever it stops. -/
theorem Sound.search {isTimeUp : Nat → Bool} {lowerBound stallLimit swaps : Nat} (h : Sound d st)
    (hd : 2 ≤ d.size) : Sound d (search d dice isTimeUp lowerBound stallLimit swaps st) := by
  induction swaps generalizing st with
  | zero => exact h
  | succ swaps ih =>
    unfold Annealing.search
    split
    · exact h
    · split
      · exact h
      · exact ih (h.propose hd)

end Annealing

namespace DependencyGraph

variable {d : DependencyGraph}

/-- **Annealing yields an order**, whatever the dice and the clock. -/
theorem IsOrder.anneal {σ : Type} {order : List Nat} (h : d.IsOrder order) (dice : Dice σ) (s : σ)
    (isTimeUp : Nat → Bool) (swapLimit : Nat) :
    d.IsOrder (d.annealWith dice s isTimeUp swapLimit order).1 := by
  unfold annealWith
  simp only
  split
  · exact h
  · rename_i hlen
    have hsize : order.length = d.size := by simpa using h.perm.length_eq
    refine (Annealing.Sound.search ⟨?_, ?_⟩ (by omega)).best <;>
      simpa [LiveOrder.ofOrder] using h

/-- **Schedules are orders without the barriers.** -/
theorem schedule_isOrder (hd : d.WellFormed) {options : ScheduleOptions} {optimal : Bool}
    {chance : Chance} {ops : List OpId} (h : d.schedule options optimal chance = .ok ops) :
    ∃ nodes, d.IsOrder nodes ∧ ops = d.opsIn nodes := by
  obtain ⟨nodes, horder, h⟩ := except_bind_eq_ok.1 h
  have hnodes := listOrderWith_isOrder hd horder
  split at h
  · cases h
    exact ⟨_, hnodes.anneal .., rfl⟩
  · cases h
    exact ⟨nodes, hnodes, rfl⟩

end DependencyGraph

end Dataflow
