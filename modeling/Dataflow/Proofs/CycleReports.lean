import Mathlib.Data.List.Cycle
import Dataflow.Proofs.Transparency

/-! # Reported cycles

    When scheduling gets stuck, it reports one cycle.  The ops of the report
    are a cycle of `Graph.MustPrecede`, and the report is the same whatever
    decides among the ready nodes.

    Which nodes a traversal leaves behind does not depend on its choices: they
    are those from which the predecessors can be followed without end, that is
    the nodes that are not accessible (`Acc`) in the relation of the edges.
    The walk from predecessor to predecessor stays among them, so it has to
    come back to a node that it has seen.  This closes a cycle of nodes, from
    which the barriers are dropped: a stretch of barriers leads from one phase
    to a later one, so the ops at its two ends are in order by their phases. -/

namespace Dataflow

/-! ## Section 1: The nodes that are left behind -/

/-- Of two entries in a list without repetition, the one ahead comes up first. -/
theorem Before.idxOf_lt {α : Type} [DecidableEq α] {order : List α} {u v : α}
    (h : Before order u v) (hn : order.Nodup) : order.idxOf u < order.idxOf v := by
  induction order with
  | nil => cases h
  | cons x xs ih =>
    obtain ⟨hx, hxs⟩ := List.nodup_cons.1 hn
    cases h with
    | cons _ h =>
      have hu : x ≠ u := fun heq => hx (heq ▸ left_mem h)
      have hv : x ≠ v := fun heq => hx (heq ▸ right_mem h)
      rw [List.idxOf_cons_ne _ hu, List.idxOf_cons_ne _ hv]
      exact Nat.succ_lt_succ (ih h hxs)
    | cons_cons _ h =>
      have hv : u ≠ v := fun heq => hx (heq ▸ List.singleton_sublist.1 h)
      rw [List.idxOf_cons_self, List.idxOf_cons_ne _ hv]
      exact Nat.succ_pos _

namespace Traversal

variable {σ : Type} {d : DependencyGraph} {t : Traversal σ}

/-- Whether a node still waits for a predecessor. -/
def waits (t : Traversal σ) (v : Nat) : Bool := decide (t.inDegree.getD v 0 > 0)

/-- The traversal of all of `d` may end like this, under some dice and some
    tie-break. -/
def EndsIn (d : DependencyGraph) (t : Traversal σ) : Prop :=
  ∃ (dice : Dice σ) (s : σ) (tieBreak : TieBreak) (descendants? : Option (Array Nat)),
    Traversal.run d dice tieBreak descendants? d.size (.start d s) = .ok t

/-- What has been taken stands at the end of finite chains of edges only. -/
theorem Sound.acc_of_taken (h : Sound d [] t) {v : Nat} (hv : v ∈ t.taken) :
    Acc d.Precedes v := by
  -- predecessors come up earlier in the order of the nodes taken
  induction hn : t.taken.reverse.idxOf v using Nat.strong_induction_on generalizing v with
  | _ n ih =>
    refine ⟨v, fun u hu => ?_⟩
    have hbefore := h.ordered _ hu hv
    have hlt := hbefore.idxOf_lt (List.nodup_reverse.2 h.taken_nodup)
    exact ih _ (hn ▸ hlt) (List.mem_reverse.1 hbefore.left_mem) rfl

/-- When nothing is ready any more, all such nodes have been taken. -/
theorem Sound.taken_of_acc (hd : d.WellFormed) (h : Sound d [] t) (hempty : t.readyNodes = [])
    {v : Nat} (hacc : Acc d.Precedes v) (hv : v < d.size) : v ∈ t.taken := by
  induction hacc with
  | intro v _ ih =>
    by_contra hvt
    have hzero : t.degree v = 0 := by
      refine h.degree_eq_zero hv fun u hu => ?_
      have he := DependencyGraph.mem_predecessors.1 hu
      exact ih u he (hd _ he).1
    have hready := (h.ready_iff v).2 ⟨hv, hvt, hzero⟩
    rw [hempty] at hready
    cases hready

/-- **The nodes left behind** depend on the edges alone. -/
theorem Sound.waits_iff (hd : d.WellFormed) (h : Sound d [] t) (hempty : t.readyNodes = [])
    {v : Nat} : t.waits v = true ↔ v < d.size ∧ ¬ Acc d.Precedes v := by
  have hwaits : t.waits v = true ↔ 0 < t.degree v := decide_eq_true_iff
  rw [hwaits]
  constructor
  · intro hpos
    have hv : v < d.size := by
      by_contra hge
      have hzero : t.degree v = 0 := by
        simp [degree, Array.getD_eq_getD_getElem?, h.size, hge]
      omega
    refine ⟨hv, fun hacc => ?_⟩
    -- what is not left behind was taken, and so were its predecessors
    have hzero : t.degree v = 0 := by
      refine h.degree_eq_zero hv fun u hu => ?_
      have he := DependencyGraph.mem_predecessors.1 hu
      exact h.taken_of_acc hd hempty (hacc.inv he) (hd _ he).1
    omega
  · rintro ⟨hv, hacc⟩
    by_contra hpos
    have hready := (h.ready_iff v).2 ⟨hv, fun hvt => hacc (h.acc_of_taken hvt), by omega⟩
    rw [hempty] at hready
    cases hready

/-- A round takes one node, so with a round for each node a traversal stops
    ahead of time only when nothing is ready. -/
theorem readyNodes_of_run {dice : Dice σ} {tieBreak : TieBreak}
    {descendants? : Option (Array Nat)} {rounds : Nat} {t' : Traversal σ}
    (hrun : Traversal.run d dice tieBreak descendants? rounds t = .ok t')
    (hrounds : d.size ≤ t.taken.length + rounds) (hlen : t'.taken.length < d.size) :
    t'.readyNodes = [] := by
  induction rounds generalizing t with
  | zero =>
    cases hrun
    omega
  | succ rounds ih =>
    unfold Traversal.run at hrun
    cases hempty : t.ready.isEmpty with
    | true =>
      rw [hempty] at hrun
      cases hrun
      simp [readyNodes, Array.isEmpty_iff.1 hempty]
    | false =>
      obtain ⟨i, s, hpick, hi⟩ := pick_eq_some (d := d) hempty dice tieBreak descendants?
      simp only [hempty, Bool.false_eq_true, if_false, hpick] at hrun
      have htaken : (Traversal.take d { t with dice := s } i).taken.length = t.taken.length + 1 :=
        length_taken_take hi
      exact ih hrun (by omega)

theorem EndsIn.sound (hd : d.WellFormed) (h : EndsIn d t) : Sound d [] t := by
  obtain ⟨dice, s, tieBreak, descendants?, hrun⟩ := h
  exact (sound_start d s).run hd hrun

theorem EndsIn.readyNodes (h : EndsIn d t) (hlen : t.taken.length < d.size) :
    t.readyNodes = [] := by
  obtain ⟨dice, s, tieBreak, descendants?, hrun⟩ := h
  exact readyNodes_of_run hrun (by simp) hlen

/-- A traversal is stuck exactly if some chain of predecessors has no end. -/
theorem EndsIn.stuck_iff (hd : d.WellFormed) (h : EndsIn d t) :
    t.taken.length < d.size ↔ ∃ v < d.size, ¬ Acc d.Precedes v := by
  have ht := h.sound hd
  constructor
  · intro hlen
    by_contra hall
    have hsub : (List.range d.size).Subperm t.taken := by
      refine List.subperm_of_subset List.nodup_range fun v hv => ?_
      have hlt := List.mem_range.1 hv
      by_contra hvt
      exact hall ⟨v, hlt, fun hacc => hvt (ht.taken_of_acc hd (h.readyNodes hlen) hacc hlt)⟩
    have hle := hsub.length_le
    rw [List.length_range] at hle
    omega
  · rintro ⟨v, hv, hacc⟩
    by_contra hlen
    have hperm := ht.perm_taken (Nat.le_of_not_lt hlen)
    exact hacc (ht.acc_of_taken (hperm.mem_iff.2 (List.mem_range.2 hv)))

/-- **Traversals are stuck together**, and leave the same nodes behind. -/
theorem EndsIn.stuck_together (hd : d.WellFormed) {σ' : Type} {t' : Traversal σ'}
    (h : EndsIn d t) (h' : EndsIn d t') (hlen : t.taken.length < d.size) :
    t'.taken.length < d.size ∧ t'.waits = t.waits := by
  have hlen' := (h'.stuck_iff hd).2 ((h.stuck_iff hd).1 hlen)
  refine ⟨hlen', funext fun v => ?_⟩
  rw [Bool.eq_iff_iff, (h'.sound hd).waits_iff hd (h'.readyNodes hlen'),
    (h.sound hd).waits_iff hd (h.readyNodes hlen)]

end Traversal

/-! ## Section 2: The walk back -/

namespace DependencyGraph

variable {d : DependencyGraph} {left : Nat → Bool}

/-- Where the walk from predecessor to predecessor leads, whatever the number
    of its steps: having come along `path`, with the latest node first, it
    ends with the cycle `nodes`. -/
inductive WalkEnds (d : DependencyGraph) (left : Nat → Bool) : List Nat → List Nat → Prop where
  /-- The next node has been seen: what lies between is a cycle. -/
  | closes {current prev : Nat} {rest : List Nat}
      (hprev : (d.predecessors current).find? left = some prev) (hseen : prev ∈ current :: rest) :
      WalkEnds d left (current :: rest) ((current :: rest).takeWhile (· ≠ prev) ++ [prev])
  | goes {current prev : Nat} {rest nodes : List Nat}
      (hprev : (d.predecessors current).find? left = some prev) (hnew : prev ∉ current :: rest)
      (h : WalkEnds d left (prev :: current :: rest) nodes) :
      WalkEnds d left (current :: rest) nodes

/-- The walk back from the first of the `left` nodes ends, and the ops that it
    finds are `ops`. -/
def TracesBack (d : DependencyGraph) (left : Nat → Bool) (ops : List OpId) : Prop :=
  ∃ start nodes, (List.range d.size).find? left = some start ∧
    d.WalkEnds left [start] nodes ∧ ops = d.opsIn nodes

/-- A path against the edges through different nodes that are left behind. -/
structure IsWalk (d : DependencyGraph) (left : Nat → Bool) (path : List Nat) : Prop where
  nodup : path.Nodup
  left : ∀ v ∈ path, left v = true
  chain : path.IsChain d.Precedes

/-- Each of the `left` nodes waits for another one. -/
structure Waiting (d : DependencyGraph) (left : Nat → Bool) : Prop where
  lt : ∀ v, left v = true → v < d.size
  waits : ∀ v, left v = true → ∃ u, (d.predecessors v).find? left = some u

/-- **One step back.** -/
theorem IsWalk.goes {current prev : Nat} {rest : List Nat} (h : d.IsWalk left (current :: rest))
    (hprev : (d.predecessors current).find? left = some prev) (hnew : prev ∉ current :: rest) :
    d.IsWalk left (prev :: current :: rest) := by
  have he : d.Precedes prev current := mem_predecessors.1 (List.mem_of_find?_eq_some hprev)
  refine ⟨List.nodup_cons.2 ⟨hnew, h.nodup⟩, ?_, List.isChain_cons_cons.2 ⟨he, h.chain⟩⟩
  intro v hv
  rcases List.mem_cons.1 hv with rfl | hv
  · exact List.find?_some hprev
  · exact h.left v hv

/-- **The walk back ends.**  It cannot meet more nodes than there are, so it
    closes within as many steps. -/
theorem Waiting.walkEnds (hleft : d.Waiting left) {steps current : Nat} {rest : List Nat}
    (h : d.IsWalk left (current :: rest)) (hsteps : d.size < (current :: rest).length + steps) :
    d.WalkEnds left (current :: rest) (d.walkBack left steps (current :: rest)) := by
  induction steps generalizing current rest with
  | zero =>
    have hsub : (current :: rest).Subperm (List.range d.size) :=
      List.subperm_of_subset h.nodup fun v hv => List.mem_range.2 (hleft.lt v (h.left v hv))
    have hle := hsub.length_le
    rw [List.length_range] at hle
    omega
  | succ steps ih =>
    obtain ⟨prev, hprev⟩ := hleft.waits current (h.left current List.mem_cons_self)
    unfold walkBack
    simp only [hprev]
    split
    · rename_i hseen
      exact .closes hprev (List.contains_iff_mem.1 hseen)
    · rename_i hnew
      have hnew : prev ∉ current :: rest := fun hmem => hnew (List.contains_iff_mem.2 hmem)
      refine .goes hprev hnew (ih (h.goes hprev hnew) ?_)
      rw [List.length_cons]
      omega

/-- **Where the walk ends there is a cycle** of nodes. -/
theorem WalkEnds.cycle {path nodes : List Nat} (h : d.WalkEnds left path nodes)
    (hpath : d.IsWalk left path) :
    nodes ≠ [] ∧ nodes.Nodup ∧ Cycle.Chain d.Precedes (nodes : Cycle Nat) := by
  induction h with
  | goes hprev hnew _ ih => exact ih (hpath.goes hprev hnew)
  | @closes current prev rest hprev hseen =>
    have he : d.Precedes prev current := mem_predecessors.1 (List.mem_of_find?_eq_some hprev)
    -- the cycle is the part of the path up to the node that has been seen
    obtain ⟨before, after, hsplit, hnot⟩ := List.eq_append_cons_of_mem hseen
    have hnodes : (current :: rest).takeWhile (· ≠ prev) ++ [prev] = before ++ [prev] := by
      rw [hsplit, List.takeWhile_append_of_pos, List.takeWhile_cons_of_neg]
      · simp
      · simp
      · intro v hv
        have hne : v ≠ prev := fun heq => hnot (heq ▸ hv)
        simpa using hne
    have hpart : before ++ [prev] ++ after = current :: rest := by
      rw [hsplit]
      simp
    have hprefix : before ++ [prev] <+: current :: rest := ⟨after, hpart⟩
    have hne : before ++ [prev] ≠ [] := by simp
    rw [hnodes]
    refine ⟨hne, hpath.nodup.sublist hprefix.sublist, ?_⟩
    rw [Cycle.chain_ne_nil _ hne, List.getLast_append_singleton, List.isChain_cons]
    refine ⟨fun v hv => ?_, hpath.chain.prefix hprefix⟩
    have hhead : (current :: rest).head? = some v := by
      rw [← hpart, List.head?_append, Option.mem_def.1 hv]
      rfl
    cases hhead
    exact he

theorem isWalk_singleton {start : Nat} (h : left start = true) : d.IsWalk left [start] :=
  ⟨List.nodup_singleton start, by simpa using h, List.isChain_singleton _⟩

/-- The cycle that is found is the one where the walk back ends. -/
theorem Waiting.tracesBack (hleft : d.Waiting left) {start : Nat}
    (hstart : (List.range d.size).find? left = some start) :
    d.TracesBack left (d.opsIn (d.walkBack left d.size [start])) := by
  have hwalk := isWalk_singleton (d := d) (List.find?_some hstart)
  exact ⟨start, _, hstart, hleft.walkEnds hwalk (by simp), rfl⟩

end DependencyGraph

/-! ## Section 3: Barriers are dropped -/

section Chains

variable {α β : Type} {r : α → α → Prop} {s : β → β → Prop} {f : α → Option β}
  (leads : β → α → Prop)

/-- A chain stays a chain when entries are dropped, if what leads up to a
    dropped entry leads on to the next one. -/
theorem isChain_filterMap (hfirst : ∀ a x y, f x = some a → r x y → leads a y)
    (hnext : ∀ a x y, leads a x → f x = none → r x y → leads a y)
    (hlast : ∀ a y b, leads a y → f y = some b → s a b) {x : α} {xs : List α} {a : β}
    (hx : f x = some a ∨ f x = none ∧ leads a x) (h : (x :: xs).IsChain r) :
    (a :: xs.filterMap f).IsChain s := by
  induction xs generalizing x a with
  | nil => exact List.isChain_singleton a
  | cons y ys ih =>
    obtain ⟨hxy, hys⟩ := List.isChain_cons_cons.1 h
    have hy : leads a y := by
      rcases hx with hx | ⟨hx, hlead⟩
      · exact hfirst a x y hx hxy
      · exact hnext a x y hlead hx hxy
    cases hf : f y with
    | none =>
      rw [List.filterMap_cons_none hf]
      exact ih (.inr ⟨hf, hy⟩) hys
    | some b =>
      rw [List.filterMap_cons_some hf]
      exact List.isChain_cons_cons.2 ⟨hlast a y b hy hf, ih (.inl hf) hys⟩

/-- The same around a cycle, which may as well start at the first entry that
    is kept. -/
theorem cycleChain_filterMap (hfirst : ∀ a x y, f x = some a → r x y → leads a y)
    (hnext : ∀ a x y, leads a x → f x = none → r x y → leads a y)
    (hlast : ∀ a y b, leads a y → f y = some b → s a b) {xs : List α}
    (h : Cycle.Chain r (xs : Cycle α)) : Cycle.Chain s (xs.filterMap f : Cycle β) := by
  cases hfind : xs.find? fun x => (f x).isSome with
  | none =>
    have hnil : xs.filterMap f = [] :=
      List.filterMap_eq_nil_iff.2 fun x hx => by simpa using List.find?_eq_none.1 hfind x hx
    rw [hnil]
    exact Cycle.Chain.nil s
  | some x =>
    obtain ⟨hx, before, after, rfl, hbefore⟩ := List.find?_eq_some_iff_append.1 hfind
    obtain ⟨a, ha⟩ := Option.isSome_iff_exists.1 hx
    have hdropped : before.filterMap f = [] :=
      List.filterMap_eq_nil_iff.2 fun y hy => by simpa using hbefore y hy
    have hturn : ((before ++ x :: after : List α) : Cycle α) = (x :: (after ++ before) : List α) :=
      Cycle.coe_eq_coe.2 List.isRotated_append
    rw [hturn, Cycle.chain_coe_cons] at h
    have hkept := isChain_filterMap leads hfirst hnext hlast (.inl ha) h
    simpa [List.filterMap_append, hdropped, ha] using hkept

end Chains

namespace Graph

variable {g : Graph} {d : DependencyGraph} {extra : ExtraOrder} {options : ScheduleOptions}

/-- Ops that cannot all have their way: each has to run before the next one,
    and the last one before the first. -/
structure IsCycle (g : Graph) (extra : ExtraOrder) (options : ScheduleOptions) (ops : List OpId) :
    Prop where
  two_le : 2 ≤ ops.length
  nodup : ops.Nodup
  chain : Cycle.Chain (g.MustPrecede extra options) (ops : Cycle OpId)

theorem MustPrecede.irrefl {u : OpId} : ¬ g.MustPrecede extra options u u := by
  intro h
  cases h with
  | asked h =>
    cases h with
    | data hne _ => exact hne rfl
    | constraint h => exact Constraints.before_ne_after h rfl
    | extra hne _ _ => exact hne rfl
  | phase _ _ _ hlt => exact Int.lt_irrefl _ hlt

/-- **What an edge stands for**: something asks for it, or it leads to a higher
    level; and an op on a lower level has to run before one on a higher level. -/
theorem WellWired.exists_level (hg : g.WellWired) (hd : g.dependencies extra options = .ok d) :
    ∃ level : Nat → Nat,
      (∀ x y, d.Precedes x y → level x < level y ∨
        ∃ u v, d.op? x = some u ∧ d.op? y = some v ∧ g.Asks extra u v) ∧
      ∀ x y u v, d.op? x = some u → d.op? y = some v → level x < level y →
        g.MustPrecede extra options u v := by
  obtain ⟨hop, -, further, hfurther, hspec⟩ := dependencies_eq_ok hd
  have hasked : ∀ x y, (⟨x, y⟩ : Edge) ∈ g.dataEdges g.nodeNumbers ++
      g.constraintEdges g.nodeNumbers ++ further →
      ∃ u v, d.op? x = some u ∧ d.op? y = some v ∧ g.Asks extra u v := by
    intro x y he
    obtain ⟨u, v, hu, hv, hasks⟩ := (hg.mem_opEdges hfurther).1 he
    rw [hop, hop]
    exact ⟨u, v, nodeNumbers_eq_some.1 hu, nodeNumbers_eq_some.1 hv, hasks⟩
  split at hspec
  · rename_i hphases
    obtain ⟨bins, hbins, -, hedges⟩ := hspec
    refine ⟨level bins, ?_, ?_⟩
    · intro x y hxy
      rcases (hedges _).1 hxy with he | he
      · exact .inr (hasked x y he)
      · exact .inl (level_lt_of_barrierEdge he)
    · intro x y u v hx hy hlt
      rw [hop] at hx hy
      obtain ⟨bu, hbu, hpu⟩ := bin_of_op hbins (nodeNumbers_eq_some.2 hx)
      obtain ⟨bv, hbv, hpv⟩ := bin_of_op hbins (nodeNumbers_eq_some.2 hy)
      simp only [level, hbu, hbv] at hlt
      exact .phase hphases (mem_opIds.1 (List.mem_of_getElem? hx))
        (mem_opIds.1 (List.mem_of_getElem? hy)) (by omega)
  · -- without phases all nodes are on one level
    exact ⟨fun _ => 0, fun x y hxy => .inr (hasked x y ((hspec.2 _).1 hxy)),
      fun x y u v _ _ hlt => absurd hlt (Nat.lt_irrefl 0)⟩

/-- **A cycle of nodes is a cycle of ops**, once the barriers are dropped. -/
theorem WellWired.isCycle_opsIn (hg : g.WellWired) (hd : g.dependencies extra options = .ok d)
    {nodes : List Nat} (hne : nodes ≠ []) (hnodup : nodes.Nodup)
    (hchain : Cycle.Chain d.Precedes (nodes : Cycle Nat)) :
    g.IsCycle extra options (d.opsIn nodes) := by
  obtain ⟨hop, -⟩ := dependencies_eq_ok hd
  obtain ⟨level, hedge, hlevel⟩ := hg.exists_level hd
  have hops : (d.opsIn nodes).Nodup := by
    refine hnodup.filterMap fun x y op hx hy => ?_
    rw [Option.mem_def, hop, ← nodeNumbers_eq_some] at hx hy
    exact Option.some.inj (hx.symm.trans hy)
  -- an op leads to the op that it is asked to precede, and to everything on a higher level
  have hcycle : Cycle.Chain (g.MustPrecede extra options) (d.opsIn nodes : Cycle OpId) := by
    refine cycleChain_filterMap (fun u y => (∃ v, d.op? y = some v ∧ g.Asks extra u v) ∨
      ∃ x, d.op? x = some u ∧ level x < level y) ?_ ?_ ?_ hchain
    · intro u x y hx hxy
      rcases hedge x y hxy with hlt | ⟨u', v, hx', hy, hasks⟩
      · exact .inr ⟨x, hx, hlt⟩
      · cases hx.symm.trans hx'
        exact .inl ⟨v, hy, hasks⟩
    · intro u x y hlead hx hxy
      have hlt : level x < level y := by
        rcases hedge x y hxy with hlt | ⟨u', v, hx', -, -⟩
        · exact hlt
        · cases hx.symm.trans hx'
      rcases hlead with ⟨v, hx', -⟩ | ⟨z, hz, hzx⟩
      · cases hx.symm.trans hx'
      · exact .inr ⟨z, hz, hzx.trans hlt⟩
    · intro u y v hlead hy
      rcases hlead with ⟨v', hy', hasks⟩ | ⟨x, hx, hlt⟩
      · cases hy.symm.trans hy'
        exact .asked hasks
      · exact hlevel x y u v hx hy hlt
  -- barriers alone close no cycle
  have hsome : d.opsIn nodes ≠ [] := by
    intro hnil
    have hup : Cycle.Chain (fun x y => level x < level y) (nodes : Cycle Nat) := by
      rw [Cycle.chain_ne_nil _ hne] at hchain ⊢
      refine hchain.imp_of_mem_imp fun x y hx _ hxy => ?_
      have hmem : x ∈ nodes := by
        rcases List.mem_cons.1 hx with rfl | hx
        · exact List.getLast_mem hne
        · exact hx
      rcases hedge x y hxy with hlt | ⟨u, v, hop, -, -⟩
      · exact hlt
      · cases hop.symm.trans (List.filterMap_eq_nil_iff.1 hnil x hmem)
    have hlevels := ((Cycle.chain_map level).2 hup).eq_nil_of_irrefl
    exact hne (by simpa using hlevels)
  refine ⟨?_, hops, hcycle⟩
  match hlist : d.opsIn nodes with
  | [] => exact absurd hlist hsome
  | [u] =>
    rw [hlist, Cycle.chain_singleton] at hcycle
    exact absurd hcycle MustPrecede.irrefl
  | u :: v :: rest => simp

/-- What the walk back finds is a cycle of ops. -/
theorem WellWired.isCycle_of_tracesBack (hg : g.WellWired)
    (hd : g.dependencies extra options = .ok d) {left : Nat → Bool} {ops : List OpId}
    (h : d.TracesBack left ops) : g.IsCycle extra options ops := by
  obtain ⟨start, nodes, hstart, hends, rfl⟩ := h
  obtain ⟨hne, hnodup, hchain⟩ :=
    hends.cycle (DependencyGraph.isWalk_singleton (List.find?_some hstart))
  exact hg.isCycle_opsIn hd hne hnodup hchain

end Graph

/-! ## Section 4: Reports -/

/-- The nodes that a stuck traversal leaves behind wait for each other. -/
theorem Traversal.EndsIn.waiting {σ : Type} {d : DependencyGraph} {t : Traversal σ}
    (hd : d.WellFormed) (h : t.EndsIn d) (hlen : t.taken.length < d.size) : d.Waiting t.waits := by
  have hiff : ∀ {v}, t.waits v = true ↔ v < d.size ∧ ¬ Acc d.Precedes v :=
    (h.sound hd).waits_iff hd (h.readyNodes hlen)
  refine ⟨fun v hv => (hiff.1 hv).1, fun v hv => Option.isSome_iff_exists.1 ?_⟩
  rw [List.find?_isSome]
  by_contra hnone
  refine (hiff.1 hv).2 ⟨v, fun u hu => ?_⟩
  by_contra hacc
  exact hnone ⟨u, DependencyGraph.mem_predecessors.2 hu, hiff.2 ⟨(hd _ hu).1, hacc⟩⟩

namespace DependencyGraph

variable {d : DependencyGraph} {σ : Type} {dice : Dice σ} {s : σ} {tieBreak : TieBreak}
  {ops : List OpId}

/-- Some traversal of `d` gets stuck and reports `ops`. -/
def Deadlocks (d : DependencyGraph) (ops : List OpId) : Prop :=
  ∃ (σ : Type) (t : Traversal σ), t.EndsIn d ∧ t.taken.length < d.size ∧
    ops = d.findCycle t.inDegree

theorem findCycle_eq (d : DependencyGraph) (t : Traversal σ) :
    d.findCycle t.inDegree = match (List.range d.size).find? t.waits with
      | none => []
      | some start => d.opsIn (d.walkBack t.waits d.size [start]) := rfl

theorem findCycle_congr {σ' : Type} {t : Traversal σ} {t' : Traversal σ'}
    (h : t'.waits = t.waits) : d.findCycle t'.inDegree = d.findCycle t.inDegree := by
  rw [findCycle_eq, findCycle_eq, h]

/-- **The walk back of every traversal** ends with the cycle that is reported. -/
theorem Deadlocks.tracesBack (hd : d.WellFormed) (h : d.Deadlocks ops) {t : Traversal σ}
    (ht : t.EndsIn d) : d.TracesBack t.waits ops := by
  obtain ⟨σ', t', ht', hlen', rfl⟩ := h
  obtain ⟨hlen, hwaits⟩ := ht'.stuck_together hd ht hlen'
  rw [← findCycle_congr hwaits]
  have hwaiting := ht.waiting hd hlen
  obtain ⟨v, hv, hacc⟩ := (ht.stuck_iff hd).1 hlen
  cases hstart : (List.range d.size).find? t.waits with
  | none =>
    have hv' := ((ht.sound hd).waits_iff hd (ht.readyNodes hlen)).2 ⟨hv, hacc⟩
    exact absurd hv' (List.find?_eq_none.1 hstart v (List.mem_range.2 hv))
  | some start =>
    rw [findCycle_eq, hstart]
    exact hwaiting.tracesBack hstart

/-- **A traversal reports what every other one reports.** -/
theorem traverse_eq_cycle_iff (hd : d.WellFormed) {descendants? : Option (Array Nat)} :
    d.traverse dice tieBreak descendants? s = .error (.cycle ops) ↔ d.Deadlocks ops := by
  obtain ⟨t, hrun⟩ := Traversal.exists_run d dice tieBreak descendants? d.size (.start d s)
  have ht : t.EndsIn d := ⟨dice, s, tieBreak, descendants?, hrun⟩
  unfold traverse
  rw [hrun]
  change (if t.taken.length < d.size
    then Except.error (ScheduleError.cycle (d.findCycle t.inDegree))
    else Except.ok t.taken.reverse) = _ ↔ _
  constructor
  · intro h
    split at h
    · rename_i hlen
      cases h
      exact ⟨σ, t, ht, hlen, rfl⟩
    · cases h
  · rintro ⟨σ', t', ht', hlen', rfl⟩
    obtain ⟨hlen, hwaits⟩ := ht'.stuck_together hd ht hlen'
    rw [if_pos hlen, findCycle_congr hwaits]

theorem listOrderWith_eq_cycle_iff (hd : d.WellFormed) {useClosure : Bool} :
    d.listOrderWith dice s tieBreak useClosure = .error (.cycle ops) ↔ d.Deadlocks ops := by
  unfold listOrderWith
  split
  · constructor
    · intro h
      rcases except_bind_eq_error.1 h with hfirst | ⟨order, -, hsecond⟩
      · exact (traverse_eq_cycle_iff hd).1 hfirst
      · exact (traverse_eq_cycle_iff hd).1 hsecond
    · intro h
      exact except_bind_eq_error.2 (.inl ((traverse_eq_cycle_iff hd).2 h))
  · exact traverse_eq_cycle_iff hd

/-- Annealing starts from an order, so it has nothing to report. -/
theorem schedule_eq_cycle_iff (hd : d.WellFormed) {options : ScheduleOptions} {optimal : Bool}
    {chance : Chance} :
    d.schedule options optimal chance = .error (.cycle ops) ↔ d.Deadlocks ops := by
  unfold schedule
  constructor
  · intro h
    rcases except_bind_eq_error.1 h with hlist | ⟨order, -, hrest⟩
    · exact (listOrderWith_eq_cycle_iff hd).1 hlist
    · cases optimal <;> cases hrest
  · intro h
    exact except_bind_eq_error.2 (.inl ((listOrderWith_eq_cycle_iff hd).2 h))

/-- What deadlocks has no order. -/
theorem Deadlocks.not_isOrder (hd : d.WellFormed) (h : d.Deadlocks ops) {order : List Nat} :
    ¬ d.IsOrder order := by
  intro horder
  obtain ⟨σ, t, ⟨dice, s, tieBreak, descendants?, -⟩, -⟩ := id h
  obtain ⟨order', hok⟩ := traverse_eq_ok dice s tieBreak hd horder.acyclic descendants?
  rw [(traverse_eq_cycle_iff hd).2 h] at hok
  cases hok

end DependencyGraph

namespace Graph

theorem errsOnly_allocsOf (g : Graph) (op : OpId) (ids : List TensorId) (allocs : List Nat)
    (table : AllocTable) : ErrsOnly (∀ ops, · ≠ .cycle ops) (g.allocsOf op ids allocs table) := by
  induction ids generalizing allocs table with
  | nil => exact .ok _
  | cons id rest ih =>
    unfold allocsOf
    split
    · exact .error nofun
    · split
      · exact ih _ _
      · exact ih _ _

theorem errsOnly_opNodes (g : Graph) (ops : List (OpId × Op)) (table : AllocTable) :
    ErrsOnly (∀ ops, · ≠ .cycle ops) (g.opNodes ops table) := by
  induction ops generalizing table with
  | nil => exact .ok _
  | cons x rest ih =>
    exact .bind (errsOnly_allocsOf g x.1 _ _ table) fun _ _ => .bind (ih _) fun _ _ => .ok _

/-- Cycles are not found while a dependency graph is built. -/
theorem errsOnly_dependencies (g : Graph) (extra : ExtraOrder) (options : ScheduleOptions) :
    ErrsOnly (∀ ops, · ≠ .cycle ops) (g.dependencies extra options) := by
  have hnamed : ∀ op, ErrsOnly (∀ ops, · ≠ .cycle ops) (namedNode g.nodeNumbers op) := by
    intro op
    unfold namedNode
    split
    · exact .ok _
    · exact .error nofun
  have hextra : ErrsOnly (∀ ops, · ≠ .cycle ops) (extraEdges g.nodeNumbers extra) := by
    refine .bind (.mapM fun x _ => .bind (hnamed x.1) fun _ _ => .mapM fun u _ => ?_)
      fun _ _ => .ok _
    exact .bind (hnamed u) fun _ _ => .ok _
  unfold dependencies
  refine .bind (errsOnly_opNodes g _ _) fun _ _ => .bind hextra fun _ _ => ?_
  split
  · refine .bind (.mapM fun x _ => ?_) fun _ _ => .ok _
    show ErrsOnly _ (binOf x.1 x.2)
    unfold binOf
    simp only
    split
    · exact .error nofun
    · exact .ok _
  · exact .ok _

end Graph

namespace Planner

variable {p : Planner} {g : Graph} {extra : ExtraOrder} {d : DependencyGraph} {optimal : Bool}
  {chance : Chance} {ops : List OpId}

/-- A report of a planner is a report on a dependency graph. -/
theorem deadlocks_of_scheduleGraph
    (h : (p.scheduleGraph g extra optimal chance).1 = .error (.cycle ops)) :
    ∃ d, g.dependencies extra p.options = .ok d ∧ d.Deadlocks ops := by
  generalize hresult : p.scheduleGraph g extra optimal chance = result at h
  cases hresult ▸ outcome_scheduleGraph p g extra optimal chance with
  | unbuilt e he =>
    cases h
    exact absurd rfl (Graph.errsOnly_dependencies g extra p.options _ he ops)
  | recalled => cases h
  | planned => cases h
  | failed d e hd hplan =>
    cases h
    exact ⟨d, hd, (DependencyGraph.schedule_eq_cycle_iff (Graph.wellFormed_dependencies hd)).1 hplan⟩

/-- **Every query for a deadlocked graph gets the same report**: there is no
    order of it to be remembered. -/
theorem Sound.scheduleGraph_eq_cycle (hp : p.Sound) (hd : g.dependencies extra p.options = .ok d)
    (h : d.Deadlocks ops) (optimal : Bool) (chance : Chance) :
    (p.scheduleGraph g extra optimal chance).1 = .error (.cycle ops) := by
  have hwell := Graph.wellFormed_dependencies hd
  unfold Planner.scheduleGraph
  rw [hd]
  simp only
  unfold Planner.schedule
  cases hremembered : p.remembered? d optimal with
  | some order =>
    obtain ⟨nodes, hnodes, -⟩ := hp.remembered hremembered
    exact absurd hnodes (h.not_isOrder hwell)
  | none =>
    simp only
    rw [(DependencyGraph.schedule_eq_cycle_iff hwell).2 h]

theorem phases_setOptions_of_eq {options : ScheduleOptions}
    (h : options.phases = p.options.phases) :
    (p.setOptions options).options.phases = p.options.phases := by
  unfold setOptions
  split
  · exact h
  · rfl

end Planner

namespace Workspace

/-- **Reported cycles.**  Whatever calls were made, a report names at least two
    ops, none of them twice, each of which has to run before the next one, and
    the last one before the first.  The report stays the same under any
    options with as many phases, whatever chance decides and whether a good
    order is wanted or not.  The walk back that finds it ends, however the
    traversal went. -/
theorem isCycle_of_reachable {w : Workspace} (h : w.Reachable) {extra : ExtraOrder}
    {optimal : Bool} {chance : Chance} {ops : List OpId}
    (hreport : (w.planner.scheduleGraph w.graph extra optimal chance).1 = .error (.cycle ops)) :
    w.graph.IsCycle extra w.planner.options ops ∧
    (∀ options : ScheduleOptions, options.phases = w.planner.options.phases →
      ∀ (optimal' : Bool) (chance' : Chance),
        ((w.planner.setOptions options).scheduleGraph w.graph extra optimal' chance').1 =
          .error (.cycle ops)) ∧
    ∀ d, w.graph.dependencies extra w.planner.options = .ok d →
      ∀ (σ : Type) (t : Traversal σ), t.EndsIn d → d.TracesBack t.waits ops := by
  obtain ⟨d, hd, hdeadlock⟩ := Planner.deadlocks_of_scheduleGraph hreport
  have hwell := Graph.wellFormed_dependencies hd
  refine ⟨?_, ?_, ?_⟩
  · obtain ⟨σ, t, ht, -⟩ := id hdeadlock
    exact h.sound.wellWired.isCycle_of_tracesBack hd (hdeadlock.tracesBack hwell ht)
  · intro options hphases optimal' chance'
    have hsame := Planner.phases_setOptions_of_eq hphases
    refine (h.sound.planner.setOptions options).scheduleGraph_eq_cycle ?_ hdeadlock _ _
    rw [Graph.dependencies_congr hsame]
    exact hd
  · intro d' hd' σ t ht
    cases hd.symm.trans hd'
    exact hdeadlock.tracesBack hwell ht

/-- An op of the third phase that reads what one of the second phase writes,
    and an op without a phase. -/
def lateReader : Workspace :=
  let calls : List Call := [
    .addInput "x" ⟨.f32, [2]⟩,
    .createOp Builtin.relu.operator { phase? := some 1 },
    .createOp Builtin.identity.operator { phase? := some 0 },
    .connectInput 1 0 "x",
    .createOutput 1 0 "y",
    .connectInput 0 0 "y",
    .createOp Builtin.identity.operator {},
    .connectInput 2 0 "x",
    .setOptions { phases := 3 }]
  calls.foldl (fun w c => c.run w) {}

/-- The op of the second phase cannot be put ahead of the one without a phase.
    The walk back starts at the late reader, which is not on the cycle, and
    comes through a barrier. -/
theorem lateReader_reports :
    (lateReader.planner.scheduleGraph lateReader.graph (.ofList [(2, [1])]) true).1 =
      .error (.cycle [2, 1]) ∧
    lateReader.graph.IsCycle (.ofList [(2, [1])]) lateReader.planner.options [2, 1] ∧
    ((lateReader.planner.setOptions { phases := 3, tieBreak := .random, seed := 7 }).scheduleGraph
      lateReader.graph (.ofList [(2, [1])]) false).1 = .error (.cycle [2, 1]) := by
  have hreachable : lateReader.Reachable := Reachable.run (.start "") _
  have hreport : (lateReader.planner.scheduleGraph lateReader.graph (.ofList [(2, [1])]) true).1 =
      .error (.cycle [2, 1]) := by
    decide +kernel
  obtain ⟨hcycle, hsame, -⟩ := isCycle_of_reachable hreachable hreport
  exact ⟨hreport, hcycle, hsame _ (by decide +kernel) _ _⟩

end Workspace

end Dataflow
