import Dataflow.Proofs.Reachability

/-! # Propagation of types

    When the type of a tensor changes, its settled readers are worked out
    anew, and then theirs, breadth first.  No op is worked out twice, so an op
    is only certain to end up with the right types if all that it reads has
    settled before its turn comes.

    That is so for every op that is evenly reached: all ways to it from the op
    where the change started, through settled readers, have the same length.
    The ops that wait are then in the order of the length of these ways, and
    an op comes after all ops that it reads from. -/

namespace Dataflow

open Dataflow.Graph

namespace Graph

variable {g g' : Graph}

/-! ## Section 1: Ops that are up to date -/

/-- Inference accepts the inputs of the op, and gives the types that its
    outputs have. -/
def UpToDate (g : Graph) (op : OpId) : Prop :=
  ∃ types, g.inferOp op none = .ok types ∧
    ∀ i t, g.outputAt op i = some t → ∃ type, types[i]? = some type ∧ g.type? t = some type

theorem upToDate_iff {op : OpId} : g.UpToDate op ↔
    ∃ types ∈ (g.inferOp op none).toOption,
      ∀ x ∈ ((g.op? op).map fun o => o.outputs.toList).getD [],
        ∃ type ∈ types[x.1]?, g.type? x.2 = some type := by
  unfold UpToDate
  refine exists_congr fun types => and_congr ?_ ?_
  · cases g.inferOp op none <;> simp [Except.toOption]
  · cases ho : g.op? op with
    | none => simp [outputAt, ho]
    | some o => simp [outputAt_eq ho, ← Ports.mem_toList]

instance (g : Graph) (op : OpId) : Decidable (g.UpToDate op) :=
  decidable_of_iff _ upToDate_iff.symm

/-- Inference only sees the op and the types of its inputs. -/
theorem inferOp_congr {op : OpId} {types : List TensorType}
    (h : g.inferOp op none = .ok types)
    (hop : (g'.op? op).map Op.unmarked = (g.op? op).map Op.unmarked)
    (hin : ∀ i t, g.inputAt op i = some t → g'.type? t = g.type? t) :
    g'.inferOp op none = .ok types := by
  obtain ⟨o, ho, htyped, hinfer⟩ := inferOp_none_eq_ok.1 h
  rw [ho, Option.map_some, Option.map_eq_some_iff] at hop
  obtain ⟨o', ho', heq⟩ := hop
  obtain ⟨hoperator, -, hinputs, -⟩ := Op.mk.inj heq
  have htype : ∀ i t, o.inputs.get? i = some t → g'.type? t = g.type? t := by
    intro i t hi
    exact hin i t ((inputAt_eq ho i).trans hi)
  apply inferOp_none_eq_ok.2
  refine ⟨o', ho', ?_, ?_⟩
  · intro i t hi
    rw [hinputs] at hi
    rw [htype i t hi]
    exact htyped i t hi
  · have hsame : g'.inputTypes o.inputs = g.inputTypes o.inputs := by
      apply List.map_congr_left
      intro i _
      cases hi : o.inputs.get? i with
      | none => rfl
      | some t => exact htype i t hi
    rw [hinputs, hoperator, hsame]
    exact hinfer

/-- An op stays up to date as long as its own tensors keep their types. -/
theorem UpToDate.congr {op : OpId} (h : g.UpToDate op)
    (hop : (g'.op? op).map Op.unmarked = (g.op? op).map Op.unmarked)
    (hin : ∀ i t, g.inputAt op i = some t → g'.type? t = g.type? t)
    (hout : ∀ i t, g.outputAt op i = some t → g'.type? t = g.type? t) : g'.UpToDate op := by
  obtain ⟨types, hinfer, hstored⟩ := h
  have houtput : ∀ i, g'.outputAt op i = g.outputAt op i := by
    intro i
    have hget := congrArg (Option.bind · fun o => o.outputs.get? i) hop
    simpa [Option.bind_map, Function.comp_def, Op.unmarked, outputAt] using hget
  refine ⟨types, inferOp_congr hinfer hop hin, ?_⟩
  intro i t hi
  rw [houtput] at hi
  rw [hout i t hi]
  exact hstored i t hi

/-! ## Section 2: Ways through settled readers -/

/-- Op number `y` is settled and reads what op number `x` produces. -/
def Passes (g : Graph) (x y : OpId) : Prop := g.isSettled y ∧ g.Feeds x y

/-- A way of `n` steps from op number `start`, each of them to a settled
    reader. -/
inductive Walk (g : Graph) (start : OpId) : OpId → Nat → Prop where
  | start : Walk g start start 0
  | step {x y : OpId} {n : Nat} (h : Walk g start x n) (hy : g.Passes x y) :
      Walk g start y (n + 1)

/-- All ways to op number `x` have the same length, if there are any. -/
def EvenlyReached (g : Graph) (start x : OpId) : Prop :=
  ∀ m n, g.Walk start x m → g.Walk start x n → m = n

/-- Where every reader is one level above what it reads from, all ops are
    evenly reached. -/
theorem evenlyReached_of_level (level : OpId → Nat)
    (h : ∀ x y, g.Passes x y → level y = level x + 1) (start x : OpId) :
    g.EvenlyReached start x := by
  have hlevel : ∀ y n, g.Walk start y n → level y = level start + n := by
    intro y n hwalk
    induction hwalk with
    | start => rfl
    | step _ hpass ih => rw [h _ _ hpass, ih, Nat.add_assoc]
  intro m n hm hn
  have hm := hlevel x m hm
  have hn := hlevel x n hn
  omega

/-! ## Section 3: One round -/

/-- The waiting ops are reached in `d` steps, and those at the end in one more. -/
def Tiered (g : Graph) (start : OpId) (d : Nat) (waiting : List OpId) : Prop :=
  ∃ near far, waiting = near ++ far ∧ (∀ x ∈ near, g.Walk start x d) ∧
    ∀ x ∈ far, g.Walk start x (d + 1)

/-- The next op is reached in `e` steps, which is `d` or one more, and those
    that go on waiting are tiered from there. -/
theorem Tiered.next {start op : OpId} {d : Nat} {waiting rest : List OpId} {skip : OpId → Bool}
    (h : g.Tiered start d waiting) (hnext : waiting.dropWhile skip = op :: rest) :
    ∃ e, d ≤ e ∧ g.Walk start op e ∧ g.Tiered start e rest := by
  obtain ⟨near, far, rfl, hnear, hfar⟩ := h
  rw [List.dropWhile_append] at hnext
  split at hnext
  · -- nothing is left of the first tier
    have hmem := (dropWhile_eq_cons hnext).2.2
    refine ⟨d + 1, Nat.le_succ d, hfar op (hmem op List.mem_cons_self), rest, [], ?_, ?_, nofun⟩
    · rw [List.append_nil]
    · intro x hx
      exact hfar x (hmem x (List.mem_cons_of_mem op hx))
  · rename_i hne
    cases hdrop : near.dropWhile skip with
    | nil => simp [hdrop] at hne
    | cons y near' =>
      rw [hdrop] at hnext
      cases hnext
      have hmem := (dropWhile_eq_cons hdrop).2.2
      refine ⟨d, Nat.le_refl d, hnear op (hmem op List.mem_cons_self), near', far, rfl, ?_, hfar⟩
      intro x hx
      exact hnear x (hmem x (List.mem_cons_of_mem op hx))

theorem Tiered.append {start : OpId} {d : Nat} {waiting later : List OpId}
    (h : g.Tiered start d waiting) (hlater : ∀ x ∈ later, g.Walk start x (d + 1)) :
    g.Tiered start d (waiting ++ later) := by
  obtain ⟨near, far, rfl, hnear, hfar⟩ := h
  refine ⟨near, far ++ later, List.append_assoc .., hnear, ?_⟩
  intro x hx
  rcases List.mem_append.1 hx with hx | hx
  · exact hfar x hx
  · exact hlater x hx

/-- Between two rounds.  The ways are those of the graph in the end, which has
    the wires of `g` and all marks. -/
structure Sweep (final : Graph) (start : OpId) (d : Nat) (waiting : List OpId)
    (visited : Std.ExtTreeSet OpId) (g : Graph) : Prop where
  tiered : final.Tiered start d waiting
  reached : ∀ x ∈ visited, ∃ k ≤ d, final.Walk start x k
  /-- An op that is not up to date still has its turn before it. -/
  upToDate : ∀ x, g.isSettled x → final.EvenlyReached start x →
    g.UpToDate x ∨ x ∈ waiting ∧ x ∉ visited

theorem Retyped.feeds {x y : OpId} (h : Retyped g g') : g'.Feeds x y ↔ g.Feeds x y := by
  unfold Feeds
  simp only [h.inputAt, h.producer?]

/-- **One round** of the sweep.  The op whose turn it is ends up up to date,
    and the readers of what has changed are put last. -/
theorem Sweep.round {final : Graph} {start op : OpId} {d : Nat} {waiting rest affected : List OpId}
    {visited : Std.ExtTreeSet OpId} (hg : g.WellWired) (h : Sweep final start d waiting visited g)
    (hnext : waiting.dropWhile visited.contains = op :: rest) (hone : Settles g op affected g')
    (hfinal : Retyped g' final) (hmarks : ∀ x, g'.isSettled x → final.isSettled x) :
    ∃ e, Sweep final start e (rest ++ affected) (visited.insert op) g' := by
  obtain ⟨e, hde, hop, hrest⟩ := h.tiered.next hnext
  -- a settled reader of the op is reached in one step more
  have hstep : ∀ x i t, g'.isSettled x → g.outputAt op i = some t → (∃ j, g.inputAt x j = some t) →
      final.Walk start x (e + 1) := by
    intro x i t hs hi hj
    obtain ⟨j, hj⟩ := hj
    have hfeeds : g.Feeds op x := ⟨j, t, hj, (hg.produces t op).2 ⟨i, hi⟩⟩
    exact .step hop ⟨hmarks x hs, (hone.retyped.trans hfinal).feeds.2 hfeeds⟩
  have hchanged : ∀ t, g'.type? t ≠ g.type? t → ∃ i, g.outputAt op i = some t := by
    intro t hne
    by_contra hno
    exact hne (hone.unwritten t fun i hi => hno ⟨i, hi⟩)
  refine ⟨e, hrest.append ?_, ?_, ?_⟩
  · intro x hx
    obtain ⟨hs, i, t, hi, hread⟩ := hone.affected_reads x hx
    exact hstep x i t (hone.marks hs) hi (hg.reader_iff.1 hread)
  · intro x hx
    rcases Std.ExtTreeSet.mem_insert.1 hx with heq | hx
    · rw [← Std.LawfulEqCmp.eq_of_compare heq]
      exact ⟨e, Nat.le_refl e, hop⟩
    · obtain ⟨k, hk, hwalk⟩ := h.reached x hx
      exact ⟨k, Nat.le_trans hk hde, hwalk⟩
  · intro x hs heven
    by_cases hx : x = op
    · -- the op does not read what it produces, so it sees what it has just seen
      subst hx
      refine .inl ?_
      obtain ⟨types, hinfer, hstored⟩ := hone.inferred
      have hin : ∀ j t, g.inputAt x j = some t → g'.type? t = g.type? t := by
        intro j t hj
        by_contra hne
        obtain ⟨i, hi⟩ := hchanged t hne
        have heq := heven e (e + 1) hop (hstep x i t hs hi ⟨j, hj⟩)
        omega
      refine ⟨types, inferOp_congr hinfer (hone.retyped.op x) hin, ?_⟩
      intro i t hi
      rw [hone.retyped.outputAt] at hi
      exact hstored i t hi
    · have hold : g.isSettled x := hone.isSettled hx ▸ hs
      by_cases hread : ∃ j t, g.inputAt x j = some t ∧ g'.type? t ≠ g.type? t
      · -- it is put last, and has not had its turn, which would have been too early
        obtain ⟨j, t, hj, hne⟩ := hread
        obtain ⟨i, hi⟩ := hchanged t hne
        have hlater := hstep x i t hs hi ⟨j, hj⟩
        refine .inr ⟨List.mem_append_right _ ?_, ?_⟩
        · exact hone.changed t x hne (hg.reader_iff.2 ⟨j, hj⟩) hold
        · intro hmem
          rcases Std.ExtTreeSet.mem_insert.1 hmem with heq | hmem
          · exact hx (Std.LawfulEqCmp.eq_of_compare heq).symm
          · obtain ⟨k, hk, hwalk⟩ := h.reached x hmem
            have heq := heven k (e + 1) hwalk hlater
            omega
      · -- its tensors keep their types
        have hin : ∀ j t, g.inputAt x j = some t → g'.type? t = g.type? t := by
          intro j t hj
          by_contra hne
          exact hread ⟨j, t, hj, hne⟩
        have hout : ∀ i t, g.outputAt x i = some t → g'.type? t = g.type? t := by
          intro i t hi
          apply hone.unwritten
          intro i' hi'
          exact hx (hg.output_inj hi hi').1
        rcases h.upToDate x hold heven with hdate | ⟨hwait, hnew⟩
        · exact .inl (hdate.congr (hone.retyped.op x) hin hout)
        · refine .inr ⟨List.mem_append_left _ ?_, ?_⟩
          · rcases (dropWhile_eq_cons hnext).2.1 x hwait with hskip | heq | hmem
            · exact absurd (Std.ExtTreeSet.contains_iff_mem.1 hskip) hnew
            · exact absurd heq hx
            · exact hmem
          · intro hmem
            rcases Std.ExtTreeSet.mem_insert.1 hmem with heq | hmem
            · exact hx (Std.LawfulEqCmp.eq_of_compare heq).symm
            · exact hnew hmem

/-! ## Section 4: The whole sweep -/

/-- Settling marks ops and takes no mark away. -/
theorem WellWired.settleAll_marks (hg : g.WellWired) {rounds : Nat} {waiting : List OpId}
    {visited : Std.ExtTreeSet OpId} (h : settleAll rounds waiting visited g = .ok g') {x : OpId}
    (hx : g.isSettled x) : g'.isSettled x := by
  induction rounds generalizing waiting visited g with
  | zero =>
    cases h
    exact hx
  | succ rounds ih =>
    simp only [settleAll] at h
    split at h
    · cases h
      exact hx
    · obtain ⟨⟨affected, g₁⟩, hone, hrest⟩ := except_bind_eq_ok.1 h
      exact ih (hg.of_retyped (retyped_settleOne hone)) hrest ((hg.settles hone).marks hx)

theorem SameParts.opCount (h : SameParts g g') : g'.opCount = g.opCount := by
  have hperm : g'.opIds.Perm g.opIds := by
    apply (List.perm_ext_iff_of_nodup g'.nodup_opIds g.nodup_opIds).2
    intro x
    rw [mem_opIds, mem_opIds, h.op]
  have hlength := hperm.length_eq
  rwa [opIds, opIds, Std.ExtTreeMap.length_keys, Std.ExtTreeMap.length_keys] at hlength

/-- There are no more visited ops than ops. -/
theorem size_le_opCount {visited : Std.ExtTreeSet OpId}
    (h : ∀ x ∈ visited, (g.op? x).isSome) : visited.size ≤ g.opCount := by
  have hsub : visited.toList ⊆ g.opIds := by
    intro x hx
    exact mem_opIds.2 (h x (Std.ExtTreeSet.mem_toList.1 hx))
  have hle := (List.subperm_of_subset (nodup_toList visited) hsub).length_le
  rwa [Std.ExtTreeSet.length_toList, opIds, Std.ExtTreeMap.length_keys] at hle

/-- **A sweep that succeeds** leaves every evenly reached op up to date.  Each
    round visits one op more, so the rounds outlast the ops. -/
theorem Sweep.settleAll {start : OpId} {d rounds : Nat} {waiting : List OpId}
    {visited : Std.ExtTreeSet OpId} (hg : g.WellWired) (h : Sweep g' start d waiting visited g)
    (hexist : ∀ x ∈ visited, (g.op? x).isSome) (hrounds : g.opCount < rounds + visited.size)
    (hrun : settleAll rounds waiting visited g = .ok g') :
    ∀ x, g'.isSettled x → g'.EvenlyReached start x → g'.UpToDate x := by
  induction rounds generalizing d waiting visited g with
  | zero =>
    have hle := size_le_opCount hexist
    omega
  | succ rounds ih =>
    simp only [Graph.settleAll] at hrun
    split at hrun
    · rename_i hnone
      cases hrun
      intro x hs heven
      rcases h.upToDate x hs heven with hdate | ⟨hwait, hnew⟩
      · exact hdate
      · have hskip := dropWhile_eq_nil hnone x hwait
        exact absurd (Std.ExtTreeSet.contains_iff_mem.1 hskip) hnew
    · rename_i op rest hnext
      obtain ⟨⟨affected, g₁⟩, hone, hrest⟩ := except_bind_eq_ok.1 hrun
      have hsettles := hg.settles hone
      have hg₁ := hg.of_retyped hsettles.retyped
      obtain ⟨e, hsweep⟩ := h.round hg hnext hsettles (retyped_settleAll hrest)
        fun x => hg₁.settleAll_marks hrest
      have hnew : op ∉ visited := by
        intro hmem
        exact (dropWhile_eq_cons hnext).1 (Std.ExtTreeSet.contains_iff_mem.2 hmem)
      have hsame : ∀ x, (g₁.op? x).isSome = (g.op? x).isSome := hsettles.retyped.sameParts.op
      refine ih hg₁ hsweep ?_ ?_ hrest
      · intro x hx
        rw [hsame]
        rcases Std.ExtTreeSet.mem_insert.1 hx with heq | hx
        · rw [← Std.LawfulEqCmp.eq_of_compare heq]
          obtain ⟨types, hinfer, -⟩ := hsettles.inferred
          obtain ⟨o, ho, -⟩ := inferOp_none_eq_ok.1 hinfer
          simp [ho]
        · exact hexist x hx
      · have hsize : (visited.insert op).size = visited.size + 1 := by
          rw [Std.ExtTreeSet.size_insert, if_neg (mt Std.ExtTreeSet.contains_iff_mem.1 hnew)]
        have hcount := hsettles.retyped.sameParts.opCount
        omega

/-- **Settling** an op leaves every evenly reached op up to date, if only the
    op itself was not. -/
theorem WellWired.upToDate_settle (hg : g.WellWired) {op : OpId}
    (hdate : ∀ x, x ≠ op → g.isSettled x → g.UpToDate x) (hrun : g.settle op = .ok g') :
    ∀ x, g'.isSettled x → g'.EvenlyReached op x → g'.UpToDate x := by
  have hsweep : Sweep g' op 0 [op] ∅ g := by
    refine ⟨⟨[op], [], rfl, ?_, nofun⟩, ?_, ?_⟩
    · intro x hx
      rw [List.mem_singleton.1 hx]
      exact .start
    · intro x hx
      exact absurd hx Std.ExtTreeSet.not_mem_empty
    · intro x hs _
      by_cases hx : x = op
      · exact .inr ⟨List.mem_singleton.2 hx, Std.ExtTreeSet.not_mem_empty⟩
      · exact .inl (hdate x hx hs)
  refine hsweep.settleAll hg ?_ ?_ hrun
  · intro x hx
    exact absurd hx Std.ExtTreeSet.not_mem_empty
  · simp

end Graph

/-! ## Section 5: Rewiring -/

namespace Workspace

/-- **Rewiring an input** or settling an op, in a graph whose settled ops are
    all up to date, leaves every evenly reached op up to date. -/
theorem upToDate_of_evenlyReached {w : Workspace} (h : w.Reachable)
    (hdate : ∀ x, w.graph.isSettled x → w.graph.UpToDate x) (op : OpId) :
    (∀ index tensor g', Edit.connectInput op index tensor w.graph = .ok () g' →
      ∀ x, g'.isSettled x → g'.EvenlyReached op x → g'.UpToDate x) ∧
    ∀ g', Edit.settle op w.graph = .ok () g' →
      ∀ x, g'.isSettled x → g'.EvenlyReached op x → g'.UpToDate x := by
  have hg := h.sound.wellWired
  constructor
  · intro index tensor g' hrun
    obtain ⟨o, x, ho, hx, hrun⟩ := Edit.connectInput_eq_ok hrun
    have hwired := hg.wireInput ho index (by simp [hx] : (w.graph.tensor? tensor).isSome)
    -- only one input of the op itself has changed so far
    have hdate' : ∀ y, y ≠ op →
        (w.graph.wireInput op index (o.inputs.get? index) tensor).isSettled y →
        (w.graph.wireInput op index (o.inputs.get? index) tensor).UpToDate y := by
      intro y hy hs
      have hop : (w.graph.wireInput op index (o.inputs.get? index) tensor).op? y
          = w.graph.op? y := by
        rw [op?_wireInput, if_neg hy]
      have hs : w.graph.isSettled y := by
        unfold Graph.isSettled at hs ⊢
        rwa [hop] at hs
      refine (hdate y hs).congr (by rw [hop]) ?_ ?_
      · intro i t _
        exact type?_wireInput ..
      · intro i t _
        exact type?_wireInput ..
    by_cases hs : o.isSettled
    · simp only [hs, if_true] at hrun
      exact hwired.upToDate_settle hdate' hrun
    · simp only [hs] at hrun
      subst hrun
      intro y hy _
      refine hdate' y ?_ hy
      rintro rfl
      obtain ⟨z, hz, hzs⟩ := isSettled_iff.1 hy
      rw [op?_wireInput, if_pos rfl, ho] at hz
      cases hz
      exact hs hzs
  · intro g' hrun
    exact hg.upToDate_settle (fun x _ => hdate x) (Edit.settle_eq_ok.1 hrun)

/-- Two activations of one copy of `a` are added.  Both ways from the copy to
    the sum take two steps. -/
def diamond : Workspace :=
  let calls : List Call := [
    .addStream "a" ⟨.f32, [2]⟩,
    .addStream "b" ⟨.f32, [3]⟩,
    .createOp Builtin.identity.operator {},
    .connectInput 0 0 "a",
    .createOutput 0 0 "t",
    .settle 0,
    .createOp Builtin.relu.operator {},
    .connectInput 1 0 "t",
    .createOutput 1 0 "u",
    .settle 1,
    .createOp Builtin.relu.operator {},
    .connectInput 2 0 "t",
    .createOutput 2 0 "v",
    .settle 2,
    .createOp Builtin.add.operator {},
    .connectInput 3 0 "u",
    .connectInput 3 1 "v",
    .createOutput 3 0 "s",
    .settle 3]
  calls.foldl (fun w c => c.run w) {}

/-- With `b` in the place of `a`, the sum gets the type of `b` like everything
    before it. -/
theorem diamond_upToDate :
    ∃ g', Edit.connectInput 0 0 "b" diamond.graph = .ok () g' ∧
      g'.type? "s" = some ⟨.f32, [3]⟩ ∧ ∀ x, g'.isSettled x → g'.UpToDate x := by
  have hreachable : diamond.Reachable := Reachable.run (.start "") _
  have hdate : ∀ x, diamond.graph.isSettled x → diamond.graph.UpToDate x := by
    have hall : ∀ x ∈ diamond.graph.opIds, diamond.graph.UpToDate x := by decide +kernel
    exact fun x hx => hall x (mem_opIds_of_isSettled hx)
  have hrun := eq_ok_of_succeeds (r := Edit.connectInput 0 0 "b" diamond.graph) (by decide +kernel)
  refine ⟨_, hrun, by decide +kernel, ?_⟩
  intro x hx
  refine (upToDate_of_evenlyReached hreachable hdate 0).1 0 "b" _ hrun x hx ?_
  -- the copy is on level 0, the sum on level 2
  apply evenlyReached_of_level fun y => if y = 0 then 0 else if y = 3 then 2 else 1
  have hlevel : ∀ v ∈ (stateOf (Edit.connectInput 0 0 "b" diamond.graph)).opIds,
      ∀ u ∈ (stateOf (Edit.connectInput 0 0 "b" diamond.graph)).feeders v,
        (if v = 0 then 0 else if v = 3 then 2 else 1) =
          (if u = 0 then 0 else if u = 3 then 2 else 1) + 1 := by
    decide +kernel
  intro u v hpass
  exact hlevel v (mem_opIds_of_isSettled hpass.1) u (mem_feeders.2 hpass.2)

/-- A copy of `a` is multiplied by a copy of a copy of itself. -/
def detour : Workspace :=
  let calls : List Call := [
    .addStream "a" ⟨.f32, [2, 2]⟩,
    .addStream "b" ⟨.f32, [3, 2]⟩,
    .createOp Builtin.identity.operator {},
    .connectInput 0 0 "a",
    .createOutput 0 0 "t",
    .settle 0,
    .createOp Builtin.identity.operator {},
    .connectInput 1 0 "t",
    .createOutput 1 0 "u",
    .settle 1,
    .createOp Builtin.identity.operator {},
    .connectInput 2 0 "u",
    .createOutput 2 0 "v",
    .settle 2,
    .createOp Builtin.matMul.operator {},
    .connectInput 3 0 "t",
    .connectInput 3 1 "v",
    .createOutput 3 0 "p",
    .settle 3]
  calls.foldl (fun w c => c.run w) {}

/-- With `b` in the place of `a`, the product is worked out before its second
    factor has got its new type, and not again.  It ends up with factors that
    it rejects, and the edit is not refused. -/
theorem detour_outdated :
    detour.Reachable ∧ (∀ x, detour.graph.isSettled x → detour.graph.UpToDate x) ∧
    ∃ g', Edit.connectInput 0 0 "b" detour.graph = .ok () g' ∧ g'.isSettled 3 ∧
      g'.inferOp 3 none =
        .error (.inference "MatMul(3)" "cannot multiply f32[3,2] by f32[3,2]") ∧
      ¬ g'.UpToDate 3 := by
  refine ⟨Reachable.run (.start "") _, ?_, ?_⟩
  · have hall : ∀ x ∈ detour.graph.opIds, detour.graph.UpToDate x := by decide +kernel
    exact fun x hx => hall x (mem_opIds_of_isSettled hx)
  · have hrun := eq_ok_of_succeeds (r := Edit.connectInput 0 0 "b" detour.graph) (by decide +kernel)
    exact ⟨_, hrun, by decide +kernel, by decide +kernel, by decide +kernel⟩

/-! ## Section 6: Refusals -/

/-- **A refused wire leaves no trace.**  Whatever calls were made before, with
    cycles or without, if an input or an output cannot be wired, or an op
    cannot be settled, the graph is the one before the call.  How far the new
    types had travelled when they were rejected makes no difference. -/
theorem unchanged_of_refused {w : Workspace} (h : w.Reachable) (op : OpId) (e : GraphError)
    (g' : Graph) :
    (∀ index tensor, Edit.connectInput op index tensor w.graph = .error e g' → g' = w.graph) ∧
    (∀ index tensor, Edit.connectOutput op index tensor w.graph = .error e g' → g' = w.graph) ∧
    (Edit.settle op w.graph = .error e g' → g' = w.graph) :=
  ⟨fun _ _ hrun => Edit.connectInput_refused h.sound.wellWired hrun,
    fun _ _ hrun => Edit.connectOutput_refused h.sound.wellWired hrun,
    fun hrun => (Edit.settle_eq_error.1 hrun).2⟩

/-- Two products have `a` as their first factor.  The second factors come, by
    way of `t` and `s`, from tensors that have lost their producers. -/
def lostFactors : Workspace :=
  let calls : List Call := [
    .addStream "a" ⟨.f32, [2, 2]⟩,
    .addStream "b" ⟨.f32, [3, 2]⟩,
    .createOp Builtin.identity.operator {},
    .connectInput 0 0 "a",
    .createOutput 0 0 "t",
    .settle 0,
    .createOp Builtin.relu.operator {},
    .connectInput 1 0 "t",
    .createOutput 1 0 "u",
    .settle 1,
    .createOp Builtin.matMul.operator {},
    .connectInput 2 0 "a",
    .connectInput 2 1 "u",
    .createOutput 2 0 "p",
    .settle 2,
    .disconnectOutput 0 0,
    .createOutput 0 0 "s",
    .createOp Builtin.matMul.operator {},
    .connectInput 3 0 "a",
    .connectInput 3 1 "s",
    .createOutput 3 0 "q",
    .settle 3,
    .disconnectOutput 0 0,
    .createOp Builtin.identity.operator {},
    .connectInput 4 0 "b",
    .createOutput 4 0 "c",
    .settle 4,
    .createOp Builtin.identity.operator {},
    .connectInput 5 0 "b",
    .connectOutput 5 0 "s"]
  calls.foldl (fun w c => c.run w) {}

/-- With `b` for the input of the activation, with `t` for the output of a copy
    of `b`, or with `s` as a copy of `b`, the second factors get types that the
    products reject. -/
theorem lostFactors_unchanged :
    (∃ e, Edit.connectInput 1 0 "b" lostFactors.graph = .error e lostFactors.graph) ∧
    (∃ e, Edit.connectOutput 4 0 "t" lostFactors.graph = .error e lostFactors.graph) ∧
    ∃ e, Edit.settle 5 lostFactors.graph = .error e lostFactors.graph := by
  have hreachable : lostFactors.Reachable := Reachable.run (.start "") _
  obtain ⟨e₁, hinput⟩ := eq_error_of_fails
    (show succeeds (Edit.connectInput 1 0 "b" lostFactors.graph) = false by decide +kernel)
  obtain ⟨e₂, houtput⟩ := eq_error_of_fails
    (show succeeds (Edit.connectOutput 4 0 "t" lostFactors.graph) = false by decide +kernel)
  obtain ⟨e₃, hsettle⟩ := eq_error_of_fails
    (show succeeds (Edit.settle 5 lostFactors.graph) = false by decide +kernel)
  have hsame₁ := (unchanged_of_refused hreachable 1 _ _).1 0 "b" hinput
  have hsame₂ := (unchanged_of_refused hreachable 4 _ _).2.1 0 "t" houtput
  have hsame₃ := (unchanged_of_refused hreachable 5 _ _).2.2 hsettle
  exact ⟨⟨e₁, hinput.trans (by rw [hsame₁])⟩, ⟨e₂, houtput.trans (by rw [hsame₂])⟩,
    ⟨e₃, hsettle.trans (by rw [hsame₃])⟩⟩

end Workspace

end Dataflow
