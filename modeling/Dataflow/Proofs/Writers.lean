import Dataflow.Proofs.Reachability

/-! # Writers in place

    An op that writes a tensor in place destroys a value that others may
    still want to read.  `Graph.orderWriters` puts the readers ahead of it,
    one writer after the other.

    A reader that the writer leads to anyway cannot be put ahead of it, and of
    two writers the one created first goes first.  All other readers are ahead
    of the writer afterwards (`WriterOrdered`), and constraints that are added
    for a later writer take nothing away from this.  So one round is enough:
    a second one finds every writer in order. -/

namespace Dataflow

/-! ## Section 1: Counting constraints -/

namespace Constraints

theorem nodup_toList (c : Constraints) : c.toList.Nodup :=
  c.ordered_toList.imp fun hlt heq => by
    subst heq
    omega

theorem length_toList_insert {c : Constraints} {before after : OpId} (hne : before ≠ after)
    (hnew : (⟨before, after⟩ : Edge) ∉ c.toList) :
    (c.insert before after).toList.length = c.toList.length + 1 := by
  have hperm : (c.insert before after).toList.Perm (⟨before, after⟩ :: c.toList) := by
    refine (List.perm_ext_iff_of_nodup (nodup_toList _)
      (List.nodup_cons.2 ⟨hnew, c.nodup_toList⟩)).2 fun e => ?_
    rw [mem_toList_insert, List.mem_cons]
    simp [hne]
  simpa using hperm.length_eq

end Constraints

namespace Graph

variable {g s : Graph} {writer : OpId} {tensor : TensorId}

/-- Readers that are not ahead of the writer yet give one constraint each. -/
theorem length_constraints_putAhead {readers : List OpId} (hnodup : readers.Nodup)
    (hne : ∀ r ∈ readers, r ≠ writer)
    (hnew : ∀ r ∈ readers, (⟨r, writer⟩ : Edge) ∉ g.constraints.toList) :
    (g.putAhead readers writer).constraints.toList.length
      = g.constraints.toList.length + readers.length := by
  show (readers.foldl (fun c r => c.insert r writer) g.constraints).toList.length = _
  revert hnew
  generalize g.constraints = c
  induction readers generalizing c with
  | nil => simp
  | cons r rest ih =>
    intro hnew
    obtain ⟨hr, hrest⟩ := List.nodup_cons.1 hnodup
    have hlater : ∀ x ∈ rest, (⟨x, writer⟩ : Edge) ∉ (c.insert r writer).toList := by
      intro x hx hmem
      rcases Constraints.mem_toList_insert.1 hmem with ⟨-, heq⟩ | hold
      · cases heq
        exact hr hx
      · exact hnew x (List.mem_cons_of_mem r hx) hold
    rw [List.foldl_cons, ih hrest (fun x hx => hne x (List.mem_cons_of_mem r hx)) _ hlater,
      Constraints.length_toList_insert (hne r List.mem_cons_self) (hnew r List.mem_cons_self),
      List.length_cons]
    omega

/-! ## Section 2: One writer -/

/-- The other readers of `tensor` are ahead of `writer`, except for those that
    it leads to, and for younger writers. -/
def WriterOrdered (g : Graph) (writer : OpId) (tensor : TensorId) : Prop :=
  ∀ r ∈ g.readers tensor, r ≠ writer → ¬ g.WritesInPlace r tensor ∨ r < writer →
    Relation.TransGen g.Orders writer r ∨ (⟨r, writer⟩ : Edge) ∈ g.constraints.toList

/-- The readers that have to be put ahead are those in whom the writer is not
    in order yet. -/
theorem WellWired.mem_unorderedReaders (h : g.WellWired) {r : OpId} :
    r ∈ g.unorderedReaders writer tensor ↔
      r ∈ g.readers tensor ∧ r ≠ writer ∧ (¬ g.WritesInPlace r tensor ∨ r < writer) ∧
        ¬ Relation.TransGen g.Orders writer r ∧
          (⟨r, writer⟩ : Edge) ∉ g.constraints.toList := by
  simp only [unorderedReaders, List.mem_filter, Bool.and_eq_true, Bool.not_eq_true',
    ← Bool.not_eq_true, decide_eq_true_eq, List.contains_iff_mem, h.mem_downstream,
    Constraints.contains_iff, modifies_iff]
  constructor
  · rintro ⟨hr, ⟨⟨hne, hdown⟩, hcon⟩, hyoung⟩
    refine ⟨hr, hne, ?_, hdown, hcon⟩
    by_cases hwrites : g.WritesInPlace r tensor
    · exact .inr (Nat.lt_of_le_of_ne (Nat.not_lt.1 fun hlt => hyoung ⟨hlt, hwrites⟩) hne)
    · exact .inl hwrites
  · rintro ⟨hr, hne, hold, hdown, hcon⟩
    refine ⟨hr, ⟨⟨hne, hdown⟩, hcon⟩, ?_⟩
    rintro ⟨hlt, hwrites⟩
    rcases hold with hold | hold
    · exact hold hwrites
    · exact Nat.lt_asymm hlt hold

/-- A writer in order needs no more constraints. -/
theorem WellWired.unorderedReaders_eq_nil (h : g.WellWired) (ho : g.WriterOrdered writer tensor) :
    g.unorderedReaders writer tensor = [] := by
  refine List.eq_nil_iff_forall_not_mem.2 fun r hr => ?_
  obtain ⟨hmem, hne, hold, hdown, hcon⟩ := h.mem_unorderedReaders.1 hr
  rcases ho r hmem hne hold with hlead | hahead
  · exact hdown hlead
  · exact hcon hahead

theorem nodup_unorderedReaders (g : Graph) (writer : OpId) (tensor : TensorId) :
    (g.unorderedReaders writer tensor).Nodup := by
  refine List.Nodup.sublist List.filter_sublist ?_
  unfold readers
  split
  · exact Std.ExtTreeMap.nodup_keys
  · exact List.nodup_nil

/-- More constraints take nothing from the order. -/
theorem Orders.putAhead {u v : OpId} (h : g.Orders u v) (readers : List OpId) (writer : OpId) :
    (g.putAhead readers writer).Orders u v := by
  rcases mem_successors.1 h with hdata | hcon
  · exact mem_successors.2 (.inl hdata)
  · exact mem_successors.2 (.inr (mem_constraints_putAhead.2 (.inl hcon)))

/-- A writer in order stays so when another one is put in order. -/
theorem WriterOrdered.putAhead (h : g.WriterOrdered writer tensor) (readers : List OpId)
    (other : OpId) : (g.putAhead readers other).WriterOrdered writer tensor := by
  intro r hr hne hold
  rcases h r hr hne hold with hlead | hahead
  · exact .inl (hlead.lift id fun u v huv => huv.putAhead readers other)
  · exact .inr (mem_constraints_putAhead.2 (.inl hahead))

/-- **One writer** is in order once its readers have been put ahead of it. -/
theorem WellWired.writerOrdered_putAhead (h : g.WellWired) (writer : OpId) (tensor : TensorId) :
    (g.putAhead (g.unorderedReaders writer tensor) writer).WriterOrdered writer tensor := by
  intro r hr hne hold
  by_cases hmem : r ∈ g.unorderedReaders writer tensor
  · exact .inr (mem_constraints_putAhead.2 (.inr ⟨hmem, rfl, hne⟩))
  · -- such a reader was left out because it was in order before
    by_cases hlead : Relation.TransGen g.Orders writer r
    · exact .inl (hlead.lift id fun u v huv => huv.putAhead _ _)
    · by_cases hahead : (⟨r, writer⟩ : Edge) ∈ g.constraints.toList
      · exact .inr (mem_constraints_putAhead.2 (.inl hahead))
      · exact absurd (h.mem_unorderedReaders.2 ⟨hr, hne, hold, hlead, hahead⟩) hmem

/-! ## Section 3: All writers -/

theorem mem_writes_iff : (writer, tensor) ∈ g.writes ↔ g.WritesInPlace writer tensor := by
  rw [← modifies_iff]
  constructor
  · intro h
    obtain ⟨o, ho, hmod⟩ := Edit.mem_writes h
    simpa [modifies, ho] using hmod
  · intro h
    obtain ⟨o, i, ho, hi, hmod⟩ := modifies_iff.1 h
    have hread : tensor ∈ o.inputs.tensors := Ports.mem_tensors.2 ⟨i, hi⟩
    refine List.mem_flatMap.2 ⟨(writer, o),
      Std.ExtTreeMap.mem_toList_iff_getElem?_eq_some.2 ho, List.mem_map.2 ⟨tensor, ?_, rfl⟩⟩
    exact List.mem_filter.2 ⟨hread, by simpa [modifies, ho] using h⟩

/-- `s` is `g` with `n` more constraints, and the writers in `done` are in
    order. -/
structure OrderedSoFar (g : Graph) (done : List (OpId × TensorId)) (n : Nat) (s : Graph) :
    Prop where
  wellWired : s.WellWired
  same : s = { g with constraints := s.constraints }
  kept : ∀ e ∈ g.constraints.toList, e ∈ s.constraints.toList
  counted : s.constraints.toList.length = g.constraints.toList.length + n
  ordered : ∀ x ∈ done, s.WriterOrdered x.1 x.2

/-- **The step of the loop**: one more writer is put in order. -/
theorem OrderedSoFar.step {done : List (OpId × TensorId)} {n : Nat}
    (h : g.OrderedSoFar done n s) (hwrites : g.WritesInPlace writer tensor) :
    g.OrderedSoFar (done ++ [(writer, tensor)]) (n + (s.unorderedReaders writer tensor).length)
      (s.putAhead (s.unorderedReaders writer tensor) writer) where
  wellWired := by
    obtain ⟨o, -, ho, -⟩ := hwrites
    have hop : s.op? writer = g.op? writer := by rw [h.same]; rfl
    exact Edit.putAhead_unordered_wellWired h.wellWired (by simp [hop, ho]) tensor
  same := congrArg (fun x : Graph => { x with
    constraints := (s.putAhead (s.unorderedReaders writer tensor) writer).constraints }) h.same
  kept e he := mem_constraints_putAhead.2 (.inl (h.kept e he))
  counted := by
    have hne : ∀ r ∈ s.unorderedReaders writer tensor, r ≠ writer :=
      fun r hr => (h.wellWired.mem_unorderedReaders.1 hr).2.1
    have hnew : ∀ r ∈ s.unorderedReaders writer tensor,
        (⟨r, writer⟩ : Edge) ∉ s.constraints.toList :=
      fun r hr => (h.wellWired.mem_unorderedReaders.1 hr).2.2.2.2
    rw [length_constraints_putAhead (nodup_unorderedReaders s writer tensor) hne hnew, h.counted]
    omega
  ordered x hx := by
    rcases List.mem_append.1 hx with hx | hx
    · exact (h.ordered x hx).putAhead _ _
    · cases List.mem_singleton.1 hx
      exact h.wellWired.writerOrdered_putAhead writer tensor

/-- **The whole loop** puts every writer in order. -/
theorem WellWired.orderedSoFar (h : g.WellWired) :
    g.OrderedSoFar g.writes g.orderWriters.1 g.orderWriters.2 := by
  have hloop : ∀ (rest done : List (OpId × TensorId)) (n : Nat) (s : Graph),
      done ++ rest = g.writes → g.OrderedSoFar done n s →
      let loop := rest.foldl (fun found write =>
        let readers := found.2.unorderedReaders write.1 write.2
        (found.1 + readers.length, found.2.putAhead readers write.1)) (n, s)
      g.OrderedSoFar g.writes loop.1 loop.2 := by
    intro rest
    induction rest with
    | nil =>
      intro done n s hdone hs
      rw [← hdone, List.append_nil]
      exact hs
    | cons x rest ih =>
      intro done n s hdone hs
      have hx : g.WritesInPlace x.1 x.2 := mem_writes_iff.1 (hdone ▸ by simp)
      exact ih (done ++ [x]) _ _ (by simp [hdone]) (hs.step hx)
  exact hloop g.writes [] 0 g rfl {
    wellWired := h
    same := rfl
    kept := fun e he => he
    counted := rfl
    ordered := fun x hx => by cases hx }

/-- Nothing happens in a graph whose writers are in order. -/
theorem WellWired.orderWriters_eq (h : g.WellWired)
    (ho : ∀ writer tensor, g.WritesInPlace writer tensor → g.WriterOrdered writer tensor) :
    g.orderWriters = (0, g) := by
  have hloop : ∀ writes : List (OpId × TensorId), (∀ x ∈ writes, x ∈ g.writes) →
      writes.foldl (fun found write =>
        let readers := found.2.unorderedReaders write.1 write.2
        (found.1 + readers.length, found.2.putAhead readers write.1)) (0, g) = (0, g) := by
    intro writes
    induction writes with
    | nil => exact fun _ => rfl
    | cons x rest ih =>
      intro hx
      have hnil : g.unorderedReaders x.1 x.2 = [] :=
        h.unorderedReaders_eq_nil (ho _ _ (mem_writes_iff.1 (hx x List.mem_cons_self)))
      rw [List.foldl_cons]
      simp only [hnil]
      exact ih fun y hy => hx y (List.mem_cons_of_mem x hy)
  exact hloop g.writes fun x hx => hx

/-! ## Section 4: Safety in place -/

/-- What it means that `n` constraints, added to `g`, put its writers in order. -/
structure OrdersWriters (g : Graph) (n : Nat) (g' : Graph) : Prop where
  acyclic : Acyclic g.RunsBefore → Acyclic g'.RunsBefore
  /-- Between a writer and another reader of what it writes the order is fixed. -/
  comparable : ∀ t w r, g'.WritesInPlace w t → r ∈ g'.readers t → r ≠ w →
    Relation.TransGen g'.RunsBefore r w ∨ Relation.TransGen g'.RunsBefore w r
  /-- The reader goes first, unless it is a younger writer or the writer leads
      to it. -/
  ahead : ∀ t w r, g'.WritesInPlace w t → r ∈ g'.readers t → r ≠ w →
    ¬ g'.WritesInPlace r t ∨ r < w →
    Relation.TransGen g'.RunsBefore w r ∨ (⟨r, w⟩ : Edge) ∈ g'.constraints.toList
  same : g' = { g with constraints := g'.constraints }
  kept : ∀ e ∈ g.constraints.toList, e ∈ g'.constraints.toList
  counted : (g'.constraints.toList.filter (· ∉ g.constraints.toList)).length = n
  /-- A second round finds nothing to do. -/
  stable : g'.orderWriters = (0, g')

/-- Constraints that were added number as many as there are more of them. -/
theorem length_added {c c' : Constraints} {n : Nat} (hkept : ∀ e ∈ c.toList, e ∈ c'.toList)
    (hlength : c'.toList.length = c.toList.length + n) :
    (c'.toList.filter (· ∉ c.toList)).length = n := by
  have hold : (c'.toList.filter (· ∈ c.toList)).Perm c.toList := by
    refine (List.perm_ext_iff_of_nodup (c'.nodup_toList.filter _) c.nodup_toList).2 fun e => ?_
    simp only [List.mem_filter, decide_eq_true_eq]
    exact ⟨And.right, fun he => ⟨hkept e he, he⟩⟩
  have hsplit := List.length_eq_length_filter_add (l := c'.toList) (· ∈ c.toList)
  have hnew : (fun e => !decide (e ∈ c.toList)) = fun e => decide (e ∉ c.toList) := by
    funext e
    simp
  rw [hnew, hold.length_eq] at hsplit
  omega

/-- **Ordering the writers** of a well wired graph. -/
theorem WellWired.ordersWriters (h : g.WellWired) :
    g.OrdersWriters g.orderWriters.1 g.orderWriters.2 := by
  have hend := h.orderedSoFar
  have hwired := hend.wellWired
  have hwrites : ∀ w t, g.orderWriters.2.WritesInPlace w t → g.WritesInPlace w t := by
    rw [hend.same]
    exact fun w t hw => hw
  have hordered : ∀ w t, g.orderWriters.2.WritesInPlace w t →
      g.orderWriters.2.WriterOrdered w t :=
    fun w t hw => hend.ordered (w, t) (mem_writes_iff.2 (hwrites w t hw))
  have hahead : ∀ {u v : OpId}, (⟨u, v⟩ : Edge) ∈ g.orderWriters.2.constraints.toList →
      Relation.TransGen g.orderWriters.2.Orders u v :=
    fun hcon => .single (mem_successors.2 (.inr hcon))
  refine ⟨?_, ?_, ?_, hend.same, hend.kept, length_added hend.kept hend.counted,
    hwired.orderWriters_eq hordered⟩
  · rw [h.runsBefore_eq, hwired.runsBefore_eq]
    exact fun hac => (acyclic_orderWriters h hac).2
  · intro t w r hw hr hne
    rw [hwired.runsBefore_eq]
    by_cases hold : ¬ g.orderWriters.2.WritesInPlace r t ∨ r < w
    · rcases hordered w t hw r hr hne hold with hlead | hcon
      · exact .inr hlead
      · exact .inl (hahead hcon)
    · -- the reader is a younger writer, so the two change places
      obtain ⟨hwr, hle⟩ := not_or.1 hold
      have hlt : w < r := Nat.lt_of_le_of_ne (Nat.not_lt.1 hle) (Ne.symm hne)
      obtain ⟨o, i, ho, hi, -⟩ := hw
      have hread : w ∈ g.orderWriters.2.readers t :=
        hwired.reader_iff.2 ⟨i, inputAt_eq_some.2 ⟨o, ho, hi⟩⟩
      rcases hordered r t (not_not.1 hwr) w hread (Ne.symm hne) (.inr hlt) with hlead | hcon
      · exact .inl hlead
      · exact .inr (hahead hcon)
  · intro t w r hw hr hne hold
    rw [hwired.runsBefore_eq]
    exact hordered w t hw r hr hne hold

end Graph

namespace Workspace

/-- **Safety of writing in place.**  In every state that can be reached, the
    writers can be put in order.  A writer and the other readers of what it
    writes are then ordered, no cycle has been closed, and nothing but the
    counted constraints is new. -/
theorem ordersWriters_of_reachable {w : Workspace} (h : w.Reachable) :
    ∃ n g', Edit.orderWriters w.graph = .ok n g' ∧ w.graph.OrdersWriters n g' :=
  ⟨_, _, rfl, h.sound.wellWired.ordersWriters⟩

/-- Two ops add to one variable in place, and a third one reads it. -/
def sharedVariable : Workspace :=
  let calls : List Call := [
    .addVar "v" ⟨.f32, [2]⟩ (Payload.zeros 8),
    .addInput "x" ⟨.f32, [2]⟩,
    .createOp Builtin.accumulateInplace.operator {},
    .connectInput 0 0 "v",
    .connectInput 0 1 "x",
    .createOutput 0 0 "a",
    .settle 0,
    .createOp Builtin.relu.operator {},
    .connectInput 1 0 "v",
    .createOutput 1 0 "b",
    .settle 1,
    .createOp Builtin.accumulateInplace.operator {},
    .connectInput 2 0 "v",
    .connectInput 2 1 "x",
    .createOutput 2 0 "c",
    .settle 2]
  calls.foldl (fun w c => c.run w) {}

theorem sharedVariable_ordersWriters :
    ∃ n g', Edit.orderWriters sharedVariable.graph = .ok n g' ∧
      sharedVariable.graph.OrdersWriters n g' ∧ n = 3 ∧
      g'.constraints.toList = [⟨0, 2⟩, ⟨1, 0⟩, ⟨1, 2⟩] := by
  have hreachable : sharedVariable.Reachable := Reachable.run (.start "") _
  obtain ⟨n, g', hrun, horders⟩ := ordersWriters_of_reachable hreachable
  refine ⟨n, g', hrun, horders, ?_⟩
  cases hrun
  decide +kernel

end Workspace

end Dataflow
