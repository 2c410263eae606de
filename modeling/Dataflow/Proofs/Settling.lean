import Dataflow.Graph.Edit
import Dataflow.Proofs.Runs
import Dataflow.Proofs.Wiring

/-! # Settling leaves no trace when it is refused

    Settling writes types and marks into the graph as it goes, and keeps a
    record of what it writes over.  Two facts make up its theory, and one
    relation states them together (`Settling.Follows`): every step changes the
    graph as the same step without a record does, and whatever it does, the
    record leads back to where settling began.

    So a refused `Edit.settle` leaves the graph as it was, however far the
    types had travelled, and all else can be proved of settling without a
    record (`Graph.settle`), which either yields a graph or an error. -/

namespace Dataflow

/-! ## Section 1: Updates that cancel out -/

section Modify

variable {κ ν : Type} {cmp : κ → κ → Ordering} [Std.TransCmp cmp] [Std.LawfulEqCmp cmp]

theorem modify_eq_self {m : Std.ExtTreeMap κ ν cmp} {k : κ} {f : ν → ν}
    (h : ∀ v, m[k]? = some v → f v = v) : m.modify k f = m := by
  refine Std.ExtTreeMap.ext_getElem? fun k' => ?_
  rw [Std.ExtTreeMap.getElem?_modify]
  split
  · rename_i heq
    rw [← Std.LawfulEqCmp.eq_of_compare heq]
    cases hk : m[k]? with
    | none => rfl
    | some v => rw [Option.map_some, h v hk]
  · rfl

theorem modify_modify (m : Std.ExtTreeMap κ ν cmp) (k : κ) (f f' : ν → ν) :
    (m.modify k f).modify k f' = m.modify k (f' ∘ f) := by
  refine Std.ExtTreeMap.ext_getElem? fun k' => ?_
  simp only [Std.ExtTreeMap.getElem?_modify]
  split <;> simp

end Modify

namespace Graph

variable {g : Graph}

theorem modifyTensor_eq_self {id : TensorId} {f : Tensor → Tensor}
    (h : ∀ t, g.tensor? id = some t → f t = t) : g.modifyTensor id f = g := by
  rw [modifyTensor, modify_eq_self h]

theorem modifyTensor_modifyTensor (g : Graph) (id : TensorId) (f f' : Tensor → Tensor) :
    (g.modifyTensor id f).modifyTensor id f' = g.modifyTensor id (f' ∘ f) := by
  simp only [modifyTensor, modify_modify]

theorem modifyOp_eq_self {op : OpId} {f : Op → Op} (h : ∀ o, g.op? op = some o → f o = o) :
    g.modifyOp op f = g := by
  rw [modifyOp, modify_eq_self h]

theorem modifyOp_modifyOp (g : Graph) (op : OpId) (f f' : Op → Op) :
    (g.modifyOp op f).modifyOp op f' = g.modifyOp op (f' ∘ f) := by
  simp only [modifyOp, modify_modify]

/-! ## Section 2: Settling without a record -/

/-- Give each tensor its type.  The result lists the settled ops that read a
    tensor whose type has changed. -/
def writeTypes (g : Graph) : List (TensorId × TensorType) → Except GraphError (List OpId × Graph)
  | [] => .ok ([], g)
  | (id, type) :: rest => do
    let t ← g.requireTensor id
    if t.type? = some type then
      g.writeTypes rest
    else
      let g' := g.modifyTensor id fun t => { t with type? := some type }
      let (later, g'') ← g'.writeTypes rest
      return (t.readers.ops.filter g.isSettled ++ later, g'')

/-- Work out the output types of one op and mark it as settled. -/
def settleOne (g : Graph) (op : OpId) : Except GraphError (List OpId × Graph) := do
  let types ← g.inferOp op none
  let o ← g.requireOp op
  let outputs := o.outputs.toList
  match outputs.mapM fun (index, id) => (types[index]?).map fun type => (id, type) with
  | none => throw (.outputCount (o.label op) outputs.length types.length)
  | some typed =>
    let (affected, g') ← g.writeTypes typed
    return (affected, g'.modifyOp op fun o => { o with isSettled := true })

/-- Settle the waiting ops one after the other, first come first served. -/
def settleAll : (rounds : Nat) → (waiting : List OpId) → (visited : Std.ExtTreeSet OpId) →
    Graph → Except GraphError Graph
  | 0, _, _, g => .ok g
  | rounds + 1, waiting, visited, g =>
    match waiting.dropWhile visited.contains with
    | [] => .ok g
    | op :: rest => do
      let (affected, g') ← g.settleOne op
      settleAll rounds (rest ++ affected) (visited.insert op) g'

/-- Settle op number `op` and everything that its new output types affect. -/
def settle (g : Graph) (op : OpId) : Except GraphError Graph :=
  settleAll (g.opCount + 1) [op] ∅ g

end Graph

/-! ## Section 3: The record leads back -/

namespace Settling

variable {α β : Type}

/-- `m` changes the graph as `plain` does, or is refused as `plain` is, and
    either way the record leads back to where it led before. -/
structure Follows (m : Step α) (plain : Graph → Except GraphError (α × Graph)) : Prop where
  ok : ∀ {s a s'}, m s = .ok a s' → plain s.graph = .ok (a, s'.graph) ∧ s'.undo = s.undo
  error : ∀ {s e s'}, m s = .error e s' → plain s.graph = .error e ∧ s'.undo = s.undo

theorem ask_eq_ok {question : Graph → Except GraphError α} {s s' : Settling} {a : α} :
    ask question s = .ok a s' ↔ question s.graph = .ok a ∧ s = s' := by
  unfold ask
  cases question s.graph <;> simp

theorem ask_eq_error {question : Graph → Except GraphError α} {s s' : Settling} {e : GraphError} :
    ask question s = .error e s' ↔ question s.graph = .error e ∧ s = s' := by
  unfold ask
  cases question s.graph <;> simp

namespace Follows

theorem pure (a : α) : Follows (Pure.pure a) fun g => .ok (a, g) where
  ok h := by
    obtain ⟨rfl, rfl⟩ := pure_eq_ok.1 h
    exact ⟨rfl, rfl⟩
  error h := by cases h

theorem throw (e : GraphError) : Follows (MonadExcept.throw e : Step α) fun _ => .error e where
  ok h := by cases h
  error h := by
    cases h
    exact ⟨rfl, rfl⟩

theorem bind {m : Step α} {f : α → Step β} {plain : Graph → Except GraphError (α × Graph)}
    {rest : α → Graph → Except GraphError (β × Graph)} (hm : Follows m plain)
    (hf : ∀ a, Follows (f a) (rest a)) :
    Follows (m >>= f) fun g => plain g >>= fun x => rest x.1 x.2 where
  ok h := by
    obtain ⟨a, s₁, hfirst, hrest⟩ := bind_eq_ok.1 h
    obtain ⟨hplain, hback⟩ := hm.ok hfirst
    obtain ⟨hplain', hback'⟩ := (hf a).ok hrest
    exact ⟨except_bind_eq_ok.2 ⟨_, hplain, hplain'⟩, hback'.trans hback⟩
  error h := by
    rcases bind_eq_error.1 h with hfirst | ⟨a, s₁, hfirst, hrest⟩
    · obtain ⟨hplain, hback⟩ := hm.error hfirst
      exact ⟨except_bind_eq_error.2 (.inl hplain), hback⟩
    · obtain ⟨hplain, hback⟩ := hm.ok hfirst
      obtain ⟨hplain', hback'⟩ := (hf a).error hrest
      exact ⟨except_bind_eq_error.2 (.inr ⟨_, hplain, hplain'⟩), hback'.trans hback⟩

theorem congr {m : Step α} {plain plain' : Graph → Except GraphError (α × Graph)}
    (hm : Follows m plain) (h : ∀ g, plain g = plain' g) : Follows m plain' :=
  funext h ▸ hm

/-- A question, and what is made of the answer. -/
theorem ask_bind {question : Graph → Except GraphError α} {f : α → Step β}
    {plain : α → Graph → Except GraphError (β × Graph)} (hf : ∀ a, Follows (f a) (plain a)) :
    Follows (ask question >>= f) fun g => question g >>= fun a => plain a g where
  ok h := by
    obtain ⟨a, s₁, hask, hrest⟩ := bind_eq_ok.1 h
    obtain ⟨ha, rfl⟩ := ask_eq_ok.1 hask
    obtain ⟨hplain, hback⟩ := (hf a).ok hrest
    exact ⟨except_bind_eq_ok.2 ⟨a, ha, hplain⟩, hback⟩
  error h := by
    rcases bind_eq_error.1 h with hask | ⟨a, s₁, hask, hrest⟩
    · obtain ⟨he, rfl⟩ := ask_eq_error.1 hask
      exact ⟨except_bind_eq_error.2 (.inl he), rfl⟩
    · obtain ⟨ha, rfl⟩ := ask_eq_ok.1 hask
      obtain ⟨hplain, hback⟩ := (hf a).error hrest
      exact ⟨except_bind_eq_error.2 (.inr ⟨a, ha, hplain⟩), hback⟩

end Follows

/-- **Writing a type** is on record, and the record gives the old one back. -/
theorem follows_writeType (id : TensorId) (type : TensorType) :
    Follows (writeType id type) fun g => do
      let t ← g.requireTensor id
      if t.type? = some type then return ([], g)
      else return (t.readers.ops.filter g.isSettled,
        g.modifyTensor id fun t => { t with type? := some type }) where
  ok {s a s'} h := by
    obtain ⟨t, s₁, hask, h⟩ := bind_eq_ok.1 h
    obtain ⟨ht, rfl⟩ := ask_eq_ok.1 hask
    by_cases hsame : t.type? = some type
    · rw [if_pos hsame] at h
      obtain ⟨rfl, rfl⟩ := pure_eq_ok.1 h
      exact ⟨except_bind_eq_ok.2 ⟨t, ht, if_pos hsame⟩, rfl⟩
    · rw [if_neg hsame] at h
      cases h
      refine ⟨except_bind_eq_ok.2 ⟨t, ht, if_neg hsame⟩, ?_⟩
      have hold : (s.graph.modifyTensor id fun t => { t with type? := some type }).modifyTensor id
          (fun x => { x with type? := t.type? }) = s.graph := by
        rw [Graph.modifyTensor_modifyTensor]
        refine Graph.modifyTensor_eq_self fun x hx => ?_
        rw [Graph.requireTensor_eq_ok.1 ht] at hx
        cases hx
        rfl
      unfold undo
      rw [List.foldl_cons]
      exact congrArg (fun g => s.marked.foldl unmark (s.types.foldl giveBack g)) hold
  error {s e s'} h := by
    rcases bind_eq_error.1 h with hask | ⟨t, s₁, hask, h⟩
    · obtain ⟨he, rfl⟩ := ask_eq_error.1 hask
      exact ⟨except_bind_eq_error.2 (.inl he), rfl⟩
    · -- with the tensor there, nothing can go wrong
      split at h
      · cases h
      · cases h

theorem follows_writeTypes (types : List (TensorId × TensorType)) :
    Follows (writeTypes types) (·.writeTypes types) := by
  induction types with
  | nil => exact .pure []
  | cons head rest ih =>
    obtain ⟨id, type⟩ := head
    have hstep := (follows_writeType id type).bind fun affected =>
      ih.bind fun later => .pure (affected ++ later)
    refine hstep.congr fun g => ?_
    simp only [Graph.writeTypes]
    cases g.requireTensor id with
    | error e => rfl
    | ok t =>
      show ((if t.type? = some type then Pure.pure _ else Pure.pure _) >>= fun x => _) = ite _ _ _
      by_cases hsame : t.type? = some type
      · rw [if_pos hsame, if_pos hsame]
        show (g.writeTypes rest >>= fun x => Except.ok ([] ++ x.1, x.2)) = g.writeTypes rest
        cases g.writeTypes rest <;> rfl
      · rw [if_neg hsame, if_neg hsame]
        rfl

/-- The types do not touch the ops. -/
theorem foldl_giveBack_modifyOp (types : List (TensorId × Option TensorType)) (g : Graph)
    (op : OpId) (f : Op → Op) :
    types.foldl giveBack (g.modifyOp op f) = (types.foldl giveBack g).modifyOp op f := by
  induction types generalizing g with
  | nil => rfl
  | cons entry rest ih => exact ih (giveBack g entry)

theorem op?_foldl_giveBack (types : List (TensorId × Option TensorType)) (g : Graph) (op : OpId) :
    (types.foldl giveBack g).op? op = g.op? op := by
  induction types generalizing g with
  | nil => rfl
  | cons entry rest ih => exact ih (giveBack g entry)

/-- **A new mark** is on record, and the record takes it off. -/
theorem follows_mark (op : OpId) :
    Follows (mark op) fun g => .ok ((), g.modifyOp op fun o => { o with isSettled := true }) where
  ok {s a s'} h := by
    obtain rfl := modify_eq_ok.1 h
    by_cases hs : s.graph.isSettled op
    · rw [if_pos hs]
      refine ⟨?_, rfl⟩
      rw [Graph.modifyOp_eq_self fun o ho => ?_]
      rw [Graph.isSettled, ho] at hs
      cases o
      simp_all
    · rw [if_neg hs]
      refine ⟨rfl, ?_⟩
      unfold undo
      rw [List.foldl_cons, foldl_giveBack_modifyOp, unmark, Graph.modifyOp_modifyOp,
        Graph.modifyOp_eq_self fun o ho => ?_]
      rw [op?_foldl_giveBack] at ho
      rw [Graph.isSettled, ho] at hs
      cases o
      simp_all
  error h := by cases h

theorem follows_settleOne (op : OpId) : Follows (settleOne op) (·.settleOne op) := by
  refine .ask_bind fun types => .ask_bind fun o => ?_
  simp only
  cases o.outputs.toList.mapM fun x => (types[x.1]?).map fun type => (x.2, type) with
  | none => exact .throw _
  | some typed =>
    exact (follows_writeTypes typed).bind fun affected =>
      (follows_mark op).bind fun _ => .pure affected

theorem follows_settleAll (rounds : Nat) (waiting : List OpId) (visited : Std.ExtTreeSet OpId) :
    Follows (settleAll rounds waiting visited) fun g => do
      return ((), ← Graph.settleAll rounds waiting visited g) := by
  induction rounds generalizing waiting visited with
  | zero => exact .pure ()
  | succ rounds ih =>
    simp only [settleAll, Graph.settleAll]
    cases hwaiting : waiting.dropWhile visited.contains with
    | nil => exact .pure ()
    | cons op rest =>
      have hstep := (follows_settleOne op).bind fun affected =>
        ih (rest ++ affected) (visited.insert op)
      simpa only [bind_assoc] using hstep

end Settling

/-- **Settling is all or nothing**: it yields the graph that settling without a
    record does, or leaves the graph as it was. -/
theorem Edit.settle_run (op : OpId) (g : Graph) :
    Edit.settle op g = match g.settle op with
      | .ok g' => .ok () g'
      | .error e => .error e g := by
  have hall := Settling.follows_settleAll (g.opCount + 1) [op] ∅
  unfold Edit.settle Graph.settle
  cases hrun : Settling.settleAll (g.opCount + 1) [op] ∅ { graph := g } with
  | ok u s =>
    obtain ⟨g', hg', hs⟩ := except_bind_eq_ok.1 (hall.ok hrun).1
    cases hs
    rw [hg']
  | error e s =>
    obtain ⟨hplain, hback⟩ := hall.error hrun
    rcases except_bind_eq_error.1 hplain with he | ⟨g', -, hs⟩
    · rw [he]
      exact congrArg (EStateM.Result.error e) hback
    · cases hs

end Dataflow
