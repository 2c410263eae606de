import Dataflow.Operator.Builtin
import Dataflow.Proofs.Runs

/-! # The builtin operators by their rules

    What the builtin operators do is a matter of their rules: an inference rule
    fails with an inference error and with no other, and a gradient op of a
    builtin operator has one of the builtin gradient operators.  When a rule
    accepts the types of the inputs, it says how they and the type of the output
    hang together. -/

namespace Dataflow

/-! ## Section 1: Failures -/

namespace Rule

variable {P : GraphError → Prop} {op : String} (hP : ∀ reason, P (.inference op reason))
  (inputs : Inputs)

include hP

theorem errsOnly_input (index : Nat) : ErrsOnly P (input op inputs index) := by
  unfold input
  split
  · exact .ok _
  · exact .error (hP _)

theorem errsOnly_arity (n : Nat) : ErrsOnly P (arity op inputs n) := by
  unfold arity
  split
  · exact .error (hP _)
  · exact .ok _

theorem errsOnly_same (a b : TensorType) : ErrsOnly P (same op a b) := by
  unfold same
  split
  · exact .ok _
  · exact .error (hP _)

theorem errsOnly_matrix (t : TensorType) : ErrsOnly P (matrix op t) := by
  unfold matrix
  split
  · exact .ok _
  · exact .error (hP _)

theorem errsOnly_unary : ErrsOnly P (unary op inputs) := by
  apply ErrsOnly.bind (errsOnly_arity hP inputs 1)
  intro _ _
  exact (errsOnly_input hP inputs 0).bind fun _ _ => .ok _

theorem errsOnly_binary : ErrsOnly P (binary op inputs) := by
  apply ErrsOnly.bind (errsOnly_arity hP inputs 2)
  intro _ _
  apply ErrsOnly.bind (errsOnly_input hP inputs 0)
  intro a _
  apply ErrsOnly.bind (errsOnly_input hP inputs 1)
  intro b _
  exact (errsOnly_same hP a b).bind fun _ _ => .ok _

theorem errsOnly_variadic : ErrsOnly P (variadic op inputs) := by
  apply ErrsOnly.bind (errsOnly_input hP inputs 0)
  intro first _
  refine ErrsOnly.bind (ErrsOnly.forM (fun i => ?_) _) fun _ _ => .ok _
  exact (errsOnly_input hP inputs i).bind fun t _ => errsOnly_same hP first t

theorem errsOnly_leftFactor : ErrsOnly P (leftFactor op inputs) := by
  apply ErrsOnly.bind (errsOnly_arity hP inputs 2)
  intro _ _
  apply ErrsOnly.bind (errsOnly_input hP inputs 0)
  intro dy _
  apply ErrsOnly.bind (errsOnly_input hP inputs 1)
  intro b _
  apply ErrsOnly.bind (errsOnly_matrix hP dy)
  intro (m, n) _
  apply ErrsOnly.bind (errsOnly_matrix hP b)
  intro (k, n') _
  simp only
  split
  · exact .error (hP _)
  · exact .ok _

theorem errsOnly_rightFactor : ErrsOnly P (rightFactor op inputs) := by
  apply ErrsOnly.bind (errsOnly_arity hP inputs 2)
  intro _ _
  apply ErrsOnly.bind (errsOnly_input hP inputs 0)
  intro a _
  apply ErrsOnly.bind (errsOnly_input hP inputs 1)
  intro dy _
  apply ErrsOnly.bind (errsOnly_matrix hP a)
  intro (m, k) _
  apply ErrsOnly.bind (errsOnly_matrix hP dy)
  intro (m', n) _
  simp only
  split
  · exact .error (hP _)
  · exact .ok _

theorem errsOnly_spread (shape : List Nat) : ErrsOnly P (spread op shape inputs) := by
  apply ErrsOnly.bind (errsOnly_arity hP inputs 1)
  intro _ _
  apply ErrsOnly.bind (errsOnly_input hP inputs 0)
  intro dy _
  split
  · exact .error (hP _)
  · exact .ok _

theorem errsOnly_likeFirst (n : Nat) : ErrsOnly P (likeFirst op n inputs) := by
  apply ErrsOnly.bind (errsOnly_arity hP inputs n)
  intro _ _
  exact (errsOnly_input hP inputs 0).bind fun _ _ => .ok _

theorem errsOnly_likeFirstOfThree : ErrsOnly P (likeFirstOfThree op inputs) := by
  apply ErrsOnly.bind (errsOnly_arity hP inputs 3)
  intro _ _
  apply ErrsOnly.bind (errsOnly_input hP inputs 1)
  intro _ _
  apply ErrsOnly.bind (errsOnly_input hP inputs 2)
  intro _ _
  exact (errsOnly_input hP inputs 0).bind fun _ _ => .ok _

end Rule

variable {P : GraphError → Prop}

theorem GradBuiltin.errsOnly_infer (b : GradBuiltin)
    (hP : ∀ reason, P (.inference b.typeName reason)) (inputs : Rule.Inputs) :
    ErrsOnly P (b.operator.infer inputs) := by
  cases b with
  | identity => exact Rule.errsOnly_unary hP inputs
  | scale _ => exact Rule.errsOnly_unary hP inputs
  | mulArg => exact Rule.errsOnly_binary hP inputs
  | relu => exact Rule.errsOnly_binary hP inputs
  | matMulLhs => exact Rule.errsOnly_leftFactor hP inputs
  | matMulRhs => exact Rule.errsOnly_rightFactor hP inputs
  | reduceSum shape => exact Rule.errsOnly_spread hP inputs shape
  | l1 _ => exact Rule.errsOnly_likeFirst hP inputs 2
  | nll => exact Rule.errsOnly_likeFirstOfThree hP inputs

/-- The gradient ops of a builtin operator have builtin gradient operators. -/
theorem Builtin.gradSpecs_operator {b : Builtin} {view : OpView} {specs : List (GradSpec Operator)}
    (h : b.gradSpecs view = .ok specs) :
    ∀ spec ∈ specs, ∃ k : GradBuiltin, spec.operator = k.operator := by
  intro spec hmem
  cases b with
  | reduceSum =>
    simp only [Builtin.gradSpecs] at h
    split at h
    · cases h
    · obtain ⟨type, -, h⟩ := except_bind_eq_ok.1 h
      cases h
      rw [List.mem_singleton.1 hmem]
      exact ⟨_, rfl⟩
  | sum =>
    cases h
    obtain ⟨x, -, rfl⟩ := List.mem_map.1 hmem
    exact ⟨_, rfl⟩
  | _ =>
    cases h
    simp only [List.mem_cons, List.not_mem_nil, or_false] at hmem
    rcases hmem with rfl | rfl <;> exact ⟨_, rfl⟩

/-- Only the reduced sum asks for a type, and that is the type of its own input. -/
theorem Builtin.errsOnly_gradSpecs (b : Builtin) {view : OpView}
    (hunwired : P (.unwiredInput view.label 0))
    (htype : ∀ x, view.inputs.get? 0 = some x → ErrsOnly P (view.typeOf x)) :
    ErrsOnly P (b.gradSpecs view) := by
  cases b with
  | reduceSum =>
    simp only [Builtin.gradSpecs]
    split
    · exact .error hunwired
    · rename_i x hx
      exact (htype x hx).bind fun _ _ => .ok _
  | _ => exact .ok _

/-! ## Section 2: What the rules accept -/

namespace Rule

variable {op : String} {inputs : Inputs} {outputs : List TensorType}

theorem input_eq_ok {index : Nat} {t : TensorType} :
    input op inputs index = .ok t ↔ (inputs[index]?).join = some t := by
  unfold input
  cases inputs[index]? with
  | none => simp
  | some x => cases x <;> simp

theorem unary_eq_ok (h : unary op inputs = .ok outputs) :
    ∃ x, (inputs[0]?).join = some x ∧ outputs = [x] := by
  obtain ⟨_, -, h⟩ := except_bind_eq_ok.1 h
  obtain ⟨x, hx, h⟩ := except_bind_eq_ok.1 h
  cases h
  exact ⟨x, input_eq_ok.1 hx, rfl⟩

theorem unaryFloat_eq_ok (h : unaryFloat op inputs = .ok outputs) :
    ∃ x, (inputs[0]?).join = some x ∧ outputs = [x] := by
  obtain ⟨_, -, h⟩ := except_bind_eq_ok.1 h
  obtain ⟨x, hx, h⟩ := except_bind_eq_ok.1 h
  obtain ⟨_, -, h⟩ := except_bind_eq_ok.1 h
  cases h
  exact ⟨x, input_eq_ok.1 hx, rfl⟩

theorem same_eq_ok {a b : TensorType} {u : Unit} (h : same op a b = .ok u) : a = b := by
  unfold same at h
  split at h
  · assumption
  · cases h

theorem binary_eq_ok (h : binary op inputs = .ok outputs) :
    ∃ x, (inputs[0]?).join = some x ∧ (inputs[1]?).join = some x ∧ outputs = [x] := by
  obtain ⟨_, -, h⟩ := except_bind_eq_ok.1 h
  obtain ⟨x, hx, h⟩ := except_bind_eq_ok.1 h
  obtain ⟨y, hy, h⟩ := except_bind_eq_ok.1 h
  obtain ⟨_, hsame, h⟩ := except_bind_eq_ok.1 h
  cases h
  cases same_eq_ok hsame
  exact ⟨x, input_eq_ok.1 hx, input_eq_ok.1 hy, rfl⟩

theorem reduction_eq_ok (h : reduction op inputs = .ok outputs) :
    ∃ x, (inputs[0]?).join = some x ∧ outputs = [TensorType.scalar x.element] := by
  obtain ⟨_, -, h⟩ := except_bind_eq_ok.1 h
  obtain ⟨x, hx, h⟩ := except_bind_eq_ok.1 h
  obtain ⟨_, -, h⟩ := except_bind_eq_ok.1 h
  cases h
  exact ⟨x, input_eq_ok.1 hx, rfl⟩

theorem variadic_eq_ok (h : variadic op inputs = .ok outputs) :
    ∃ x, (∀ i < inputs.length, (inputs[i]?).join = some x) ∧ outputs = [x] := by
  obtain ⟨x, hx, h⟩ := except_bind_eq_ok.1 h
  obtain ⟨_, hall, h⟩ := except_bind_eq_ok.1 h
  cases h
  refine ⟨x, fun i hi => ?_, rfl⟩
  cases i with
  | zero => exact input_eq_ok.1 hx
  | succ i =>
    have hi' : i + 1 ∈ List.range' 1 (inputs.length - 1) := by
      rw [List.mem_range'_1]
      omega
    obtain ⟨y, hy, hsame⟩ := except_bind_eq_ok.1 (except_forM_eq_ok.1 hall (i + 1) hi')
    rw [same_eq_ok hsame]
    exact input_eq_ok.1 hy

/-- Conversely, inputs of one type are accepted. -/
theorem variadic_replicate (op : String) (x : TensorType) (n : Nat) :
    variadic op (List.replicate (n + 1) (some x)) = .ok [x] := by
  have hinput : ∀ i < n + 1, input op (List.replicate (n + 1) (some x)) i = .ok x := by
    intro i hi
    rw [input_eq_ok, List.getElem?_replicate, if_pos hi]
    rfl
  refine except_bind_eq_ok.2 ⟨x, hinput 0 (by omega), ?_⟩
  refine except_bind_eq_ok.2 ⟨(), except_forM_eq_ok.2 fun i hi => ?_, rfl⟩
  rw [List.length_replicate, List.mem_range'_1] at hi
  exact except_bind_eq_ok.2 ⟨x, hinput i (by omega), by simp [same]⟩

theorem matrixProduct_eq_ok (h : matrixProduct op inputs = .ok outputs) :
    ∃ e m k n, (inputs[0]?).join = some ⟨e, [m, k]⟩ ∧ (inputs[1]?).join = some ⟨e, [k, n]⟩ ∧
      outputs = [⟨e, [m, n]⟩] := by
  obtain ⟨_, -, h⟩ := except_bind_eq_ok.1 h
  obtain ⟨⟨e, a⟩, ha, h⟩ := except_bind_eq_ok.1 h
  obtain ⟨⟨e', b⟩, hb, h⟩ := except_bind_eq_ok.1 h
  obtain ⟨_, -, h⟩ := except_bind_eq_ok.1 h
  simp only at h
  split at h
  · cases h
  · rename_i he
    split at h
    · split at h
      · rename_i hk
        cases h
        cases hk
        cases Decidable.not_not.1 he
        exact ⟨e, _, _, _, input_eq_ok.1 ha, input_eq_ok.1 hb, rfl⟩
      · cases h
    · cases h

theorem likelihood_eq_ok (h : likelihood op inputs = .ok outputs) :
    ∃ p l, (inputs[0]?).join = some p ∧ (inputs[1]?).join = some l ∧
      outputs = [TensorType.scalar p.element] := by
  obtain ⟨_, -, h⟩ := except_bind_eq_ok.1 h
  obtain ⟨p, hp, h⟩ := except_bind_eq_ok.1 h
  obtain ⟨l, hl, h⟩ := except_bind_eq_ok.1 h
  obtain ⟨_, -, h⟩ := except_bind_eq_ok.1 h
  simp only at h
  split at h
  · cases h
  · split at h
    · split at h
      · cases h
        exact ⟨p, l, input_eq_ok.1 hp, input_eq_ok.1 hl, rfl⟩
      · cases h
    · cases h

theorem binary_pair (op : String) (x : TensorType) : binary op [some x, some x] = .ok [x] :=
  except_bind_eq_ok.2 ⟨(), rfl, except_bind_eq_ok.2 ⟨x, rfl, except_bind_eq_ok.2 ⟨x, rfl,
    except_bind_eq_ok.2 ⟨(), by simp [same], rfl⟩⟩⟩⟩

theorem leftFactor_pair (op : String) (e : ElementType) (m n k : Nat) :
    leftFactor op [some ⟨e, [m, n]⟩, some ⟨e, [k, n]⟩] = .ok [⟨e, [m, k]⟩] := by
  simp [leftFactor, arity, input, matrix, bind, Except.bind, pure, Except.pure]

theorem rightFactor_pair (op : String) (e : ElementType) (m n k : Nat) :
    rightFactor op [some ⟨e, [m, k]⟩, some ⟨e, [m, n]⟩] = .ok [⟨e, [k, n]⟩] := by
  simp [rightFactor, arity, input, matrix, bind, Except.bind, pure, Except.pure]

end Rule

end Dataflow
