import Dataflow.Proofs.GradientNames

/-! # Reserved names

    Names are put together from other names without any escaping, so whatever
    can be said about them has to be read off the text.  A name is taken apart
    from its ends: the mark of a gradient stands in front, the numbers of an
    edge behind, and a scope ends at the separator after it.

    A name is reserved if one of its segments opens with the mark.  The
    segments of a name inside a scope are those of the scope and those of the
    name, so a name cannot lose its mark in a scope, nor get one.  Users may
    not introduce reserved names, and so they never meet a gradient. -/

namespace Dataflow

namespace Naming

/-! ## Section 1: Leads -/

theorem dropLead?_eq_some_iff {lead text rest : List Char} :
    dropLead? lead text = some rest ↔ text = lead ++ rest :=
  ⟨eq_append_of_dropLead?, fun h => h ▸ dropLead?_append lead rest⟩

/-- The rest of a text is what it says after its lead. -/
theorem map_dropLead?_eq_some_iff {lead : List Char} {text rest : String} :
    (dropLead? lead text.toList).map String.ofList = some rest ↔
      text.toList = lead ++ rest.toList := by
  rw [Option.map_eq_some_iff]
  constructor
  · rintro ⟨chars, hdrop, rfl⟩
    rw [String.toList_ofList]
    exact dropLead?_eq_some_iff.1 hdrop
  · intro h
    exact ⟨rest.toList, dropLead?_eq_some_iff.2 h, String.ofList_toList⟩

/-- A tensor is found from the name of its gradient, and from no other name. -/
theorem nonGrad?_eq_some_iff {id tensor : TensorId} :
    nonGrad? id = some tensor ↔ id = grad tensor := by
  rw [nonGrad?, map_dropLead?_eq_some_iff, grad, ← String.toList_append, String.toList_inj]

/-- A name is taken out of its scope, and out of no other scope. -/
theorem removeScope?_eq_some_iff {scope id rest : String} :
    removeScope? scope id = some rest ↔ id = addScope scope rest := by
  unfold removeScope? addScope
  split
  · simp
  · rw [map_dropLead?_eq_some_iff, ← String.toList_inj]
    simp [String.toList_append, Char.toString]

/-! ## Section 2: Segments -/

/-- A separator divides the segments before it from those behind it. -/
theorem segments_append (text rest : List Char) :
    segments (text ++ separator :: rest) = segments text ++ segments rest := by
  induction text with
  | nil => simp [segments]
  | cons c text ih =>
    rw [List.cons_append, segments, segments, ih]
    split
    · rfl
    · -- `c` joins the first segment, and there is one before the separator
      obtain ⟨s, more, hs⟩ := List.exists_cons_of_ne_nil (segments_ne_nil text)
      rw [hs]
      rfl

@[simp] theorem isReserved_empty : isReserved "" = false := by
  decide

/-- **A name in a scope is reserved** exactly when the scope or the name is. -/
theorem isReserved_addScope (scope id : String) :
    isReserved (addScope scope id) = (isReserved scope || isReserved id) := by
  unfold addScope
  split
  · rename_i hempty
    rw [String.isEmpty_iff.1 hempty, isReserved_empty, Bool.false_or]
  · have hchars : (scope ++ separator.toString ++ id).toList
        = scope.toList ++ separator :: id.toList := by
      simp [String.toList_append, Char.toString]
    simp only [isReserved, hchars, segments_append, List.any_append]

end Naming

/-! ## Section 3: What users may introduce -/

/-- A user may add a tensor called `id` to the graph, of some kind and type. -/
inductive Graph.Admits (g : Graph) (id : TensorId) : Prop where
  | input (type : TensorType) (g' : Graph) (h : Edit.addInput id type g = .ok () g')
  | stream (type : TensorType) (g' : Graph) (h : Edit.addStream id type g = .ok () g')
  | const (type : TensorType) (data : Payload) (g' : Graph)
      (h : Edit.addConst id type data g = .ok () g')
  | var (type : TensorType) (data : Payload) (g' : Graph)
      (h : Edit.addVar id type data g = .ok () g')

/-- **Users may introduce a name** exactly when it is neither reserved nor taken. -/
theorem Graph.admits_iff {g : Graph} {id : TensorId} :
    g.Admits id ↔ Naming.isReserved id = false ∧ g.tensor? id = none := by
  constructor
  · -- each way to add a tensor asks first
    have hasked : ∀ {next : Edit Unit} {g' : Graph},
        (do Edit.requireNewName id; next : Edit Unit) g = .ok () g' →
          Naming.isReserved id = false ∧ g.tensor? id = none := by
      intro next g' h
      obtain ⟨_, g₁, hname, -⟩ := bind_eq_ok.1 h
      obtain ⟨-, hfree, hplain⟩ := Edit.requireNewName_eq_ok hname
      exact ⟨hplain, hfree⟩
    intro h
    cases h with
    | input type g' h =>
      obtain ⟨_, g₁, hstream, -⟩ := bind_eq_ok.1 h
      exact hasked hstream
    | stream type g' h => exact hasked h
    | const type data g' h => exact hasked h
    | var type data g' h => exact hasked h
  · rintro ⟨hplain, hfree⟩
    have hname : Edit.requireNewName id g = .ok () g := by
      simp [Edit.requireNewName, Edit.ask, hplain, Graph.contains_tensors, hfree]
    exact .stream ⟨.f32, []⟩ _ (bind_eq_ok.2 ⟨_, _, hname, rfl⟩)

namespace Naming

/-- The name of a gradient, by itself or inside a scope. -/
def IsGenerated (id : TensorId) : Prop :=
  ∃ (scope : String) (d : Gradient), id = addScope scope d.name

theorem IsGenerated.isReserved {id : TensorId} (h : IsGenerated id) : isReserved id := by
  obtain ⟨scope, d, rfl⟩ := h
  rw [isReserved_addScope, d.isReserved_name, Bool.or_true]

/-- **Names of gradients stay apart from each other and from those of users.**
    They tell what they belong to, they are reserved in any scope, and a name
    that a user may introduce is not one of them, nor is it within a scope that
    is not reserved itself. -/
theorem gradients_apart :
    (∀ t t' op op' i i',
      edgeGrad t op i = edgeGrad t' op' i' ↔ t = t' ∧ op = op' ∧ i = i') ∧
    Function.Injective grad ∧
    (∀ id t, nonGrad? id = some t ↔ id = grad t) ∧
    (∀ t, isReserved (grad t)) ∧
    (∀ t op i, isReserved (edgeGrad t op i)) ∧
    (∀ scope id, isReserved (addScope scope id) ↔ isReserved scope ∨ isReserved id) ∧
    (∀ scope id rest, removeScope? scope id = some rest ↔ id = addScope scope rest) ∧
    ∀ (g : Graph) id, g.Admits id → ¬ IsGenerated id ∧
      ∀ scope, ¬ isReserved scope → ¬ IsGenerated (addScope scope id) := by
  refine ⟨fun t t' op op' i i' => ⟨edgeGrad_inj, ?_⟩, fun _ _ => grad_inj,
    fun _ _ => nonGrad?_eq_some_iff, isReserved_grad, isReserved_edgeGrad, fun scope id => ?_,
    fun _ _ _ => removeScope?_eq_some_iff, fun g id hadmits => ?_⟩
  · rintro ⟨rfl, rfl, rfl⟩
    rfl
  · rw [isReserved_addScope, Bool.or_eq_true]
  · have hplain : ¬ isReserved id := by simp [(Graph.admits_iff.1 hadmits).1]
    refine ⟨fun h => hplain h.isReserved, fun scope hscope h => ?_⟩
    have hreserved := h.isReserved
    rw [isReserved_addScope, Bool.or_eq_true] at hreserved
    exact hreserved.elim hscope hplain

/-- A name that holds the mark of a gradient, though not at the start of a
    segment, and the numbers of an edge. -/
theorem lookalike_apart : ({} : Graph).Admits "body/add__x_7_2" ∧
    ¬ IsGenerated "body/add__x_7_2" ∧ ¬ IsGenerated (addScope "loop" "body/add__x_7_2") := by
  have hadmits : ({} : Graph).Admits "body/add__x_7_2" :=
    Graph.admits_iff.2 ⟨by decide, Std.ExtTreeMap.getElem?_empty⟩
  obtain ⟨hname, hscoped⟩ := gradients_apart.2.2.2.2.2.2.2 _ _ hadmits
  exact ⟨hadmits, hname, hscoped "loop" (by decide)⟩

-- a scope may be reserved, and then what is in it looks like a gradient
example : addScope "d__loop" "x" = grad "loop/x" := by decide

end Naming

end Dataflow
