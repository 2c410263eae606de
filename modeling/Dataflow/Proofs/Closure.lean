import Mathlib.Data.List.Perm.Subperm
import Mathlib.Logic.Relation
import Dataflow.Closure

/-! # What a closure holds

    The worklist stops after as many rounds as there are points, and by then
    it has found exactly what can be reached from the start.  The invariant is
    that a step from a point that has been seen leads to one that has been
    seen or is waiting. -/

namespace Dataflow

variable {α : Type} {step : α → List α}

/-- `y` is reached from `x` in any number of steps. -/
abbrev Reaches (step : α → List α) : α → α → Prop :=
  Relation.ReflTransGen fun x y => y ∈ step x

/-- The first waiting point that has not been seen, and those after it. -/
theorem dropWhile_eq_cons {seen : α → Bool} {waiting rest : List α} {x : α}
    (h : waiting.dropWhile seen = x :: rest) :
    ¬ seen x ∧ (∀ y ∈ waiting, seen y ∨ y = x ∨ y ∈ rest) ∧ ∀ y ∈ x :: rest, y ∈ waiting := by
  induction waiting with
  | nil => cases h
  | cons w ws ih =>
    by_cases hw : seen w
    · rw [List.dropWhile_cons_of_pos hw] at h
      obtain ⟨hnew, hsplit, hsub⟩ := ih h
      refine ⟨hnew, fun y hy => ?_, fun y hy => List.mem_cons_of_mem w (hsub y hy)⟩
      rcases List.mem_cons.1 hy with rfl | hy
      · exact .inl hw
      · exact hsplit y hy
    · rw [List.dropWhile_cons_of_neg hw] at h
      cases h
      exact ⟨hw, fun y hy => .inr (List.mem_cons.1 hy), fun y hy => hy⟩

theorem dropWhile_eq_nil {seen : α → Bool} {waiting : List α} (h : waiting.dropWhile seen = []) :
    ∀ x ∈ waiting, seen x := by
  induction waiting with
  | nil => simp
  | cons w ws ih =>
    by_cases hw : seen w
    · rw [List.dropWhile_cons_of_pos hw] at h
      intro x hx
      rcases List.mem_cons.1 hx with rfl | hx
      · exact hw
      · exact ih h x hx
    · rw [List.dropWhile_cons_of_neg hw] at h
      cases h

variable [DecidableEq α]

theorem closeUnder_sound {rounds : Nat} {waiting seen : List α} {x : α}
    (h : x ∈ closeUnder step rounds waiting seen) :
    x ∈ seen ∨ ∃ w ∈ waiting, Reaches step w x := by
  induction rounds generalizing waiting seen with
  | zero => exact .inl h
  | succ rounds ih =>
    unfold closeUnder at h
    split at h
    · exact .inl h
    · rename_i y rest hdrop
      obtain ⟨-, -, hwaiting⟩ := dropWhile_eq_cons hdrop
      rcases ih h with hx | ⟨w, hw, hreach⟩
      · rcases List.mem_cons.1 hx with rfl | hx
        · exact .inr ⟨x, hwaiting x List.mem_cons_self, .refl⟩
        · exact .inl hx
      · rcases List.mem_append.1 hw with hw | hw
        · exact .inr ⟨y, hwaiting y List.mem_cons_self, .head hw hreach⟩
        · exact .inr ⟨w, hwaiting w (List.mem_cons_of_mem y hw), hreach⟩

theorem closeUnder_nodup {rounds : Nat} {waiting seen : List α} (h : seen.Nodup) :
    (closeUnder step rounds waiting seen).Nodup := by
  induction rounds generalizing waiting seen with
  | zero => exact h
  | succ rounds ih =>
    unfold closeUnder
    split
    · exact h
    · rename_i y rest hdrop
      have hnew : y ∉ seen := by simpa using (dropWhile_eq_cons hdrop).1
      exact ih (List.nodup_cons.2 ⟨hnew, h⟩)

/-- With a round for each point of `points` that has not been seen, everything
    that waits is found, and the result is closed. -/
theorem closeUnder_closed {points : List α} (hstep : ∀ x ∈ points, ∀ y ∈ step x, y ∈ points)
    {rounds : Nat} {waiting seen : List α} (hwaiting : ∀ x ∈ waiting, x ∈ points)
    (hseen : ∀ x ∈ seen, x ∈ points) (hnodup : seen.Nodup)
    (hbound : points.length ≤ rounds + seen.length)
    (hclosed : ∀ x ∈ seen, ∀ y ∈ step x, y ∈ seen ∨ y ∈ waiting) :
    (∀ x ∈ seen, x ∈ closeUnder step rounds waiting seen) ∧
    (∀ x ∈ waiting, x ∈ closeUnder step rounds waiting seen) ∧
    ∀ x ∈ closeUnder step rounds waiting seen, ∀ y ∈ step x,
      y ∈ closeUnder step rounds waiting seen := by
  induction rounds generalizing waiting seen with
  | zero =>
    -- all points have been seen
    have hall : ∀ x ∈ points, x ∈ seen := by
      have hsub : seen.Subperm points := List.subperm_of_subset hnodup hseen
      have hperm := hsub.perm_of_length_le (by omega)
      exact fun x hx => hperm.mem_iff.2 hx
    refine ⟨fun x hx => hx, fun x hx => hall x (hwaiting x hx), fun x hx y hy => ?_⟩
    exact hall y (hstep x (hseen x hx) y hy)
  | succ rounds ih =>
    unfold closeUnder
    split
    · rename_i hdrop
      have hall : ∀ x ∈ waiting, x ∈ seen := by simpa using dropWhile_eq_nil hdrop
      refine ⟨fun x hx => hx, hall, fun x hx y hy => ?_⟩
      rcases hclosed x hx y hy with hy | hy
      · exact hy
      · exact hall y hy
    · rename_i z rest hdrop
      obtain ⟨hnew, hsplit, hsub⟩ := dropWhile_eq_cons hdrop
      simp only [decide_eq_true_eq] at hnew hsplit
      have hz : z ∈ points := hwaiting z (hsub z List.mem_cons_self)
      have hwaiting' : ∀ x ∈ step z ++ rest, x ∈ points := by
        intro x hx
        rcases List.mem_append.1 hx with hx | hx
        · exact hstep z hz x hx
        · exact hwaiting x (hsub x (List.mem_cons_of_mem z hx))
      have hseen' : ∀ x ∈ z :: seen, x ∈ points := by
        intro x hx
        rcases List.mem_cons.1 hx with rfl | hx
        · exact hz
        · exact hseen x hx
      have hclosed' : ∀ x ∈ z :: seen, ∀ y ∈ step x, y ∈ z :: seen ∨ y ∈ step z ++ rest := by
        intro x hx y hy
        rcases List.mem_cons.1 hx with rfl | hx
        · exact .inr (List.mem_append_left _ hy)
        · rcases hclosed x hx y hy with hy | hy
          · exact .inl (List.mem_cons_of_mem z hy)
          · rcases hsplit y hy with hy | rfl | hy
            · exact .inl (List.mem_cons_of_mem z hy)
            · exact .inl List.mem_cons_self
            · exact .inr (List.mem_append_right _ hy)
      have hlen : points.length ≤ rounds + (z :: seen).length := by
        rw [List.length_cons]
        omega
      obtain ⟨hfound, hrest, hdone⟩ :=
        ih hwaiting' hseen' (List.nodup_cons.2 ⟨hnew, hnodup⟩) hlen hclosed'
      refine ⟨fun x hx => hfound x (List.mem_cons_of_mem z hx), fun x hx => ?_, hdone⟩
      rcases hsplit x hx with hx | rfl | hx
      · exact hfound x (List.mem_cons_of_mem z hx)
      · exact hfound x List.mem_cons_self
      · exact hrest x (List.mem_append_right _ hx)

theorem closure_nodup (step : α → List α) (bound : Nat) (start : List α) :
    (closure step bound start).Nodup :=
  closeUnder_nodup List.nodup_nil

/-- **The closure holds exactly what can be reached**, if there are no more
    points than the bound says. -/
theorem mem_closure {points : List α} (hstep : ∀ x ∈ points, ∀ y ∈ step x, y ∈ points)
    {bound : Nat} {start : List α} (hstart : ∀ x ∈ start, x ∈ points)
    (hbound : points.length ≤ bound) {x : α} :
    x ∈ closure step bound start ↔ ∃ s ∈ start, Reaches step s x := by
  constructor
  · intro h
    rcases closeUnder_sound h with h | h
    · cases h
    · exact h
  · rintro ⟨s, hs, hreach⟩
    have hlen : points.length ≤ bound + ([] : List α).length := by simpa using hbound
    obtain ⟨-, hfound, hclosed⟩ :=
      closeUnder_closed hstep hstart (by simp) List.nodup_nil hlen (by simp)
    induction hreach with
    | refl => exact hfound s hs
    | tail _ hlast ih => exact hclosed _ ih _ hlast

end Dataflow
