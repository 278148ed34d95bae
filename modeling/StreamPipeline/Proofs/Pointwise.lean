import Mathlib.Data.List.Forall2

/-!
# Lists that are kept in step

Relations that hold between the elements of lists, one by one, are put one after the other
(`forall₂_comp`), compared at the elements of the lists only (`forall₂_imp_of_mem`), and are
equalities of lists where they are equalities of elements (`map_eq_map_of_forall₂`).
-/

namespace StreamPipeline

variable {α β γ : Type}

/-- Relations between the elements of three lists, one after the other. -/
theorem forall₂_comp {R : α → β → Prop} {S : β → γ → Prop} {T : α → γ → Prop}
    (h : ∀ a b c, R a b → S b c → T a c) {as : List α} {bs : List β} {cs : List γ}
    (hR : List.Forall₂ R as bs) (hS : List.Forall₂ S bs cs) : List.Forall₂ T as cs := by
  induction hR generalizing cs with
  | nil =>
      cases hS
      exact .nil
  | cons hab _ ih =>
      cases hS with
      | cons hbc hS => exact .cons (h _ _ _ hab hbc) (ih hS)

/-- Relations are compared at elements of the lists only. -/
theorem forall₂_imp_of_mem {R S : α → β → Prop} {as : List α} {bs : List β}
    (h : ∀ a ∈ as, ∀ b ∈ bs, R a b → S a b) (hR : List.Forall₂ R as bs) : List.Forall₂ S as bs := by
  rw [List.forall₂_iff_zip] at hR ⊢
  refine ⟨hR.1, fun {a b} hab => ?_⟩
  obtain ⟨ha, hb⟩ := List.of_mem_zip hab
  exact h a ha b hb (hR.2 hab)

theorem map_eq_map_of_forall₂ {f : α → γ} {g : β → γ} {as : List α} {bs : List β}
    (h : List.Forall₂ (fun a b => f a = g b) as bs) : as.map f = bs.map g := by
  rw [← List.forall₂_map_right_iff, ← List.forall₂_map_left_iff, List.forall₂_eq_eq_eq] at h
  exact h

end StreamPipeline
