import Mathlib.Data.Set.Insert
import Mathlib.Logic.Function.Basic
import Mathlib.Logic.Nontrivial.Basic

/-!
# Overwriting

A transformation of memories overwrites a set of places if it leaves every other place as it is, and the values it leaves in
the set do not depend on the memory (`Overwrites`).  Stores to fixed places with fixed values are of this kind, and so are
their compositions.  Some memory is changed by such a transformation in every place of the set (`exists_changed`).
-/

variable {α β : Type*}

/-- `F` puts values of its own into the places of `T`. -/
structure Overwrites (F : (α → β) → α → β) (T : Set α) : Prop where
  outside : ∀ m, ∀ x ∉ T, F m x = m x
  inside : ∀ m m', ∀ x ∈ T, F m x = F m' x

namespace Overwrites

variable {F G : (α → β) → α → β} {T U : Set α}

theorem refl : Overwrites (fun m : α → β => m) ∅ := ⟨fun _ _ _ => rfl, fun _ _ _ h => h.elim⟩

theorem update [DecidableEq α] (h : Overwrites F T) (a : α) (b : β) :
    Overwrites (fun m => F (Function.update m a b)) (insert a T) := by
  have hF : ∀ m, ∀ x ∉ T, F (Function.update m a b) x = Function.update m a b x := fun m => h.outside _
  refine ⟨fun m x hx => ?_, fun m m' x hx => ?_⟩
  · rw [Set.mem_insert_iff, not_or] at hx
    exact (hF m x hx.2).trans (Function.update_of_ne hx.1 ..)
  · by_cases hT : x ∈ T
    · exact h.inside _ _ x hT
    · obtain rfl := (Set.mem_insert_iff.1 hx).resolve_right hT
      rw [hF m x hT, hF m' x hT, Function.update_self, Function.update_self]

theorem comp (hG : Overwrites G U) (hF : Overwrites F T) : Overwrites (fun m => G (F m)) (T ∪ U) := by
  refine ⟨fun m x hx => ?_, fun m m' x hx => ?_⟩
  · rw [Set.mem_union, not_or] at hx
    exact (hG.outside _ x hx.2).trans (hF.outside _ x hx.1)
  · by_cases hU : x ∈ U
    · exact hG.inside _ _ x hU
    · have hT : x ∈ T := hx.resolve_right hU
      rw [hG.outside _ x hU, hG.outside _ x hU]
      exact hF.inside _ _ x hT

theorem exists_changed [Inhabited β] [Nontrivial β] (h : Overwrites F T) : ∃ m, ∀ x ∈ T, F m x ≠ m x := by
  choose other hother using fun b : β => exists_ne b
  refine ⟨fun x => other (F (fun _ => default) x), fun x hx => ?_⟩
  rw [h.inside _ (fun _ => default) x hx]
  exact (hother _).symm

end Overwrites
