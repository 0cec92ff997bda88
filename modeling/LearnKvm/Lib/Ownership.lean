import Mathlib.Data.Set.Basic

/-!
# Ownership of resources

Owners of type `O` hold resources of type `R`.  `Owned held live` says that what is held is live and has one owner.
A step changes what some owners, its actors, hold: they allocate, free, and pass resources to each other, and what the
other owners hold stays live (`Owned.transfer`).  The steps of a single owner that only allocates or only frees are the
special cases `Owned.acquire` and `Owned.release`.
-/

namespace Ownership

variable {O R : Type*} {held held' : O → Set R} {live live' : Set R} {o : O}

/-- What an owner holds is live, and nobody else holds it. -/
structure Owned (held : O → Set R) (live : Set R) : Prop where
  held_live : ∀ o, ∀ r ∈ held o, r ∈ live
  unique : ∀ o o' r, r ∈ held o → r ∈ held o' → o = o'

/-- The actors get resources from each other, or fresh ones, and free only what they have held. -/
structure Transfer (actors : Set O) (held held' : O → Set R) (live live' : Set R) : Prop where
  others : ∀ o ∉ actors, held' o = held o
  source : ∀ o ∈ actors, ∀ r ∈ held' o, (∃ o' ∈ actors, r ∈ held o') ∨ r ∉ live
  unique : ∀ o ∈ actors, ∀ o' ∈ actors, ∀ r, r ∈ held' o → r ∈ held' o' → o = o'
  held_live : ∀ o ∈ actors, ∀ r ∈ held' o, r ∈ live'
  freed : ∀ r ∈ live, r ∉ live' → ∃ o ∈ actors, r ∈ held o

theorem Owned.transfer (h : Owned held live) (actors : Set O) (ht : Transfer actors held held' live live') :
    Owned held' live' := by
  -- what an actor holds after the step, no other owner has held before
  have hsep : ∀ o ∈ actors, ∀ o' ∉ actors, ∀ r, r ∈ held' o → r ∉ held' o' := by
    intro o ho o' ho' r hr hr'
    rw [ht.others o' ho'] at hr'
    rcases ht.source o ho r hr with ⟨a, ha, hra⟩ | hno
    · exact ho' (h.unique a o' r hra hr' ▸ ha)
    · exact hno (h.held_live o' r hr')
  constructor
  · intro o r hr
    by_cases ho : o ∈ actors
    · exact ht.held_live o ho r hr
    · rw [ht.others o ho] at hr
      by_contra hno
      obtain ⟨a, ha, hra⟩ := ht.freed r (h.held_live o r hr) hno
      exact ho (h.unique a o r hra hr ▸ ha)
  · intro o o' r hr hr'
    by_cases ho : o ∈ actors <;> by_cases ho' : o' ∈ actors
    · exact ht.unique o ho o' ho' r hr hr'
    · exact absurd hr' (hsep o ho o' ho' r hr)
    · exact absurd hr (hsep o' ho' o ho r hr')
    · rw [ht.others o ho] at hr
      rw [ht.others o' ho'] at hr'
      exact h.unique o o' r hr hr'

/-- One owner allocates. -/
theorem Owned.acquire (h : Owned held live) (hothers : ∀ o' ≠ o, held' o' = held o')
    (hfresh : ∀ r ∈ held' o, r ∉ live ∧ r ∈ live') (hlive : ∀ r ∈ live, r ∈ live') : Owned held' live' := by
  refine h.transfer {o} ⟨fun o' ho' => hothers o' ho', ?_, ?_, ?_, fun r hr hno => absurd (hlive r hr) hno⟩
  · rintro a rfl r hr
    exact Or.inr (hfresh r hr).1
  · rintro a rfl b rfl r - -
    rfl
  · rintro a rfl r hr
    exact (hfresh r hr).2

/-- One owner frees some of what it holds and gives up all of it. -/
theorem Owned.release (h : Owned held live) (hothers : ∀ o' ≠ o, held' o' = held o') (hnone : ∀ r, r ∉ held' o)
    (hfreed : ∀ r ∈ live, r ∉ live' → r ∈ held o) : Owned held' live' := by
  refine h.transfer {o} ⟨fun o' ho' => hothers o' ho', ?_, ?_, ?_, fun r hr hno => ⟨o, rfl, hfreed r hr hno⟩⟩
  · rintro a rfl r hr
    exact absurd hr (hnone r)
  · rintro a rfl b rfl r - -
    rfl
  · rintro a rfl r hr
    exact absurd hr (hnone r)

end Ownership
