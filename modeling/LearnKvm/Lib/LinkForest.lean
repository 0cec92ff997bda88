import Mathlib.Data.Set.Insert
import Mathlib.Data.Set.Basic

/-!
# Forests of linked tables

Tables of type `P` have slots of type `I`; a slot is empty or links to another table.  Every table carries a level,
one more than that of the tables it links to, and a back pointer to a slot.  `Links.WF F R` says that the live tables
form a forest with set of roots `R`: links lead from live tables to live tables, no link leads to a root, every
other live table is linked, and the back pointer of a linked table names the linking slot.  So a table is linked at
most once (`WF.link_unique`), and a forest without roots has no live table (`WF.not_live_of_no_root`).

The four operations on forests are given as rules: emptying a slot turns the table below into a root (`WF.unlink`), a
root whose slots are empty may be dropped (`WF.drop`), a table that was not live may be added as a root (`WF.add`), and
a root may be linked into an empty slot (`WF.link`).  `WF.congr` transfers the invariant along changes that the links
do not show.
-/

namespace LinkForest

structure Links (P I : Type*) where
  live : P → Prop
  level : P → Nat
  child : P → I → Option P
  parent : P → Option (P × I)

variable {P I : Type*}

/-- The live tables of `F` form a forest with roots `R`, of height at most `top`. -/
structure Links.WF (F : Links P I) (R : Set P) (top : Nat) : Prop where
  root_live : ∀ p ∈ R, F.live p
  level_le : ∀ p, F.live p → F.level p ≤ top
  child_live : ∀ p i q, F.live p → F.child p i = some q → F.live q
  child_level : ∀ p i q, F.live p → F.child p i = some q → F.level q + 1 = F.level p
  child_parent : ∀ p i q, F.live p → F.child p i = some q → F.parent q = some (p, i)
  child_not_root : ∀ p i q, F.live p → F.child p i = some q → q ∉ R
  linked : ∀ q, F.live q → q ∉ R → ∃ p i, F.live p ∧ F.child p i = some q

namespace Links.WF

variable {F F' : Links P I} {R : Set P} {top : Nat}

/-- A table is linked from at most one slot. -/
theorem link_unique (h : F.WF R top) {p p' q : P} {i i' : I} (hp : F.live p) (hp' : F.live p')
    (hc : F.child p i = some q) (hc' : F.child p' i' = some q) : p = p' ∧ i = i' := by
  have h1 := h.child_parent p i q hp hc
  have h2 := h.child_parent p' i' q hp' hc'
  rw [h1] at h2
  simpa using h2

/-- Every live table lies below a root. -/
theorem exists_root (h : F.WF R top) {q : P} (hq : F.live q) : ∃ r ∈ R, F.level q ≤ F.level r := by
  -- climbing raises the level, which is bounded by `top`
  induction hn : top - F.level q generalizing q with
  | zero =>
    by_cases hR : q ∈ R
    · exact ⟨q, hR, le_rfl⟩
    · obtain ⟨p, i, hp, hc⟩ := h.linked q hq hR
      have h1 := h.child_level p i q hp hc
      have h2 := h.level_le p hp
      omega
  | succ n ih =>
    by_cases hR : q ∈ R
    · exact ⟨q, hR, le_rfl⟩
    · obtain ⟨p, i, hp, hc⟩ := h.linked q hq hR
      have h1 := h.child_level p i q hp hc
      have h2 := h.level_le p hp
      obtain ⟨r, hr, hle⟩ := ih hp (by omega)
      exact ⟨r, hr, by omega⟩

theorem not_live_of_no_root (h : F.WF ∅ top) (q : P) : ¬F.live q := fun hq => by
  obtain ⟨r, hr, -⟩ := h.exists_root hq
  exact hr

/-- A live table of the top level is a root. -/
theorem root_of_level_top (h : F.WF R top) {q : P} (hq : F.live q) (hl : F.level q = top) : q ∈ R := by
  by_contra hR
  obtain ⟨p, i, hp, hc⟩ := h.linked q hq hR
  have h1 := h.child_level p i q hp hc
  have h2 := h.level_le p hp
  omega

/-- The invariant only reads the links of live tables. -/
theorem congr (h : F.WF R top) (hlive : ∀ p, F'.live p ↔ F.live p)
    (hlevel : ∀ p, F.live p → F'.level p = F.level p)
    (hchild : ∀ p i, F.live p → F'.child p i = F.child p i)
    (hparent : ∀ p, F.live p → F'.parent p = F.parent p) : F'.WF R top where
  root_live p hp := (hlive p).2 (h.root_live p hp)
  level_le p hp := by
    have hp' := (hlive p).1 hp
    rw [hlevel p hp']
    exact h.level_le p hp'
  child_live p i q hp hc := by
    have hp' := (hlive p).1 hp
    rw [hchild p i hp'] at hc
    exact (hlive q).2 (h.child_live p i q hp' hc)
  child_level p i q hp hc := by
    have hp' := (hlive p).1 hp
    rw [hchild p i hp'] at hc
    rw [hlevel p hp', hlevel q (h.child_live p i q hp' hc)]
    exact h.child_level p i q hp' hc
  child_parent p i q hp hc := by
    have hp' := (hlive p).1 hp
    rw [hchild p i hp'] at hc
    rw [hparent q (h.child_live p i q hp' hc)]
    exact h.child_parent p i q hp' hc
  child_not_root p i q hp hc := by
    have hp' := (hlive p).1 hp
    rw [hchild p i hp'] at hc
    exact h.child_not_root p i q hp' hc
  linked q hq hR := by
    obtain ⟨p, i, hp, hc⟩ := h.linked q ((hlive q).1 hq) hR
    exact ⟨p, i, (hlive p).2 hp, by rw [hchild p i hp]; exact hc⟩

/-- Emptying the slot `(p, i)` turns the table below it into a root. -/
theorem unlink (h : F.WF R top) {p q : P} {i : I} (hp : F.live p) (hc : F.child p i = some q)
    (hlive : ∀ x, F'.live x ↔ F.live x) (hlevel : ∀ x, F.live x → F'.level x = F.level x)
    (hparent : ∀ x, F.live x → F'.parent x = F.parent x) (hempty : F'.child p i = none)
    (hother : ∀ x j, F.live x → (x, j) ≠ (p, i) → F'.child x j = F.child x j) : F'.WF (insert q R) top := by
  have hsub : ∀ x j y, F.live x → F'.child x j = some y → (x, j) ≠ (p, i) ∧ F.child x j = some y := by
    intro x j y hx hy
    by_cases hxj : (x, j) = (p, i)
    · obtain ⟨rfl, rfl⟩ := Prod.mk.inj hxj
      rw [hempty] at hy
      cases hy
    · exact ⟨hxj, by rw [← hother x j hx hxj]; exact hy⟩
  refine ⟨?_, ?_, ?_, ?_, ?_, ?_, ?_⟩
  · rintro x (rfl | hx)
    · exact (hlive x).2 (h.child_live p i x hp hc)
    · exact (hlive x).2 (h.root_live x hx)
  · intro x hx
    rw [hlevel x ((hlive x).1 hx)]
    exact h.level_le x ((hlive x).1 hx)
  · intro x j y hx hy
    obtain ⟨-, hy⟩ := hsub x j y ((hlive x).1 hx) hy
    exact (hlive y).2 (h.child_live x j y ((hlive x).1 hx) hy)
  · intro x j y hx hy
    have hx' := (hlive x).1 hx
    obtain ⟨-, hy⟩ := hsub x j y hx' hy
    rw [hlevel x hx', hlevel y (h.child_live x j y hx' hy)]
    exact h.child_level x j y hx' hy
  · intro x j y hx hy
    have hx' := (hlive x).1 hx
    obtain ⟨-, hy⟩ := hsub x j y hx' hy
    rw [hparent y (h.child_live x j y hx' hy)]
    exact h.child_parent x j y hx' hy
  · intro x j y hx hy
    have hx' := (hlive x).1 hx
    obtain ⟨hne, hy⟩ := hsub x j y hx' hy
    rintro (rfl | hR)
    · obtain ⟨h1, h2⟩ := h.link_unique hx' hp hy hc
      exact hne (by rw [h1, h2])
    · exact h.child_not_root x j y hx' hy hR
  · intro y hy hR
    have hyq : y ≠ q := fun he => hR (Or.inl he)
    obtain ⟨x, j, hx, hxy⟩ := h.linked y ((hlive y).1 hy) (fun hr => hR (Or.inr hr))
    refine ⟨x, j, (hlive x).2 hx, ?_⟩
    rw [hother x j hx ?_]
    · exact hxy
    · intro he
      obtain ⟨rfl, rfl⟩ := Prod.mk.inj he
      rw [hc] at hxy
      exact hyq (Option.some.inj hxy).symm

/-- A root with empty slots may be dropped. -/
theorem drop (h : F.WF R top) {p : P} (hp : p ∈ R) (hempty : ∀ i, F.child p i = none)
    (hlive : ∀ x, F'.live x ↔ F.live x ∧ x ≠ p) (hlevel : ∀ x, F.live x → x ≠ p → F'.level x = F.level x)
    (hparent : ∀ x, F.live x → x ≠ p → F'.parent x = F.parent x)
    (hchild : ∀ x j, F.live x → x ≠ p → F'.child x j = F.child x j) : F'.WF (R \ {p}) top := by
  -- a root is linked from nowhere, so no link is lost
  have hne : ∀ x j y, F.live x → F.child x j = some y → y ≠ p := by
    rintro x j y hx hy rfl
    exact h.child_not_root x j y hx hy hp
  refine ⟨?_, ?_, ?_, ?_, ?_, ?_, ?_⟩
  · rintro x ⟨hx, hxp⟩
    exact (hlive x).2 ⟨h.root_live x hx, hxp⟩
  · intro x hx
    obtain ⟨hx, hxp⟩ := (hlive x).1 hx
    rw [hlevel x hx hxp]
    exact h.level_le x hx
  · intro x j y hx hy
    obtain ⟨hx, hxp⟩ := (hlive x).1 hx
    rw [hchild x j hx hxp] at hy
    exact (hlive y).2 ⟨h.child_live x j y hx hy, hne x j y hx hy⟩
  · intro x j y hx hy
    obtain ⟨hx, hxp⟩ := (hlive x).1 hx
    rw [hchild x j hx hxp] at hy
    rw [hlevel x hx hxp, hlevel y (h.child_live x j y hx hy) (hne x j y hx hy)]
    exact h.child_level x j y hx hy
  · intro x j y hx hy
    obtain ⟨hx, hxp⟩ := (hlive x).1 hx
    rw [hchild x j hx hxp] at hy
    rw [hparent y (h.child_live x j y hx hy) (hne x j y hx hy)]
    exact h.child_parent x j y hx hy
  · rintro x j y hx hy ⟨hR, -⟩
    obtain ⟨hx, hxp⟩ := (hlive x).1 hx
    rw [hchild x j hx hxp] at hy
    exact h.child_not_root x j y hx hy hR
  · intro y hy hR
    obtain ⟨hy, hyp⟩ := (hlive y).1 hy
    obtain ⟨x, j, hx, hxy⟩ := h.linked y hy (fun hr => hR ⟨hr, hyp⟩)
    have hxp : x ≠ p := by
      rintro rfl
      rw [hempty j] at hxy
      cases hxy
    exact ⟨x, j, (hlive x).2 ⟨hx, hxp⟩, by rw [hchild x j hx hxp]; exact hxy⟩

/-- A table that was not live may be added as a root with empty slots. -/
theorem add (h : F.WF R top) {p : P} (hp : ¬F.live p) (hempty : ∀ i, F'.child p i = none)
    (hlive : ∀ x, F'.live x ↔ F.live x ∨ x = p) (hlevel : ∀ x, F.live x → F'.level x = F.level x)
    (hle : F'.level p ≤ top) (hparent : ∀ x, F.live x → F'.parent x = F.parent x)
    (hchild : ∀ x j, F.live x → F'.child x j = F.child x j) : F'.WF (insert p R) top := by
  have hold : ∀ x j y, F'.live x → F'.child x j = some y → F.live x ∧ F.child x j = some y := by
    intro x j y hx hy
    rcases (hlive x).1 hx with hx | rfl
    · exact ⟨hx, by rw [← hchild x j hx]; exact hy⟩
    · rw [hempty j] at hy
      cases hy
  refine ⟨?_, ?_, ?_, ?_, ?_, ?_, ?_⟩
  · rintro x (rfl | hx)
    · exact (hlive x).2 (Or.inr rfl)
    · exact (hlive x).2 (Or.inl (h.root_live x hx))
  · intro x hx
    rcases (hlive x).1 hx with hx | rfl
    · rw [hlevel x hx]
      exact h.level_le x hx
    · exact hle
  · intro x j y hx hy
    obtain ⟨hx, hy⟩ := hold x j y hx hy
    exact (hlive y).2 (Or.inl (h.child_live x j y hx hy))
  · intro x j y hx hy
    obtain ⟨hx, hy⟩ := hold x j y hx hy
    rw [hlevel x hx, hlevel y (h.child_live x j y hx hy)]
    exact h.child_level x j y hx hy
  · intro x j y hx hy
    obtain ⟨hx, hy⟩ := hold x j y hx hy
    rw [hparent y (h.child_live x j y hx hy)]
    exact h.child_parent x j y hx hy
  · intro x j y hx hy
    obtain ⟨hx, hy⟩ := hold x j y hx hy
    rintro (rfl | hR)
    · exact hp (h.child_live x j y hx hy)
    · exact h.child_not_root x j y hx hy hR
  · intro y hy hR
    rcases (hlive y).1 hy with hy | rfl
    · obtain ⟨x, j, hx, hxy⟩ := h.linked y hy (fun hr => hR (Or.inr hr))
      exact ⟨x, j, (hlive x).2 (Or.inl hx), by rw [hchild x j hx]; exact hxy⟩
    · exact absurd (Or.inl rfl) hR

/-- A root whose back pointer is `(p, i)` may be linked into the empty slot `(p, i)` one level up. -/
theorem link (h : F.WF R top) {p q : P} {i : I} (hp : F.live p) (hq : q ∈ R) (hempty : F.child p i = none)
    (hlev : F.level q + 1 = F.level p) (hpar : F.parent q = some (p, i))
    (hlive : ∀ x, F'.live x ↔ F.live x) (hlevel : ∀ x, F.live x → F'.level x = F.level x)
    (hparent : ∀ x, F.live x → F'.parent x = F.parent x) (hself : F'.child p i = some q)
    (hother : ∀ x j, F.live x → (x, j) ≠ (p, i) → F'.child x j = F.child x j) : F'.WF (R \ {q}) top := by
  have hqlive := h.root_live q hq
  have hcases : ∀ x j y, F.live x → F'.child x j = some y →
      (x = p ∧ j = i ∧ y = q) ∨ (F.child x j = some y ∧ y ≠ q) := by
    intro x j y hx hy
    by_cases hxj : (x, j) = (p, i)
    · obtain ⟨rfl, rfl⟩ := Prod.mk.inj hxj
      rw [hself] at hy
      exact Or.inl ⟨rfl, rfl, (Option.some.inj hy).symm⟩
    · rw [hother x j hx hxj] at hy
      refine Or.inr ⟨hy, ?_⟩
      rintro rfl
      exact h.child_not_root x j y hx hy hq
  refine ⟨?_, ?_, ?_, ?_, ?_, ?_, ?_⟩
  · rintro x ⟨hx, -⟩
    exact (hlive x).2 (h.root_live x hx)
  · intro x hx
    rw [hlevel x ((hlive x).1 hx)]
    exact h.level_le x ((hlive x).1 hx)
  · intro x j y hx hy
    have hx' := (hlive x).1 hx
    rcases hcases x j y hx' hy with ⟨rfl, rfl, rfl⟩ | ⟨hy, -⟩
    · exact (hlive y).2 hqlive
    · exact (hlive y).2 (h.child_live x j y hx' hy)
  · intro x j y hx hy
    have hx' := (hlive x).1 hx
    rcases hcases x j y hx' hy with ⟨rfl, rfl, rfl⟩ | ⟨hy, -⟩
    · rw [hlevel x hx', hlevel y hqlive, hlev]
    · rw [hlevel x hx', hlevel y (h.child_live x j y hx' hy)]
      exact h.child_level x j y hx' hy
  · intro x j y hx hy
    have hx' := (hlive x).1 hx
    rcases hcases x j y hx' hy with ⟨rfl, rfl, rfl⟩ | ⟨hy, -⟩
    · rw [hparent y hqlive, hpar]
    · rw [hparent y (h.child_live x j y hx' hy)]
      exact h.child_parent x j y hx' hy
  · intro x j y hx hy
    have hx' := (hlive x).1 hx
    rcases hcases x j y hx' hy with ⟨rfl, rfl, rfl⟩ | ⟨hy, -⟩
    · exact fun hR => hR.2 rfl
    · exact fun hR => h.child_not_root x j y hx' hy hR.1
  · intro y hy hR
    by_cases hyq : y = q
    · subst hyq
      exact ⟨p, i, (hlive p).2 hp, hself⟩
    · obtain ⟨x, j, hx, hxy⟩ := h.linked y ((hlive y).1 hy) (fun hr => hR ⟨hr, hyq⟩)
      refine ⟨x, j, (hlive x).2 hx, ?_⟩
      rw [hother x j hx ?_]
      · exact hxy
      · intro he
        obtain ⟨rfl, rfl⟩ := Prod.mk.inj he
        rw [hempty] at hxy
        cases hxy

end Links.WF

end LinkForest
