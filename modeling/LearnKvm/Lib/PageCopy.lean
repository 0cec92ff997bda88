import Mathlib.Data.Set.Basic
import Mathlib.Logic.Function.Basic
import Mathlib.Logic.Relation

/-!
# Copies of pages that are kept up to date by dirty marks

Pages are written while a reader keeps a copy of each.  From time to time the marks are withdrawn and reported to the
reader, who then copies what was reported.  If every page that changes is marked after the change, a page that is neither
marked nor reported is the same in the copy (`Synced`), in every run (`Synced.run`).
-/

namespace PageCopy

variable {P V : Type*}

structure Store (P V : Type*) where
  page : P → V
  dirty : Set P
  /-- The pages that have been reported and not been copied since. -/
  reported : Set P
  copy : P → V

/-- A page that is neither marked nor reported is the same in the copy. -/
def Synced (m : Store P V) : Prop := ∀ p, p ∉ m.dirty → p ∉ m.reported → m.copy p = m.page p

/-- The pages are now `page'`; what has changed is marked. -/
def Store.Writes (m : Store P V) (page' : P → V) (dirty' : Set P) : Prop :=
  m.dirty ⊆ dirty' ∧ ∀ p, page' p ≠ m.page p → p ∈ dirty'

inductive Step : Store P V → Store P V → Prop
  | write {m : Store P V} {page' : P → V} {dirty' : Set P} (h : m.Writes page' dirty') :
      Step m { m with page := page', dirty := dirty' }
  | report {m : Store P V} (dirty' : Set P) :
      Step m { m with dirty := dirty', reported := m.reported ∪ m.dirty \ dirty' }
  | copy {m : Store P V} (p : P) [DecidableEq P] :
      Step m { m with reported := m.reported \ {p}, copy := Function.update m.copy p (m.page p) }

variable {m m' : Store P V}

theorem Synced.step (h : Synced m) (hs : Step m m') : Synced m' := by
  cases hs with
  | write hw =>
    intro p hp hr
    have hold : m.copy p = m.page p := h p (fun hd => hp (hw.1 hd)) hr
    by_contra hne
    exact hp (hw.2 p fun heq => hne (hold.trans heq.symm))
  | report dirty' =>
    intro p hp hr
    rw [Set.mem_union, not_or] at hr
    exact h p (fun hd => hr.2 ⟨hd, hp⟩) hr.1
  | copy q =>
    intro p hp hr
    show Function.update m.copy q (m.page q) p = m.page p
    by_cases hq : p = q
    · rw [hq, Function.update_self]
    · rw [Function.update_of_ne hq]
      exact h p hp fun hd => hr ⟨hd, hq⟩

theorem Synced.run (h : Synced m) (hrun : Relation.ReflTransGen Step m m') : Synced m' := by
  induction hrun with
  | refl => exact h
  | tail _ hs ih => exact ih.step hs

end PageCopy
