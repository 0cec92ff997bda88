import Mathlib.Algebra.Order.Group.Multiset
import Mathlib.Data.Multiset.UnionInter

/-!
# Reference counts

An allocator hands out objects with a count of one.  Each further reference to an object adds one to its count, each
reference that is dropped takes one away, and at zero the object goes back to the allocator.  `Counts` says that the counts
are those of the references that exist, so that the allocator has the objects without a reference and no others.  Every
operation keeps it, but a reference may only be taken to an object that has one already (`Counts.get`).
-/

namespace RefCount

variable {P : Type*} [DecidableEq P]

structure Pool (P : Type*) where
  count : P → Nat
  /-- The allocator has the object. -/
  free : P → Bool

namespace Pool

/-- All objects are free. -/
def fresh : Pool P := ⟨fun _ => 0, fun _ => true⟩

def alloc (m : Pool P) (p : P) : Pool P := ⟨Function.update m.count p 1, Function.update m.free p false⟩

def get (m : Pool P) (p : P) : Pool P := { m with count := Function.update m.count p (m.count p + 1) }

def put (m : Pool P) (p : P) : Pool P :=
  ⟨Function.update m.count p (m.count p - 1), if m.count p = 1 then Function.update m.free p true else m.free⟩

end Pool

structure Counts (m : Pool P) (refs : Multiset P) : Prop where
  count : ∀ p, m.count p = refs.count p
  free : ∀ p, m.free p = true ↔ p ∉ refs

variable {m : Pool P} {refs : Multiset P} {p : P}

theorem counts_fresh : Counts (Pool.fresh : Pool P) 0 := ⟨fun _ => rfl, fun _ => by simp [Pool.fresh]⟩

theorem Counts.not_free (h : Counts m refs) (hp : p ∈ refs) : m.free p = false := by
  rw [Bool.eq_false_iff]
  exact fun hfree => (h.free p).1 hfree hp

theorem Counts.alloc (h : Counts m refs) (hfree : m.free p = true) : Counts (m.alloc p) (p ::ₘ refs) := by
  have hnot := (h.free p).1 hfree
  refine ⟨fun q => ?_, fun q => ?_⟩
  · by_cases hq : q = p
    · subst hq
      simp [Pool.alloc, Multiset.count_eq_zero_of_notMem hnot]
    · simp [Pool.alloc, hq, h.count q]
  · by_cases hq : q = p
    · subst hq
      simp [Pool.alloc]
    · simp [Pool.alloc, hq, h.free q]

theorem Counts.get (h : Counts m refs) (hp : p ∈ refs) : Counts (m.get p) (p ::ₘ refs) := by
  refine ⟨fun q => ?_, fun q => ?_⟩
  · by_cases hq : q = p
    · subst hq
      simp [Pool.get, h.count q]
    · simp [Pool.get, hq, h.count q]
  · by_cases hq : q = p
    · subst hq
      simp [Pool.get, h.free q, hp]
    · simp [Pool.get, hq, h.free q]

theorem Counts.put (h : Counts m refs) (hp : p ∈ refs) : Counts (m.put p) (refs.erase p) := by
  have hpos := Multiset.count_pos.2 hp
  refine ⟨fun q => ?_, fun q => ?_⟩
  · by_cases hq : q = p
    · subst hq
      simp [Pool.put, h.count q]
    · simp [Pool.put, hq, h.count q]
  · by_cases hq : q = p
    · subst hq
      have hlast : q ∉ refs.erase q ↔ refs.count q = 1 := by
        rw [← Multiset.count_eq_zero, Multiset.count_erase_self]
        omega
      rw [hlast]
      unfold Pool.put
      dsimp only
      rw [h.count q]
      split
      · simp [*]
      · simp [h.free q, *]
    · have hfree : (m.put p).free q = m.free q := by
        unfold Pool.put
        dsimp only
        split
        · exact Function.update_of_ne hq _ _
        · rfl
      rw [hfree, h.free q, Multiset.mem_erase_of_ne hq]

end RefCount
