import Mathlib.Data.Nat.Prime.Basic
import Mathlib.Tactic.Ring

/-!
# The sieve of Eratosthenes

`Survives k j` says that `j` has not been crossed out as a proper multiple of a prime below `k`.  The numbers that survive
until their own turn are the primes (`survives_self`), and the turn of a prime crosses out its multiples from its double
on (`survives_succ_of_prime`).
-/

namespace Eratosthenes

def Survives (k j : Nat) : Prop := 2 ≤ j ∧ ∀ p < k, p.Prime → p ∣ j → j = p

variable {j k : Nat}

theorem survives_two : Survives 2 j ↔ 2 ≤ j := by
  refine ⟨And.left, fun h => ⟨h, fun p hp hprime => ?_⟩⟩
  have := hprime.two_le
  omega

theorem survives_of_prime (h : j.Prime) (k : Nat) : Survives k j :=
  ⟨h.two_le, fun _ _ hp hdvd => ((Nat.prime_dvd_prime_iff_eq hp h).1 hdvd).symm⟩

/-- A number below `k` has its least prime factor below `k`. -/
theorem survives_of_lt (h : j < k) : Survives k j ↔ j.Prime := by
  refine ⟨fun hs => ?_, fun hp => survives_of_prime hp k⟩
  have hj : j ≠ 1 := by
    have := hs.1
    omega
  have hle := Nat.minFac_le (n := j) (by have := hs.1; omega)
  have heq := hs.2 j.minFac (by omega) (Nat.minFac_prime hj) (Nat.minFac_dvd j)
  rw [heq]
  exact Nat.minFac_prime hj

theorem survives_self (h : 2 ≤ k) : Survives k k ↔ k.Prime := by
  refine ⟨fun hs => ?_, fun hp => survives_of_prime hp k⟩
  by_contra hnot
  have hdvd := Nat.minFac_dvd k
  have hprime := Nat.minFac_prime (n := k) (by omega)
  have hlt : k.minFac < k := (Nat.minFac_le (by omega)).lt_of_ne fun heq => hnot (heq ▸ hprime)
  have := hs.2 k.minFac hlt hprime hdvd
  omega

theorem survives_succ_of_not_prime (h : ¬k.Prime) : Survives (k + 1) j ↔ Survives k j := by
  refine and_congr_right fun _ => ⟨fun hs p hp => hs p (by omega), fun hs p hp hprime => ?_⟩
  exact hs p (lt_of_le_of_ne (by omega) fun heq => h (heq ▸ hprime)) hprime

theorem survives_succ_of_prime (h : k.Prime) : Survives (k + 1) j ↔ Survives k j ∧ ¬(k ∣ j ∧ 2 * k ≤ j) := by
  constructor
  · intro hs
    refine ⟨⟨hs.1, fun p hp => hs.2 p (by omega)⟩, fun ⟨hdvd, hle⟩ => ?_⟩
    have := hs.2 k (by omega) h hdvd
    have := h.two_le
    omega
  · rintro ⟨hs, hnot⟩
    refine ⟨hs.1, fun p hp hprime hdvd => ?_⟩
    rcases Nat.lt_succ_iff_lt_or_eq.1 hp with hlt | rfl
    · exact hs.2 p hlt hprime hdvd
    · obtain ⟨c, rfl⟩ := hdvd
      match c with
      | 0 => have := hs.1; omega
      | 1 => exact Nat.mul_one p
      | c + 2 => exact absurd ⟨⟨c + 2, rfl⟩, by rw [Nat.mul_comm p]; exact Nat.mul_le_mul_right p (by omega)⟩ hnot

end Eratosthenes
