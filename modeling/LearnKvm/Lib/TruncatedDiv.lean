import Mathlib.Algebra.Order.Group.Nat
import Mathlib.Tactic.Ring

/-!
# Division by a truncated divisor

Shifting dividend and divisor to the right by `s` bits before dividing is dividing the whole dividend by the divisor without
its `s` low bits (`shifted_div`).  Lowering the divisor never lowers the quotient, and `div_sub_eq_iff` says when it leaves
the quotient as it is: the lost part, once for each unit of the quotient and once more, must fit above the remainder.
-/

namespace TruncatedDiv

/-- Both operands shifted: the divisor without its low bits. -/
theorem shifted_div (n d s : Nat) : n / 2 ^ s / (d / 2 ^ s) = n / (d - d % 2 ^ s) := by
  have hd : 2 ^ s * (d / 2 ^ s) = d - d % 2 ^ s := by
    have := Nat.div_add_mod d (2 ^ s)
    omega
  rw [Nat.div_div_eq_div_mul, hd]

theorem div_le_div_sub (n : Nat) {d r : Nat} (h : r < d) : n / d ≤ n / (d - r) :=
  Nat.div_le_div_left (by omega) (by omega)

private theorem div_sub_le_iff (n k : Nat) {d r : Nat} (h : r < d) :
    n / (d - r) ≤ n / d + k ↔ (n / d + (k + 1)) * r + n % d < (k + 1) * d := by
  have hdm := Nat.div_add_mod n d
  have hsplit : (n / d + (k + 1)) * (d - r) + (n / d + (k + 1)) * r = d * (n / d) + (k + 1) * d := by
    rw [← Nat.mul_add, Nat.sub_add_cancel (by omega)]
    ring
  rw [← Nat.lt_succ_iff, Nat.div_lt_iff_lt_mul (by omega), show (n / d + k).succ = n / d + (k + 1) from rfl]
  omega

/-- The quotient is right iff the lost part of the divisor fits. -/
theorem div_sub_eq_iff (n : Nat) {d r : Nat} (h : r < d) :
    n / (d - r) = n / d ↔ (n / d + 1) * r + n % d < d := by
  have hle := div_le_div_sub n h
  have hiff := div_sub_le_iff n 0 h
  rw [Nat.zero_add, Nat.one_mul, Nat.add_zero] at hiff
  rw [← hiff]
  omega

/-- The quotient is at most one too large if the lost part of the divisor is small. -/
theorem div_sub_le_succ {n d r : Nat} (h : r < d) (hsmall : (n / d + 2) * r ≤ d) : n / (d - r) ≤ n / d + 1 := by
  have hmod := Nat.mod_lt n (Nat.zero_lt_of_lt h)
  have hfit : (n / d + 2) * r + n % d < 2 * d := by omega
  exact (div_sub_le_iff n 1 h).2 hfit

end TruncatedDiv
