import LearnKvm.Lib.TruncatedDiv
import LearnKvm.Lib.Bits

/-!
# 64-bit division on 32-bit hosts (`external-module-compat.c`)

A divisor above 32 bits is shifted down until it fits in a 32-bit word, and the dividend with it, so that `do_div` can
divide.  The low bits of the divisor that are shifted out are lost, which can make the quotient too large by one
(`div64U64_cases`); `div64U64_iff` says for which operands it is exact.
-/

namespace LearnKvm

open TruncatedDiv

/-- `fls`: the position of the highest set bit, counted from one. -/
def fls (x : BitVec 32) : Nat := if x = 0 then 0 else Nat.log2 x.toNat + 1

/-- `do_div`, which divides by a 32-bit word; `none` is a division by zero. -/
def doDiv (n : BitVec 64) (base : BitVec 32) : Option (BitVec 64) :=
  if base = 0 then none else some (n / base.setWidth 64)

/-- `div64_u64` of a 64-bit host. -/
def div64U64Inline (dividend divisor : BitVec 64) : BitVec 64 := dividend / divisor

/-- `div64_u64` of a 32-bit host. -/
def div64U64 (dividend divisor : BitVec 64) : Option (BitVec 64) :=
  let high : BitVec 32 := (divisor >>> 32).setWidth 32
  if high ≠ 0 then
    let shift := fls high
    let d : BitVec 32 := (divisor >>> shift).setWidth 32
    doDiv (dividend >>> shift) d
  else
    let d : BitVec 32 := divisor.setWidth 32
    doDiv dividend d

/-- The low bits that do not reach `do_div`. -/
def lostBits (divisor : BitVec 64) : Nat := divisor.toNat % 2 ^ fls ((divisor >>> 32).setWidth 32)

theorem toNat_high (divisor : BitVec 64) :
    ((divisor >>> 32).setWidth 32 : BitVec 32).toNat = divisor.toNat / 2 ^ 32 := by
  have := divisor.isLt
  rw [BitVec.toNat_setWidth, BitVec.toNat_ushiftRight, Nat.shiftRight_eq_div_pow]
  omega

theorem lostBits_low {divisor : BitVec 64} (h : (divisor >>> 32).setWidth 32 = (0 : BitVec 32)) : lostBits divisor = 0 := by
  unfold lostBits
  rw [h]
  exact Nat.mod_one _

/-- The shift brings the highest bit of the divisor to position 31. -/
theorem shifted_bounds {divisor : BitVec 64} (h : (divisor >>> 32).setWidth 32 ≠ (0 : BitVec 32)) :
    2 ^ (31 + fls ((divisor >>> 32).setWidth 32)) ≤ divisor.toNat ∧
      divisor.toNat < 2 ^ (32 + fls ((divisor >>> 32).setWidth 32)) := by
  have hpos : divisor.toNat / 2 ^ 32 ≠ 0 := by
    rw [← toNat_high]
    exact fun h0 => h (BitVec.eq_of_toNat_eq h0)
  unfold fls
  rw [if_neg h, toNat_high]
  have hlo := Nat.log2_self_le hpos
  have hhi := Nat.lt_log2_self (n := divisor.toNat / 2 ^ 32)
  constructor
  · calc 2 ^ (31 + (Nat.log2 (divisor.toNat / 2 ^ 32) + 1))
        = 2 ^ Nat.log2 (divisor.toNat / 2 ^ 32) * 2 ^ 32 := by rw [← Nat.pow_add]; congr 1; omega
      _ ≤ divisor.toNat / 2 ^ 32 * 2 ^ 32 := Nat.mul_le_mul_right _ hlo
      _ ≤ divisor.toNat := Nat.div_mul_le_self _ _
  · rw [Nat.pow_add, Nat.mul_comm]
    exact (Nat.div_lt_iff_lt_mul (by decide)).1 hhi

/-- `do_div` is exact unless it divides by zero. -/
theorem doDiv_eq (n : BitVec 64) {base : BitVec 32} (h : 0 < base.toNat) :
    ∃ q, doDiv n base = some q ∧ q.toNat = n.toNat / base.toNat := by
  have hne : base ≠ 0 := fun h0 => by simp [h0] at h
  refine ⟨n / base.setWidth 64, if_neg hne, ?_⟩
  rw [BitVec.toNat_udiv, BitVec.toNat_setWidth, Nat.mod_eq_of_lt (Nat.lt_trans base.isLt (by decide))]

/-- What reaches `do_div` is never zero, and the quotient is that of the divisor without its lost bits. -/
theorem div64U64_eq (dividend : BitVec 64) {divisor : BitVec 64} (h : divisor ≠ 0) :
    ∃ q, div64U64 dividend divisor = some q ∧ q.toNat = dividend.toNat / (divisor.toNat - lostBits divisor) := by
  have hpos : 0 < divisor.toNat := Nat.pos_of_ne_zero fun h0 => h (BitVec.eq_of_toNat_eq h0)
  by_cases hhigh : (divisor >>> 32).setWidth 32 = (0 : BitVec 32)
  · have hlt : divisor.toNat / 2 ^ 32 = 0 := by
      rw [← toNat_high, hhigh]
      rfl
    have hd : (divisor.setWidth 32 : BitVec 32).toNat = divisor.toNat := by
      rw [BitVec.toNat_setWidth]
      omega
    have hcode : div64U64 dividend divisor = doDiv dividend (divisor.setWidth 32) := if_neg (not_not_intro hhigh)
    rw [hcode, lostBits_low hhigh, Nat.sub_zero, ← hd]
    exact doDiv_eq dividend (hd ▸ hpos)
  · obtain ⟨hlo, hhi⟩ := shifted_bounds hhigh
    have hcode : div64U64 dividend divisor =
        doDiv (dividend >>> fls ((divisor >>> 32).setWidth 32))
          ((divisor >>> fls ((divisor >>> 32).setWidth 32)).setWidth 32) := if_pos hhigh
    rw [hcode]
    unfold lostBits
    generalize fls ((divisor >>> 32).setWidth 32) = shift at hlo hhi
    have hd : ((divisor >>> shift).setWidth 32 : BitVec 32).toNat = divisor.toNat / 2 ^ shift := by
      rw [BitVec.toNat_setWidth, BitVec.toNat_ushiftRight, Nat.shiftRight_eq_div_pow]
      exact Nat.mod_eq_of_lt (Nat.div_lt_of_lt_mul (by rwa [← Nat.pow_add, Nat.add_comm]))
    have hdpos : 0 < divisor.toNat / 2 ^ shift :=
      Nat.div_pos (Nat.le_trans (Nat.pow_le_pow_right (by decide) (by omega)) hlo) (Nat.two_pow_pos _)
    obtain ⟨q, hq, hval⟩ := doDiv_eq (dividend >>> shift) (hd ▸ hdpos)
    refine ⟨q, hq, ?_⟩
    rw [hval, hd, BitVec.toNat_ushiftRight, Nat.shiftRight_eq_div_pow]
    exact shifted_div _ _ _

theorem lostBits_lt {divisor : BitVec 64} (h : divisor ≠ 0) : lostBits divisor < divisor.toNat := by
  by_cases hhigh : (divisor >>> 32).setWidth 32 = (0 : BitVec 32)
  · rw [lostBits_low hhigh]
    exact Nat.pos_of_ne_zero fun h0 => h (BitVec.eq_of_toNat_eq h0)
  · calc lostBits divisor < 2 ^ fls ((divisor >>> 32).setWidth 32) := Nat.mod_lt _ (Nat.two_pow_pos _)
      _ ≤ 2 ^ (31 + fls ((divisor >>> 32).setWidth 32)) := Nat.pow_le_pow_right (by decide) (by omega)
      _ ≤ divisor.toNat := (shifted_bounds hhigh).1

/-- The quotient is exact, and the one that a 64-bit host computes. -/
def Div64Exact (dividend divisor : BitVec 64) : Prop :=
  ∃ q, div64U64 dividend divisor = some q ∧ q.toNat = dividend.toNat / divisor.toNat ∧
    q = div64U64Inline dividend divisor

/-- `do_div` never divides by zero.  The quotient is exact iff the lost bits of the divisor, once for each unit of the
quotient and once more, fit between the remainder and the divisor. -/
theorem div64U64_iff (dividend divisor : BitVec 64) (h : divisor ≠ 0) :
    div64U64 dividend divisor ≠ none ∧
      (Div64Exact dividend divisor ↔
        (dividend.toNat / divisor.toNat + 1) * lostBits divisor + dividend.toNat % divisor.toNat < divisor.toNat) := by
  obtain ⟨q, hq, hval⟩ := div64U64_eq dividend h
  have hinline : (div64U64Inline dividend divisor).toNat = dividend.toNat / divisor.toNat := BitVec.toNat_udiv
  rw [← div_sub_eq_iff _ (lostBits_lt h), ← hval]
  refine ⟨by simp [hq], ?_, ?_⟩
  · rintro ⟨q', hq', hexact, -⟩
    rw [hq] at hq'
    cases hq'
    exact hexact
  · intro hexact
    exact ⟨q, hq, hexact, BitVec.eq_of_toNat_eq (hexact.trans hinline.symm)⟩

/-- Three divided by two. -/
theorem div64U64_iff_three :
    (2 : BitVec 64) ≠ 0 ∧ div64U64 3 2 ≠ none ∧
      (Div64Exact 3 2 ↔
        ((3 : BitVec 64).toNat / (2 : BitVec 64).toNat + 1) * lostBits 2 + (3 : BitVec 64).toNat % (2 : BitVec 64).toNat <
          (2 : BitVec 64).toNat) :=
  ⟨by decide, div64U64_iff 3 2 (by decide)⟩

/-- 2³² divided by 2³² + 1 is one instead of zero. -/
theorem div64U64_inexact :
    ¬ ∀ dividend divisor : BitVec 64, divisor ≠ 0 →
      div64U64 dividend divisor ≠ none ∧ Div64Exact dividend divisor := by
  intro hall
  obtain ⟨-, q, hq, hval, -⟩ := hall 0x100000000 0x100000001 (by decide)
  have hone : div64U64 0x100000000 0x100000001 = some 1 := by decide
  rw [hone] at hq
  cases hq
  exact absurd hval (by decide)

/-- The quotient of a large divisor is so small that the lost bits matter little. -/
theorem lostBits_small {divisor : BitVec 64} (h : (divisor >>> 32).setWidth 32 ≠ (0 : BitVec 32)) (dividend : BitVec 64) :
    (dividend.toNat / divisor.toNat + 2) * lostBits divisor ≤ divisor.toNat := by
  have hlo := (shifted_bounds h).1
  have hone : 1 ≤ fls ((divisor >>> 32).setWidth 32) := by
    unfold fls
    rw [if_neg h]
    exact Nat.le_add_left ..
  unfold lostBits
  generalize fls ((divisor >>> 32).setWidth 32) = shift at hlo hone
  have hle : shift ≤ 33 := by
    have : 31 + shift < 64 := (Nat.pow_lt_pow_iff_right (by decide)).1 (Nat.lt_of_le_of_lt hlo divisor.isLt)
    omega
  have hq : dividend.toNat / divisor.toNat < 2 ^ (33 - shift) := by
    rw [Nat.div_lt_iff_lt_mul (Nat.lt_of_lt_of_le (Nat.two_pow_pos _) hlo)]
    calc dividend.toNat < 2 ^ 64 := dividend.isLt
      _ = 2 ^ (33 - shift) * 2 ^ (31 + shift) := by rw [← Nat.pow_add]; congr 1; omega
      _ ≤ 2 ^ (33 - shift) * divisor.toNat := Nat.mul_le_mul_left _ hlo
  have hlost : divisor.toNat % 2 ^ shift < 2 ^ shift := Nat.mod_lt _ (Nat.two_pow_pos _)
  have hfit : 2 ^ (33 - shift) * (divisor.toNat % 2 ^ shift) ≤ 2 ^ (31 + shift) := by
    rcases Nat.lt_or_ge shift 2 with h1 | h2
    · obtain rfl : shift = 1 := by omega
      omega
    · calc 2 ^ (33 - shift) * (divisor.toNat % 2 ^ shift) ≤ 2 ^ (33 - shift) * 2 ^ shift :=
            Nat.mul_le_mul_left _ hlost.le
        _ = 2 ^ 33 := by rw [← Nat.pow_add]; congr 1; omega
        _ ≤ 2 ^ (31 + shift) := Nat.pow_le_pow_right (by decide) (by omega)
  have hkept : 2 ^ (31 + shift) ≤ 2 ^ shift * (divisor.toNat / 2 ^ shift) := by
    rw [Nat.add_comm, Nat.pow_add]
    refine Nat.mul_le_mul_left _ ((Nat.le_div_iff_mul_le (Nat.two_pow_pos _)).2 ?_)
    rwa [← Nat.pow_add]
  calc (dividend.toNat / divisor.toNat + 2) * (divisor.toNat % 2 ^ shift)
      ≤ (2 ^ (33 - shift) + 1) * (divisor.toNat % 2 ^ shift) := Nat.mul_le_mul_right _ (by omega)
    _ = 2 ^ (33 - shift) * (divisor.toNat % 2 ^ shift) + divisor.toNat % 2 ^ shift := Nat.succ_mul ..
    _ ≤ 2 ^ shift * (divisor.toNat / 2 ^ shift) + divisor.toNat % 2 ^ shift :=
        Nat.add_le_add_right (hfit.trans hkept) _
    _ = divisor.toNat := Nat.div_add_mod ..

/-- The quotient is never too small, and too large by one at most. -/
theorem div64U64_cases (dividend divisor : BitVec 64) (h : divisor ≠ 0) :
    ∃ q, div64U64 dividend divisor = some q ∧
      (q.toNat = dividend.toNat / divisor.toNat ∨ q.toNat = dividend.toNat / divisor.toNat + 1) := by
  obtain ⟨q, hq, hval⟩ := div64U64_eq dividend h
  have hle := div_le_div_sub dividend.toNat (lostBits_lt h)
  refine ⟨q, hq, ?_⟩
  rw [hval]
  suffices hsmall : (dividend.toNat / divisor.toNat + 2) * lostBits divisor ≤ divisor.toNat by
    have := div_sub_le_succ (lostBits_lt h) hsmall
    omega
  by_cases hhigh : (divisor >>> 32).setWidth 32 = (0 : BitVec 32)
  · rw [lostBits_low hhigh]
    omega
  · exact lostBits_small hhigh dividend

end LearnKvm
