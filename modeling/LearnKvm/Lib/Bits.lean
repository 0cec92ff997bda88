import Mathlib.Data.BitVec
import Mathlib.Tactic.IntervalCases

/-!
# Bits of machine words

A word is read bit by bit: `x.hasBit i` is bit `i` of `x`, false from the width on.  It is `BitVec.getLsbD` under a name
of its own, so that the simplifier keeps one form for bits at variable and at literal positions; the bits of every
operation on words are simp lemmas, and two words are equal when they have the same bits (`BitVec.eq_of_hasBit`).
The masks of page table entries are words with one bit (`Bits.hasBit_one_shiftLeft`) or low masks
(`Bits.hasBit_lowMask`), and `Bits.field` reads a field.
-/

def BitVec.hasBit {w : Nat} (x : BitVec w) (i : Nat) : Bool := x.getLsbD i

variable {w : Nat}

namespace BitVec

theorem eq_of_hasBit {x y : BitVec w} (h : ∀ i < w, x.hasBit i = y.hasBit i) : x = y := eq_of_getLsbD_eq h

theorem hasBit_of_ge (x : BitVec w) {i : Nat} (h : w ≤ i) : x.hasBit i = false := getLsbD_of_ge x i h

@[simp] theorem hasBit_zero (i : Nat) : (0#w).hasBit i = false := getLsbD_zero

@[simp] theorem hasBit_or (x y : BitVec w) (i : Nat) : (x ||| y).hasBit i = (x.hasBit i || y.hasBit i) := getLsbD_or

@[simp] theorem hasBit_and (x y : BitVec w) (i : Nat) : (x &&& y).hasBit i = (x.hasBit i && y.hasBit i) := getLsbD_and

@[simp] theorem hasBit_not (x : BitVec w) (i : Nat) : (~~~x).hasBit i = (decide (i < w) && !x.hasBit i) := getLsbD_not

@[simp] theorem hasBit_shiftLeft (x : BitVec w) (n i : Nat) :
    (x <<< n).hasBit i = (decide (i < w) && !decide (i < n) && x.hasBit (i - n)) := getLsbD_shiftLeft ..

@[simp] theorem hasBit_ushiftRight (x : BitVec w) (n i : Nat) : (x >>> n).hasBit i = x.hasBit (n + i) :=
  getLsbD_ushiftRight ..

@[simp] theorem hasBit_setWidth {v : Nat} (x : BitVec v) (i : Nat) :
    (x.setWidth w).hasBit i = (decide (i < w) && x.hasBit i) := getLsbD_setWidth ..

theorem ne_zero_of_hasBit {x : BitVec w} {i : Nat} (h : x.hasBit i = true) : x ≠ 0#w := by
  rintro rfl
  rw [hasBit_zero] at h
  cases h

theorem ne_zero_iff_hasBit {x : BitVec w} : x ≠ 0#w ↔ ∃ i, x.hasBit i = true := by
  refine ⟨fun hne => ?_, fun ⟨_, hi⟩ => ne_zero_of_hasBit hi⟩
  by_contra hall
  refine hne (eq_of_hasBit fun i _ => ?_)
  rw [hasBit_zero]
  exact Bool.eq_false_iff.2 fun hi => hall ⟨i, hi⟩

end BitVec

namespace Bits

/-- The word with bit `n` set. -/
theorem hasBit_one_shiftLeft {n : Nat} (h : n < w) (i : Nat) : (1#w <<< n).hasBit i = decide (i = n) := by
  unfold BitVec.hasBit
  rw [show (1#w <<< n) = BitVec.twoPow w n from rfl, BitVec.getLsbD_twoPow]
  simp [h, eq_comm]

/-- Testing a word against a single bit reads that bit. -/
theorem and_one_shiftLeft_bne_zero {n : Nat} (h : n < w) (x : BitVec w) : (x &&& 1#w <<< n != 0#w) = x.hasBit n := by
  unfold BitVec.hasBit
  rw [show (1#w <<< n) = BitVec.twoPow w n from rfl, BitVec.and_twoPow]
  cases hx : x.getLsbD n
  · simp
  · have : BitVec.twoPow w n ≠ 0#w := by
      intro h0
      have := congrArg (BitVec.getLsbD · n) h0
      simp [h] at this
    simpa using this

/-- The word with the `n` low bits set. -/
theorem hasBit_lowMask {n : Nat} (h : n < w) (i : Nat) : (1#w <<< n - 1#w).hasBit i = decide (i < n) := by
  have hpow : 2 ^ n < 2 ^ w := Nat.pow_lt_pow_right (by decide) h
  have h1 : (1 : Nat) < 2 ^ w := Nat.one_lt_two_pow (by omega)
  have h2 : (1#w <<< n).toNat = 2 ^ n := by
    rw [BitVec.toNat_shiftLeft, BitVec.toNat_ofNat, Nat.mod_eq_of_lt h1, Nat.one_shiftLeft, Nat.mod_eq_of_lt hpow]
  have hle : (1#w).toNat ≤ (1#w <<< n).toNat := by
    rw [h2, BitVec.toNat_ofNat, Nat.mod_eq_of_lt h1]
    exact Nat.two_pow_pos n
  have hval : (1#w <<< n - 1#w).toNat = 2 ^ n - 1 := by
    rw [BitVec.toNat_sub_of_le hle, h2, BitVec.toNat_ofNat, Nat.mod_eq_of_lt h1]
  unfold BitVec.hasBit
  rw [← BitVec.testBit_toNat, hval, Nat.testBit_two_pow_sub_one]

/-- A field of `len` bits at position `lo`. -/
def field (lo len : Nat) (x : BitVec w) : BitVec len := x.extractLsb' lo len

@[simp] theorem hasBit_field (lo len : Nat) (x : BitVec w) (i : Nat) :
    (field lo len x).hasBit i = (decide (i < len) && x.hasBit (lo + i)) :=
  BitVec.getLsbD_extractLsb' ..

/-- Two words have the same field when they agree on the bits of the field. -/
theorem field_congr {lo len : Nat} {x y : BitVec w}
    (h : ∀ i, lo ≤ i → i < lo + len → x.hasBit i = y.hasBit i) : field lo len x = field lo len y := by
  apply BitVec.eq_of_hasBit
  intro i hi
  rw [hasBit_field, hasBit_field, h (lo + i) (by omega) (by omega)]

/-- Words with the same field agree on its bits. -/
theorem hasBit_of_field_eq {lo len : Nat} {x y : BitVec w} (h : field lo len x = field lo len y) {i : Nat}
    (hlo : lo ≤ i) (hhi : i < lo + len) : x.hasBit i = y.hasBit i := by
  have := congrArg (BitVec.hasBit · (i - lo)) h
  simpa [show lo + (i - lo) = i by omega, show i - lo < len by omega] using this

/-- A field may be given any value without a change of the bits above it. -/
theorem exists_field_eq {lo len : Nat} (h : lo + len ≤ w) (x : BitVec w) (y : BitVec len) :
    ∃ x' : BitVec w, field lo len x' = y ∧ ∀ i, lo + len ≤ i → x'.hasBit i = x.hasBit i := by
  refine ⟨x >>> (lo + len) <<< (lo + len) ||| y.setWidth w <<< lo, BitVec.eq_of_hasBit fun i hi => ?_, fun i hi => ?_⟩
  · simp [hi, show lo + i < w by omega, show i < w by omega]
  · by_cases hw : i < w
    · have hy : y.hasBit (i - lo) = false := y.hasBit_of_ge (by omega)
      simp [hw, hy, show ¬i < lo + len by omega, show lo + len + (i - (lo + len)) = i by omega]
    · rw [BitVec.hasBit_of_ge _ (by omega), BitVec.hasBit_of_ge _ (by omega)]

end Bits
