import LearnKvm.Lib.Bits

/-!
# Little-endian byte memories

A memory maps addresses of `w` bits to bytes.  `load m a n` reads `n ≤ 8` bytes at `a` as a little-endian word,
zero-extended to 64 bits, and `store m a n v` writes the low `n` bytes of `v`; both wrap around the address space.

The results used elsewhere are about naturally aligned accesses of one size (`Aligned n`): a store at `a` is seen
by a load at `a` and by no load at another aligned address (`load_store_aligned`).  Or-ing a mask into a word in
place, `orAt`, therefore changes exactly one aligned word, and only by bits of the mask (`load_orAt_aligned`).
-/

namespace ByteMem

/-- A memory with `w`-bit addresses. -/
abbrev Mem (w : Nat) := BitVec w → BitVec 8

variable {w : Nat}

/-- The `n` bytes at `a`, least significant first. -/
def load (m : Mem w) (a : BitVec w) : Nat → BitVec 64
  | 0 => 0
  | n + 1 => (load m (a + 1) n <<< 8) ||| (m a).setWidth 64

/-- Write the `n` low bytes of `v` at `a`. -/
def store (m : Mem w) (a : BitVec w) (n : Nat) (v : BitVec 64) : Mem w := fun x =>
  if (x - a).toNat < n then Bits.field (8 * (x - a).toNat) 8 v else m x

/-- Or `v` into the `n`-byte word at `a`. -/
def orAt (m : Mem w) (a : BitVec w) (n : Nat) (v : BitVec 64) : Mem w := store m a n (load m a n ||| v)

/-- `a` is a multiple of `n`. -/
def Aligned (n : Nat) (a : BitVec w) : Prop := a.toNat % n = 0

theorem add_ofNat (a : BitVec w) (m n : Nat) : a + BitVec.ofNat w m + BitVec.ofNat w n = a + BitVec.ofNat w (m + n) := by
  rw [BitVec.add_assoc, BitVec.ofNat_add]

theorem add_ofNat_comm (a b : BitVec w) (n : Nat) : a + BitVec.ofNat w n + b = a + b + BitVec.ofNat w n := by
  rw [BitVec.add_assoc, BitVec.add_comm (BitVec.ofNat w n), BitVec.add_assoc]

theorem hasBit_load (m : Mem w) (a : BitVec w) (n i : Nat) :
    (load m a n).hasBit i =
      (decide (i < 64) && decide (i < 8 * n) && (m (a + BitVec.ofNat w (i / 8))).hasBit (i % 8)) := by
  induction n generalizing a i with
  | zero => simp [load]
  | succ n ih =>
    unfold load
    rw [BitVec.hasBit_or, BitVec.hasBit_shiftLeft, BitVec.hasBit_setWidth, ih]
    by_cases h64 : i < 64
    · by_cases h8 : i < 8
      · have hd : i / 8 = 0 := by omega
        have hm : i % 8 = i := by omega
        simp [h64, h8, hd, hm, show i < 8 * (n + 1) by omega]
      · have hhi : (m a).hasBit i = false := BitVec.hasBit_of_ge _ (by omega)
        have hd : i / 8 = (i - 8) / 8 + 1 := by omega
        have hm : i % 8 = (i - 8) % 8 := by omega
        have ha : a + 1 + BitVec.ofNat w ((i - 8) / 8) = a + BitVec.ofNat w (i / 8) := by
          rw [hd, BitVec.add_assoc, show BitVec.ofNat w ((i - 8) / 8 + 1) = BitVec.ofNat w ((i - 8) / 8) + 1 by
            rw [BitVec.ofNat_add]; rfl, BitVec.add_comm 1]
        have hb : decide (i - 8 < 8 * n) = decide (i < 8 * (n + 1)) := decide_eq_decide.2 (by omega)
        rw [ha, hhi, hb, hm]
        simp [h64, h8, show i - 8 < 64 by omega]
    · simp [h64]

/-- A load depends on the bytes it reads. -/
theorem load_congr {v : Nat} {m : Mem w} {m' : Mem v} {a : BitVec w} {b : BitVec v} {n : Nat}
    (h : ∀ j < n, m (a + BitVec.ofNat w j) = m' (b + BitVec.ofNat v j)) : load m a n = load m' b n := by
  apply BitVec.eq_of_hasBit
  intro i _
  rw [hasBit_load, hasBit_load]
  by_cases hi : i < 8 * n
  · rw [h (i / 8) (by omega)]
  · simp [hi]

theorem load_eq_zero {m : Mem w} {a : BitVec w} {n : Nat} (h : ∀ j < n, m (a + BitVec.ofNat w j) = 0) :
    load m a n = 0 := by
  apply BitVec.eq_of_hasBit
  intro i _
  rw [hasBit_load]
  by_cases hi : i < 8 * n
  · rw [h (i / 8) (by omega)]
    simp
  · simp [hi]

/-- A load in two parts. -/
theorem load_add (m : Mem w) (a : BitVec w) (k n : Nat) :
    load m a (k + n) = load m a k ||| load m (a + BitVec.ofNat w k) n <<< (8 * k) := by
  apply BitVec.eq_of_hasBit
  intro i hi
  rw [BitVec.hasBit_or, BitVec.hasBit_shiftLeft, hasBit_load, hasBit_load, hasBit_load]
  by_cases hk : i < 8 * k
  · simp [hi, hk, show i < 8 * (k + n) by omega]
  · have hdiv : k + (i - 8 * k) / 8 = i / 8 := by omega
    have hmod : (i - 8 * k) % 8 = i % 8 := by omega
    rw [add_ofNat, hdiv, hmod]
    simp [hi, hk, show i - 8 * k < 64 by omega, show (i < 8 * (k + n)) ↔ (i - 8 * k < 8 * n) by omega]

private theorem sub_toNat_of_aligned {n : Nat} (hn : n ∣ 2 ^ w) {a b : BitVec w} (ha : Aligned n a)
    (hb : Aligned n b) {j : Nat} (hj : j < n) (hlt : (b + BitVec.ofNat w j - a).toNat < n) :
    b = a ∧ (b + BitVec.ofNat w j - a).toNat = j := by
  obtain ⟨k, hk⟩ := hn
  have hpos : 0 < 2 ^ w := Nat.two_pow_pos w
  have hnk : n ≤ 2 ^ w := Nat.le_of_dvd hpos ⟨k, hk⟩
  obtain ⟨qa, hqa⟩ : ∃ q, a.toNat = n * q := ⟨a.toNat / n, (Nat.mul_div_cancel' (Nat.dvd_of_mod_eq_zero ha)).symm⟩
  obtain ⟨qb, hqb⟩ : ∃ q, b.toNat = n * q := ⟨b.toNat / n, (Nat.mul_div_cancel' (Nat.dvd_of_mod_eq_zero hb)).symm⟩
  have hja : j < 2 ^ w := by omega
  have hval : (b + BitVec.ofNat w j - a).toNat = (2 ^ w - n * qa + (n * qb + j)) % 2 ^ w := by
    rw [BitVec.toNat_sub, BitVec.toNat_add, BitVec.toNat_ofNat, Nat.mod_eq_of_lt hja, hqa, hqb, Nat.add_mod_mod]
  have hla : n * qa < 2 ^ w := hqa ▸ a.isLt
  have hlb : n * qb < 2 ^ w := hqb ▸ b.isLt
  have hka : qa < k := Nat.lt_of_mul_lt_mul_left (hk ▸ hla)
  have hkb : qb < k := Nat.lt_of_mul_lt_mul_left (hk ▸ hlb)
  -- the difference is `j` modulo `n`, so below `n` it is `j`
  have hform : 2 ^ w - n * qa + (n * qb + j) = n * (k - qa + qb) + j := by
    rw [hk, ← Nat.mul_sub, Nat.mul_add]; omega
  rw [hval, hform] at hlt ⊢
  rw [hk] at hlt ⊢
  have hmod : (n * (k - qa + qb) + j) % (n * k) = n * ((k - qa + qb) % k) + j := by
    rw [Nat.mod_mul, Nat.mul_add_mod, Nat.mod_eq_of_lt hj, Nat.mul_add_div (by omega), Nat.div_eq_of_lt hj]
    simp [Nat.add_comm]
  rw [hmod] at hlt ⊢
  have hz : (k - qa + qb) % k = 0 := by
    rcases Nat.eq_zero_or_pos ((k - qa + qb) % k) with h | h
    · exact h
    · have := Nat.mul_le_mul_left n h
      omega
  refine ⟨?_, by rw [hz]; omega⟩
  have hq : qb = qa := by
    rcases Nat.lt_or_ge qb qa with h | h
    · rw [Nat.mod_eq_of_lt (by omega)] at hz; omega
    · have : k - qa + qb = k + (qb - qa) := by omega
      rw [this, Nat.add_mod_left, Nat.mod_eq_of_lt (by omega)] at hz
      omega
  apply BitVec.eq_of_toNat_eq
  rw [hqa, hqb, hq]

private theorem hasBit_ff (i : Nat) : (255#8).hasBit (i % 8) = true := by
  have : i % 8 < 8 := Nat.mod_lt _ (by decide)
  interval_cases i % 8 <;> rfl

/-- The word of `n` bytes `0xff`. -/
def ones (w n : Nat) : BitVec 64 := load (fun _ => 255#8 : Mem w) 0 n

theorem hasBit_ones (n i : Nat) : (ones w n).hasBit i = (decide (i < 64) && decide (i < 8 * n)) := by
  unfold ones
  rw [hasBit_load, hasBit_ff, Bool.and_true]

/-- A load at an aligned address sees exactly the aligned store to that address. -/
theorem load_store_aligned {n : Nat} (hn : n ∣ 2 ^ w) (m : Mem w) {a b : BitVec w} (ha : Aligned n a)
    (hb : Aligned n b) (v : BitVec 64) :
    load (store m a n v) b n = if b = a then v &&& ones w n else load m b n := by
  apply BitVec.eq_of_hasBit
  intro i hi
  rw [hasBit_load]
  by_cases hin : i < 8 * n
  · have hj : i / 8 < n := by omega
    split
    · rename_i heq
      subst heq
      have hpow : i / 8 < 2 ^ w := Nat.lt_of_lt_of_le hj (Nat.le_of_dvd (Nat.two_pow_pos w) hn)
      have hoff : (b + BitVec.ofNat w (i / 8) - b).toNat = i / 8 := by
        rw [BitVec.add_comm, BitVec.add_sub_cancel, BitVec.toNat_ofNat, Nat.mod_eq_of_lt hpow]
      have hdm : 8 * (i / 8) + i % 8 = i := Nat.div_add_mod i 8
      have hs : store m b n v (b + BitVec.ofNat w (i / 8)) = Bits.field (8 * (i / 8)) 8 v := by
        unfold store
        rw [hoff, if_pos hj]
      rw [hs, BitVec.hasBit_and, hasBit_ones, Bits.hasBit_field, hdm]
      simp [hi, hin, Nat.mod_lt]
    · rename_i heq
      have hs : store m a n v (b + BitVec.ofNat w (i / 8)) = m (b + BitVec.ofNat w (i / 8)) :=
        if_neg fun h => heq (sub_toNat_of_aligned hn ha hb hj h).1
      rw [hs, hasBit_load]
  · split
    · rw [BitVec.hasBit_and, hasBit_ones]
      simp [hin]
    · rw [hasBit_load]
      simp [hin]

/-- Or-ing in place: the word at `a` gains the bits of `v`, every other aligned word is unchanged. -/
theorem load_orAt_aligned {n : Nat} (hn : n ∣ 2 ^ w) (m : Mem w) {a b : BitVec w} (ha : Aligned n a)
    (hb : Aligned n b) {v : BitVec 64} (hv : ∀ i, v.hasBit i = true → i < 8 * n) :
    load (orAt m a n v) b n = if b = a then load m a n ||| v else load m b n := by
  unfold orAt
  rw [load_store_aligned hn m ha hb]
  split
  · apply BitVec.eq_of_hasBit
    intro i hi
    rw [BitVec.hasBit_and, hasBit_ones, BitVec.hasBit_or, hasBit_load]
    by_cases hin : i < 8 * n
    · simp [hi, hin]
    · have : v.hasBit i = false := Bool.eq_false_iff.2 fun h => hin (hv i h)
      simp [hin, this]
  · rfl

end ByteMem
