import LearnKvm.Lib.ByteMemory

/-!
# Bit strings in byte memories

The bits of a memory are numbered from an address on, in both directions: bit `n` lies in the byte at distance `n / 8`,
rounded down.  A store of a loaded word with one bit exchanged replaces that bit of the string and nothing else
(`store_eq_setBit`).
-/

namespace ByteMem

variable {w v : Nat}

/-- The word with one bit replaced. -/
def withBit (x : BitVec v) (k : Nat) (b : Bool) : BitVec v := if b then x ||| 1#v <<< k else x &&& ~~~(1#v <<< k)

theorem hasBit_withBit (x : BitVec v) {k : Nat} (hk : k < v) (b : Bool) (i : Nat) :
    (withBit x k b).hasBit i = if i = k then b else x.hasBit i := by
  unfold withBit
  by_cases hi : i = k
  · cases b <;> simp [hi, hk, Bits.hasBit_one_shiftLeft hk]
  · by_cases hv : i < v
    · cases b <;> simp [hi, hv, Bits.hasBit_one_shiftLeft hk]
    · cases b <;> simp [hi, Bits.hasBit_one_shiftLeft hk, BitVec.hasBit_of_ge x (Nat.not_lt.1 hv)]

/-- The address of the byte with bit `n`. -/
def bitAddr (a : BitVec w) (n : Int) : BitVec w := a + BitVec.ofInt w (n / 8)

def bit (m : Mem w) (a : BitVec w) (n : Int) : Bool := (m (bitAddr a n)).hasBit (n % 8).toNat

def setBit (m : Mem w) (a : BitVec w) (n : Int) (b : Bool) : Mem w := fun x =>
  if x = bitAddr a n then withBit (m x) (n % 8).toNat b else m x

theorem hasBit_setBit (m : Mem w) (a : BitVec w) (n : Int) (b : Bool) (x : BitVec w) (i : Nat) :
    (setBit m a n b x).hasBit i = if x = bitAddr a n ∧ i = (n % 8).toNat then b else (m x).hasBit i := by
  have hlt : (n % 8).toNat < 8 := by omega
  unfold setBit
  by_cases hx : x = bitAddr a n
  · rw [if_pos hx, hasBit_withBit _ hlt]
    simp [hx]
  · rw [if_neg hx, if_neg fun hno => hx hno.1]

theorem setBit_self (m : Mem w) (a : BitVec w) (n : Int) : setBit m a n (bit m a n) = m := by
  funext x
  apply BitVec.eq_of_hasBit
  intro i _
  rw [hasBit_setBit]
  split
  · rename_i hx
    rw [hx.1, hx.2]
    rfl
  · rfl

theorem bitAddr_natCast (a : BitVec w) (k : Nat) : bitAddr a k = a + BitVec.ofNat w (k / 8) := by
  unfold bitAddr
  rw [show (k : Int) / 8 = ((k / 8 : Nat) : Int) by omega, BitVec.ofInt_natCast]

theorem bit_natCast (m : Mem w) (a : BitVec w) {k n : Nat} (hk : k < 8 * n) (hn : n ≤ 8) :
    bit m a k = (load m a n).hasBit k := by
  have hmod : ((k : Int) % 8).toNat = k % 8 := by omega
  unfold bit
  rw [bitAddr_natCast, hmod, hasBit_load]
  simp [hk, show k < 64 by omega]

/-- A store of the loaded word with one bit exchanged. -/
theorem store_eq_setBit (m : Mem w) (a : BitVec w) {k n : Nat} (hk : k < 8 * n) (hn : n ≤ 8) (hw : n ≤ 2 ^ w)
    {b : Bool} {x : BitVec 64} (hx : ∀ j < 8 * n, x.hasBit j = if j = k then b else (load m a n).hasBit j) :
    store m a n x = setBit m a k b := by
  funext y
  apply BitVec.eq_of_hasBit
  intro i hi
  have hmod : ((k : Int) % 8).toNat = k % 8 := by omega
  have hdist : ∀ d < n, (y - a).toNat = d ↔ y = a + BitVec.ofNat w d := by
    intro d hd
    constructor
    · rintro rfl
      rw [BitVec.ofNat_toNat, BitVec.setWidth_eq, BitVec.add_comm, BitVec.sub_add_cancel]
    · rintro rfl
      rw [BitVec.add_comm, BitVec.add_sub_cancel, BitVec.toNat_ofNat, Nat.mod_eq_of_lt (by omega)]
  have hplace : (y = bitAddr a k ∧ i = ((k : Int) % 8).toNat) ↔ (y - a).toNat = k / 8 ∧ i = k % 8 := by
    rw [bitAddr_natCast, ← hdist (k / 8) (by omega), hmod]
  rw [hasBit_setBit, if_congr hplace rfl rfl]
  unfold store
  by_cases hd : (y - a).toNat < n
  · have hy := (hdist _ hd).1 rfl
    have hbit : (load m a n).hasBit (8 * (y - a).toNat + i) = (m y).hasBit i := by
      rw [hasBit_load, decide_eq_true (by omega), decide_eq_true (by omega),
        show (8 * (y - a).toNat + i) / 8 = (y - a).toNat by omega, show (8 * (y - a).toNat + i) % 8 = i by omega, ← hy]
      rfl
    have hiff : 8 * (y - a).toNat + i = k ↔ (y - a).toNat = k / 8 ∧ i = k % 8 := by omega
    rw [if_pos hd, Bits.hasBit_field, hx _ (by omega), hbit, if_congr hiff rfl rfl, decide_eq_true hi, Bool.true_and]
  · rw [if_neg hd, if_neg fun hno => hd (by omega)]

end ByteMem
