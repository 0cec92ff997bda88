import LearnKvm.Lib.Bits

/-!
# Lists of checks

A check either fails with a message or lets the next one run (`failIf`).  A sequence of checks passes iff every one does,
which the `simp` lemmas here say for `do` blocks and guards, and `Bits` names the bits that a check against a mask reads.
-/

namespace Checklist

abbrev Check := Except String Unit

def failIf (failed : Bool) (message : String) : Check := if failed then .error message else .ok ()

@[simp] theorem failIf_eq_ok {failed : Bool} {message : String} : failIf failed message = .ok () ↔ failed = false := by
  cases failed <;> simp [failIf]

@[simp] theorem bind_eq_ok {first : Check} {rest : Unit → Check} :
    (first >>= rest) = .ok () ↔ first = .ok () ∧ rest () = .ok () := by
  cases first with
  | error message => simp [bind, Except.bind]
  | ok u => simp [bind, Except.bind]

/-- Checks that are made under a condition. -/
def onlyIf (guard : Bool) (check : Check) : Check := if guard then check else .ok ()

@[simp] theorem onlyIf_eq_ok {guard : Bool} {check : Check} : onlyIf guard check = .ok () ↔ (guard = true → check = .ok ()) := by
  cases guard <;> simp [onlyIf]

@[simp] theorem ite_eq_ok {guard : Bool} {check check' : Check} :
    (if guard = true then check else check') = .ok () ↔
      (guard = true → check = .ok ()) ∧ (guard = false → check' = .ok ()) := by
  cases guard <;> simp

end Checklist

namespace Bits

variable {w : Nat}

theorem and_one_shiftLeft_beq_zero {n : Nat} (h : n < w) (x : BitVec w) : (x &&& 1#w <<< n == 0#w) = !x.hasBit n := by
  rw [← and_one_shiftLeft_bne_zero h, bne, Bool.not_not]

/-- No bit of a mask is set. -/
theorem and_eq_zero_iff (x mask : BitVec w) : x &&& mask = 0#w ↔ ∀ i, mask.hasBit i = true → x.hasBit i = false := by
  constructor
  · intro h i hi
    have hbit := congrArg (BitVec.hasBit · i) h
    simpa [hi] using hbit
  · intro h
    apply BitVec.eq_of_hasBit
    intro i _
    rw [BitVec.hasBit_and, BitVec.hasBit_zero]
    cases hm : mask.hasBit i with
    | false => exact Bool.and_false _
    | true => rw [h i hm, Bool.false_and]

/-- Every bit of a mask is set. -/
theorem and_eq_mask_iff (x mask : BitVec w) : x &&& mask = mask ↔ ∀ i, mask.hasBit i = true → x.hasBit i = true := by
  constructor
  · intro h i hi
    have hbit := congrArg (BitVec.hasBit · i) h
    simpa [hi] using hbit
  · intro h
    apply BitVec.eq_of_hasBit
    intro i _
    rw [BitVec.hasBit_and]
    cases hm : mask.hasBit i with
    | false => exact Bool.and_false _
    | true => rw [h i hm, Bool.true_and]

/-- No bit from `n` on is set in a word below `2 ^ n`. -/
theorem and_not_lowMask_eq_zero_iff {n : Nat} (h : n < w) (x : BitVec w) :
    x &&& ~~~(1#w <<< n - 1#w) = 0#w ↔ x.toNat < 2 ^ n := by
  rw [and_eq_zero_iff]
  constructor
  · intro hx
    apply Nat.lt_pow_two_of_testBit
    intro i hi
    by_cases hw : i < w
    · exact hx i (by rw [BitVec.hasBit_not, hasBit_lowMask h]; simp [hw, hi])
    · exact BitVec.hasBit_of_ge x (by omega)
  · intro hx i hi
    rw [BitVec.hasBit_not, hasBit_lowMask h] at hi
    simp only [Bool.and_eq_true, decide_eq_true_eq, Bool.not_eq_true', decide_eq_false_iff_not] at hi
    exact Nat.testBit_lt_two_pow (Nat.lt_of_lt_of_le hx (Nat.pow_le_pow_right (by decide) (by omega)))

end Bits
