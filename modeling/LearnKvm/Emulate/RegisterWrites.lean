import LearnKvm.Emulate.Execute

/-!
# Register operands (`decode_register`, the writeback of `x86_emulate.c`)

What a register operand is and what a write of it leaves, stated over the bits of the registers.  The writes of the
emulator are such writes wherever a pointer to a second byte is used with one byte (`writeRegister_written`).
-/

namespace LearnKvm

variable {arch : Arch}

/-- The register that a code names.  For bytes without REX, the codes 4 to 7 are the second bytes of the first four. -/
def registerOperand (code : RegIndex) (byte rex : Bool) : RegPtr :=
  if byte && !rex && 4 ≤ code && code < 8 then ⟨code - 4, true⟩ else ⟨code, false⟩

def RegPtr.shift (ptr : RegPtr) : Nat := if ptr.high then 8 else 0

def operandValue (regs : RegIndex → ULong arch) (ptr : RegPtr) (bytes : Nat) : ULong arch :=
  lowBytes bytes (regs ptr.reg >>> ptr.shift)

/-- `v` is written at a register operand, and nothing else.  4 bytes are extended to a word in 64-bit mode; in the other
modes there is no upper half. -/
structure RegWritten (mode : X86EmulMode) (regs regs' : RegIndex → ULong arch) (ptr : RegPtr) (bytes : Nat)
    (v : ULong arch) : Prop where
  other : ∀ r, r ≠ ptr.reg → regs' r = regs r
  below : ∀ j, j < ptr.shift → (regs' ptr.reg).hasBit j = (regs ptr.reg).hasBit j
  written : ∀ j, j < 8 * bytes → (regs' ptr.reg).hasBit (ptr.shift + j) = v.hasBit j
  above : bytes ≠ 4 → ∀ j, ptr.shift + 8 * bytes ≤ j → (regs' ptr.reg).hasBit j = (regs ptr.reg).hasBit j
  extended : bytes = 4 → mode = .prot64 → ∀ j, 32 ≤ j → (regs' ptr.reg).hasBit j = false

theorem decodeRegister_eq (code : RegIndex) (byte rex : Bool) :
    decodeRegister code (byte && !rex) = registerOperand code byte rex := by
  cases byte <;> cases rex <;> revert code <;> decide

theorem registerOperand_byte {code : RegIndex} {byte rex : Bool} (hhigh : (registerOperand code byte rex).high = true) :
    byte = true := by
  unfold registerOperand at hhigh
  cases byte with
  | true => rfl
  | false => cases hhigh

/-- The sizes of an operand. -/
def OperandSize (bytes : Nat) : Prop := bytes = 1 ∨ bytes = 2 ∨ bytes = 4 ∨ bytes = 8

section

variable {ptr : RegPtr} {bytes : Nat}

theorem readReg_eq (regs : RegIndex → ULong arch) (hhigh : ptr.high = true → bytes = 1) :
    readReg regs ptr bytes = operandValue regs ptr bytes := by
  unfold readReg operandValue RegPtr.shift
  by_cases hptr : ptr.high = true
  · rw [hhigh hptr, if_pos hptr, if_pos hptr]
    have hlong : 16 ≤ arch.bitsPerLong - 8 := by cases arch <;> decide
    apply BitVec.eq_of_hasBit
    intro j hj
    by_cases h8 : j < 8
    · simp [show j < arch.bitsPerLong - 8 by omega]
    · simp [h8]
  · rw [if_neg hptr, if_neg hptr, BitVec.ushiftRight_zero]

theorem lowBytes_shift_eq_zero {n : Nat} (x : ULong arch) (hn : 8 * bytes ≤ n) : lowBytes bytes x >>> n = 0#_ := by
  apply BitVec.eq_of_hasBit
  intro j hj
  simp [show ¬ n + j < 8 * bytes by omega]

/-- One byte fits into a register, also as its second byte. -/
theorem storeReg_high (regs : RegIndex → ULong arch) (x : ULong arch) (hptr : ptr.high = true) :
    storeReg regs ptr 1 x =
      Function.update regs ptr.reg ((regs ptr.reg &&& ~~~(lowMask arch 1 <<< 8)) ||| (lowBytes 1 x <<< 8)) := by
  have hlong : 8 * 1 ≤ arch.bitsPerLong - 8 := by cases arch <;> decide
  have hmask : lowMask arch 1 >>> (arch.bitsPerLong - 8) = 0#_ := by
    apply BitVec.eq_of_hasBit
    intro j hj
    simp [show ¬ arch.bitsPerLong - 8 + j < 8 by omega]
  unfold storeReg
  rw [if_pos hptr]
  dsimp only
  rw [hmask, lowBytes_shift_eq_zero x hlong]
  funext r
  by_cases hnext : r = ptr.reg + 1
  · subst hnext
    have hne : ptr.reg + 1 ≠ ptr.reg := by
      intro heq
      exact absurd (BitVec.add_right_eq_self.1 heq) (by decide)
    rw [Function.update_self, Function.update_of_ne hne]
    simp
  · rw [Function.update_of_ne hnext]

theorem storeReg_written {mode : X86EmulMode} (regs : RegIndex → ULong arch) (x : ULong arch)
    (hhigh : ptr.high = true → bytes = 1) (hword : bytes ≠ 4) :
    RegWritten mode regs (storeReg regs ptr bytes x) ptr bytes x := by
  by_cases hptr : ptr.high = true
  · have hbytes := hhigh hptr
    subst hbytes
    have hlong : 16 < arch.bitsPerLong := by cases arch <;> decide
    rw [storeReg_high regs x hptr]
    refine ⟨fun r hr => Function.update_of_ne hr _ _, fun j hj => ?_, fun j hj => ?_, fun _ j hj => ?_, fun h4 => ?_⟩
    · simp only [RegPtr.shift, hptr, if_true] at hj
      rw [Function.update_self]
      by_cases hw : j < arch.bitsPerLong
      · simp [hw, hj]
      · simp [hw, BitVec.hasBit_of_ge (regs ptr.reg) (i := j) (by omega)]
    · simp only [RegPtr.shift, hptr, if_true]
      rw [Function.update_self]
      simp [show 8 + j < arch.bitsPerLong by omega, hj]
      omega
    · simp only [RegPtr.shift, hptr, if_true] at hj
      rw [Function.update_self]
      by_cases hw : j < arch.bitsPerLong
      · simp [hw, show ¬ j < 8 by omega, show ¬ j - 8 < 8 by omega]
      · simp [hw, BitVec.hasBit_of_ge (regs ptr.reg) (i := j) (by omega)]
    · cases h4
  · have hstore : storeReg regs ptr bytes x = Function.update regs ptr.reg (setLow bytes (regs ptr.reg) x) := by
      unfold storeReg
      rw [if_neg hptr]
    have hshift : ptr.shift = 0 := if_neg hptr
    rw [hstore]
    refine ⟨fun r hr => Function.update_of_ne hr _ _, fun j hj => ?_, fun j hj => ?_, fun _ j hj => ?_,
      fun h4 => absurd h4 hword⟩
    · omega
    · rw [Function.update_self, hshift, Nat.zero_add, hasBit_setLow, if_pos hj]
    · rw [Function.update_self, hasBit_setLow, if_neg (by omega)]

/-- The writes of the emulator are writes of register operands. -/
theorem writeRegister_written {mode : X86EmulMode} (regs : RegIndex → ULong arch) (x : ULong arch)
    (hhigh : ptr.high = true → bytes = 1) (hbytes : OperandSize bytes) :
    RegWritten mode regs (writeRegister regs ptr bytes x) ptr bytes x := by
  rcases hbytes with rfl | rfl | rfl | rfl
  · exact storeReg_written regs x hhigh (by decide)
  · exact storeReg_written regs x hhigh (by decide)
  · have hptr : ¬ ptr.high = true := fun hp => absurd (hhigh hp) (by decide)
    have hshift : ptr.shift = 0 := if_neg hptr
    have hlong : 32 ≤ 8 * arch.sizeofLong ∧ 8 * arch.sizeofLong = arch.bitsPerLong := by cases arch <;> decide
    have hwrite : writeRegister regs ptr 4 x =
        Function.update regs ptr.reg (setLow arch.sizeofLong (regs ptr.reg) (lowBytes 4 x)) := by
      show storeReg regs ptr arch.sizeofLong (lowBytes 4 x) = _
      unfold storeReg
      rw [if_neg hptr]
    rw [hwrite]
    refine ⟨fun r hr => Function.update_of_ne hr _ _, fun j hj => ?_, fun j hj => ?_, fun h4 => absurd rfl h4,
      fun _ _ j hj => ?_⟩
    · omega
    · rw [Function.update_self, hshift, Nat.zero_add, hasBit_setLow, if_pos (by omega), hasBit_lowBytes]
      simp [hj]
    · rw [Function.update_self, hasBit_setLow]
      by_cases hw : j < 8 * arch.sizeofLong
      · rw [if_pos hw, hasBit_lowBytes]
        simp [show ¬ j < 8 * 4 by omega]
      · rw [if_neg hw]
        exact BitVec.hasBit_of_ge _ (by omega)
  · have hptr : ¬ ptr.high = true := fun hp => absurd (hhigh hp) (by decide)
    have hshift : ptr.shift = 0 := if_neg hptr
    have hlong : 8 * arch.sizeofLong = arch.bitsPerLong := by cases arch <;> decide
    have hwrite : writeRegister regs ptr 8 x =
        Function.update regs ptr.reg (setLow arch.sizeofLong (regs ptr.reg) x) := by
      show storeReg regs ptr arch.sizeofLong x = _
      unfold storeReg
      rw [if_neg hptr]
    rw [hwrite]
    refine ⟨fun r hr => Function.update_of_ne hr _ _, fun j hj => ?_, fun j hj => ?_, fun _ j hj => ?_, fun h4 => ?_⟩
    · omega
    · rw [Function.update_self, hshift, Nat.zero_add, hasBit_setLow]
      by_cases hw : j < 8 * arch.sizeofLong
      · rw [if_pos hw]
      · rw [if_neg hw, BitVec.hasBit_of_ge _ (by omega), BitVec.hasBit_of_ge _ (by omega)]
    · have hw : arch.bitsPerLong ≤ j := by
        have h64 : arch.bitsPerLong ≤ 64 := by cases arch <;> decide
        omega
      rw [BitVec.hasBit_of_ge _ hw, BitVec.hasBit_of_ge _ hw]
    · cases h4

end

/-! ### Registers that keep their values -/

section

variable {mode : X86EmulMode} {regs regs' : RegIndex → ULong arch} {ptr : RegPtr} {bytes : Nat} {v w : ULong arch}

/-- Only the low bytes are written. -/
theorem RegWritten.congr (hw : RegWritten mode regs regs' ptr bytes v) (heq : lowBytes bytes v = lowBytes bytes w) :
    RegWritten mode regs regs' ptr bytes w := by
  refine ⟨hw.other, hw.below, fun j hj => ?_, hw.above, hw.extended⟩
  have hbit := congrArg (fun z => BitVec.hasBit z j) heq
  simp only [hasBit_lowBytes, hj, decide_true, Bool.and_true] at hbit
  rw [hw.written j hj, hbit]

/-- Bits 32 to 63 of a register are 0. -/
def UpperZero (regs : RegIndex → ULong arch) (r : RegIndex) : Prop := ∀ j, 32 ≤ j → (regs r).hasBit j = false

/-- Nothing has to be written where the value is already there, and the upper half is 0 if it is to be. -/
theorem regWritten_self_iff : RegWritten mode regs regs ptr bytes v ↔
    operandValue regs ptr bytes = lowBytes bytes v ∧ (bytes = 4 → mode = .prot64 → UpperZero regs ptr.reg) := by
  constructor
  · intro hw
    refine ⟨?_, hw.extended⟩
    apply BitVec.eq_of_hasBit
    intro j _
    unfold operandValue
    rw [hasBit_lowBytes, hasBit_lowBytes, BitVec.hasBit_ushiftRight]
    by_cases hj : j < 8 * bytes
    · rw [hw.written j hj]
    · simp [hj]
  · rintro ⟨heq, hext⟩
    refine ⟨fun _ _ => rfl, fun _ _ => rfl, fun j hj => ?_, fun _ _ _ => rfl, hext⟩
    have hbit := congrArg (fun z => BitVec.hasBit z j) heq
    unfold operandValue at hbit
    simpa [hj] using hbit

/-- If the operand is not touched, nothing else may be. -/
theorem regWritten_elsewhere (hkept : regs' ptr.reg = regs ptr.reg) :
    RegWritten mode regs regs' ptr bytes v ↔ regs' = regs ∧ RegWritten mode regs regs ptr bytes v := by
  constructor
  · intro hw
    have hsame : regs' = regs := by
      funext r
      by_cases hr : r = ptr.reg
      · rw [hr, hkept]
      · exact hw.other r hr
    exact ⟨hsame, hsame ▸ hw⟩
  · rintro ⟨rfl, hw⟩
    exact hw

/-- The bytes of a store at a second byte that lie in the first register. -/
theorem storeLow_eq_self_iff (a : ULong arch) :
    (a &&& ~~~(lowMask arch bytes <<< 8)) ||| (lowBytes bytes v <<< 8) = a ↔
      ∀ j, j < 8 * bytes → 8 + j < arch.bitsPerLong → a.hasBit (8 + j) = v.hasBit j := by
  constructor
  · intro heq j hj hw
    have hbit := congrArg (fun z => BitVec.hasBit z (8 + j)) heq
    simpa [hj, hw, show j < arch.bitsPerLong by omega] using hbit.symm
  · intro hall
    apply BitVec.eq_of_hasBit
    intro k hk
    by_cases h8 : k < 8
    · simp [hk, h8]
    · by_cases hin : k - 8 < 8 * bytes
      · have hbit := hall (k - 8) hin (by omega)
        rw [show 8 + (k - 8) = k by omega] at hbit
        simp [hk, h8, hin, hbit, show k - 8 < arch.bitsPerLong by omega]
      · simp [hk, h8, hin]

/-- The bytes that go on in the next register. -/
theorem storeNext_eq_self_iff (b : ULong arch) :
    (b &&& ~~~(lowMask arch bytes >>> (arch.bitsPerLong - 8))) ||| (lowBytes bytes v >>> (arch.bitsPerLong - 8)) = b ↔
      ∀ k, k < 8 → arch.bitsPerLong - 8 + k < 8 * bytes → b.hasBit k = v.hasBit (arch.bitsPerLong - 8 + k) := by
  have hlong : 8 ≤ arch.bitsPerLong := by cases arch <;> decide
  constructor
  · intro heq k hk hin
    have hbit := congrArg (fun z => BitVec.hasBit z k) heq
    simpa [hin, show k < arch.bitsPerLong by omega, show arch.bitsPerLong - 8 + k < arch.bitsPerLong by omega]
      using hbit.symm
  · intro hall
    apply BitVec.eq_of_hasBit
    intro k hk
    by_cases hin : k < 8 ∧ arch.bitsPerLong - 8 + k < 8 * bytes
    · simp [hk, hin.2, hall k hin.1 hin.2, show arch.bitsPerLong - 8 + k < arch.bitsPerLong by omega]
    · by_cases h8 : k < 8
      · simp [hk, show ¬ arch.bitsPerLong - 8 + k < 8 * bytes from fun hno => hin ⟨h8, hno⟩]
      · have hv : v.hasBit (arch.bitsPerLong - 8 + k) = false := BitVec.hasBit_of_ge _ (by omega)
        simp [hk, hv, show ¬ arch.bitsPerLong - 8 + k < arch.bitsPerLong by omega]

theorem readHigh_eq_iff (a b : ULong arch) (hbytes : 8 * bytes ≤ arch.bitsPerLong) :
    lowBytes bytes ((a >>> 8) ||| (b <<< (arch.bitsPerLong - 8))) = lowBytes bytes v ↔
      (∀ j, j < 8 * bytes → 8 + j < arch.bitsPerLong → a.hasBit (8 + j) = v.hasBit j) ∧
        ∀ k, k < 8 → arch.bitsPerLong - 8 + k < 8 * bytes → b.hasBit k = v.hasBit (arch.bitsPerLong - 8 + k) := by
  constructor
  · intro heq
    refine ⟨fun j hj hw => ?_, fun k hk hin => ?_⟩
    · have hbit := congrArg (fun z => BitVec.hasBit z j) heq
      simpa [hj, show j < arch.bitsPerLong by omega, show j < arch.bitsPerLong - 8 by omega] using hbit
    · have hbit := congrArg (fun z => BitVec.hasBit z (arch.bitsPerLong - 8 + k)) heq
      have ha : a.hasBit (8 + (arch.bitsPerLong - 8 + k)) = false := BitVec.hasBit_of_ge _ (by omega)
      simpa [hin, ha, show arch.bitsPerLong - 8 + k < arch.bitsPerLong by omega] using hbit
  · rintro ⟨hlow, hnext⟩
    apply BitVec.eq_of_hasBit
    intro j hj
    by_cases hin : j < 8 * bytes
    · by_cases hw : 8 + j < arch.bitsPerLong
      · simp [hj, hin, hlow j hin hw, show j < arch.bitsPerLong - 8 by omega]
      · have ha : a.hasBit (8 + j) = false := BitVec.hasBit_of_ge _ (by omega)
        have hbit := hnext (j - (arch.bitsPerLong - 8)) (by omega) (by omega)
        rw [show arch.bitsPerLong - 8 + (j - (arch.bitsPerLong - 8)) = j by omega] at hbit
        simp [hj, hin, ha, hbit, show ¬ j < arch.bitsPerLong - 8 by omega]
    · simp [hin]

/-- A store at a second byte changes nothing exactly if the bytes there are those stored. -/
theorem storeReg_eq_self_iff (hptr : ptr.high = true) (hbytes : 8 * bytes ≤ arch.bitsPerLong) :
    storeReg regs ptr bytes v = regs ↔ readReg regs ptr bytes = lowBytes bytes v := by
  have hne : ptr.reg ≠ ptr.reg + 1 := by
    intro heq
    exact absurd (BitVec.self_eq_add_right.1 heq) (by decide)
  unfold storeReg readReg
  rw [if_pos hptr, if_pos hptr, readHigh_eq_iff _ _ hbytes, ← storeLow_eq_self_iff, ← storeNext_eq_self_iff]
  dsimp only
  constructor
  · intro hsame
    have hthis := congrFun hsame ptr.reg
    have hnext := congrFun hsame (ptr.reg + 1)
    rw [Function.update_of_ne hne, Function.update_self] at hthis
    rw [Function.update_self] at hnext
    exact ⟨hthis, hnext⟩
  · rintro ⟨hthis, hnext⟩
    rw [hthis, hnext, Function.update_eq_self, Function.update_eq_self]

/-- A store leaves the registers alone that it does not reach. -/
theorem storeReg_other {r : RegIndex} (hr : r ≠ ptr.reg) (hnext : r ≠ ptr.reg + 1) :
    storeReg regs ptr bytes v r = regs r := by
  unfold storeReg
  by_cases hptr : ptr.high = true
  · rw [if_pos hptr, Function.update_of_ne hnext, Function.update_of_ne hr]
  · rw [if_neg hptr, Function.update_of_ne hr]

/-- The writes of more than a byte, as one store. -/
theorem writeRegister_eq_store (hbytes : bytes = 2 ∨ bytes = 4 ∨ bytes = 8) :
    writeRegister regs ptr bytes v = storeReg regs ptr (if bytes = 2 then 2 else arch.sizeofLong) (lowBytes bytes v) := by
  have hstore : ∀ n, storeReg regs ptr n (lowBytes n v) = storeReg regs ptr n v := by
    intro n
    unfold storeReg setLow
    rw [lowBytes_lowBytes]
  rcases hbytes with rfl | rfl | rfl
  · exact (hstore 2).symm
  · rfl
  · have hlong : arch.bitsPerLong ≤ 8 * 8 := by cases arch <;> decide
    rw [lowBytes_of_le hlong]
    rfl

end

end LearnKvm
