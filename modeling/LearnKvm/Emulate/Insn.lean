import LearnKvm.Interrupts
import LearnKvm.Lib.Calls

/-!
# The state of the instruction emulator (`x86_emulate.c`, `x86_emulate.h`)

What `x86_emulate_memop` calls (`struct x86_emulate_ops` and the real-mode services of `kvm_main.c`) are the calls of a
program, so a run for every handler is a run for every behaviour of the callbacks.  Words have the size of the host's
`unsigned long`.

A pointer into `_regs` is the number of a register, or its second byte.  The registers have 4-bit numbers: on i386 there
is no REX prefix, and the upper eight are not used.
-/

namespace LearnKvm

open Calls

abbrev ULong (arch : Arch) := BitVec arch.bitsPerLong

variable {arch : Arch}

def Arch.sizeofLong : Arch → Nat
  | i386 => 4
  | x86_64 => 8

abbrev RegIndex := BitVec 4

def vcpuRegsRax : RegIndex := 0
def vcpuRegsRcx : RegIndex := 1
def vcpuRegsRdx : RegIndex := 2
def vcpuRegsRbx : RegIndex := 3
def vcpuRegsRsp : RegIndex := 4
def vcpuRegsRbp : RegIndex := 5
def vcpuRegsRsi : RegIndex := 6
def vcpuRegsRdi : RegIndex := 7

/-! ### The context -/

inductive X86EmulMode where
  | real | prot16 | prot32 | prot64
  deriving DecidableEq

/-- What `override_base` points to. -/
inductive SegBase where
  | cs | ds | es | fs | gs | ss
  deriving DecidableEq

/-- `struct x86_emulate_ctxt`, with the registers of its vcpu. -/
structure X86EmulateCtxt (arch : Arch) where
  regs : RegIndex → ULong arch
  rip : ULong arch
  eflags : ULong arch
  cr2 : ULong arch
  mode : X86EmulMode
  csBase : ULong arch
  dsBase : ULong arch
  esBase : ULong arch
  ssBase : ULong arch
  gsBase : ULong arch
  fsBase : ULong arch

def X86EmulateCtxt.base (ctxt : X86EmulateCtxt arch) : SegBase → ULong arch
  | .cs => ctxt.csBase
  | .ds => ctxt.dsBase
  | .es => ctxt.esBase
  | .fs => ctxt.fsBase
  | .gs => ctxt.gsBase
  | .ss => ctxt.ssBase

/-! ### The calls -/

/-- The return codes of a callback other than X86EMUL_CONTINUE. -/
inductive X86EmulError where
  | unhandleable | propagateFault
  deriving DecidableEq

/-- The callbacks in `struct x86_emulate_ops`, and the services of `kvm_main.c`.  The latter get a pointer to the shadow
flags. -/
inductive OpCall (arch : Arch) where
  | readStd (addr : ULong arch) (bytes : Nat)
  | writeStd (addr val : ULong arch) (bytes : Nat)
  | readEmulated (addr : ULong arch) (bytes : Nat)
  | writeEmulated (addr val : ULong arch) (bytes : Nat)
  | cmpxchgEmulated (addr old new : ULong arch) (bytes : Nat)
  | cmpxchg8bEmulated (addr oldLo oldHi newLo newHi : ULong arch)
  | realmodeLgdt (limit : BitVec 16) (base : ULong arch)
  | realmodeLidt (limit : BitVec 16) (base : ULong arch)
  | realmodeLmsw (msw rflags : ULong arch)
  | realmodeGetCr (cr : BitVec 8)
  | realmodeSetCr (cr : BitVec 8) (val rflags : ULong arch)
  deriving DecidableEq

/-- A read returns the value, a service the new flags or the register. -/
def OpReply (arch : Arch) : OpCall arch → Type
  | .readStd .. | .readEmulated .. => Except X86EmulError (ULong arch)
  | .writeStd .. | .writeEmulated .. | .cmpxchgEmulated .. | .cmpxchg8bEmulated .. => Except X86EmulError Unit
  | .realmodeLgdt .. | .realmodeLidt .. => Unit
  | .realmodeLmsw .. | .realmodeGetCr .. | .realmodeSetCr .. => ULong arch

/-- How `x86_emulate_memop` ends without a commit: with `goto done` after a callback has failed, with
`goto cannot_emulate`, or with the end of a string instruction whose count is 0. -/
inductive Exit (arch : Arch) where
  | done (rc : X86EmulError)
  | cannotEmulate
  | repDone (eip : ULong arch)
  deriving DecidableEq

abbrev Emul (arch : Arch) := Prog (OpReply arch) (Exit arch)

namespace Emul

/-- `if ((rc = ...) != 0) goto done`. -/
def orDone {α : Type} : Except X86EmulError α → Emul arch α
  | .ok a => .ret a
  | .error rc => .fail (.done rc)

def readStd (addr : ULong arch) (bytes : Nat) : Emul arch (ULong arch) := .call (.readStd addr bytes) orDone
def writeStd (addr val : ULong arch) (bytes : Nat) : Emul arch Unit := .call (.writeStd addr val bytes) orDone
def readEmulated (addr : ULong arch) (bytes : Nat) : Emul arch (ULong arch) := .call (.readEmulated addr bytes) orDone
def writeEmulated (addr val : ULong arch) (bytes : Nat) : Emul arch Unit :=
  .call (.writeEmulated addr val bytes) orDone
def cmpxchgEmulated (addr old new : ULong arch) (bytes : Nat) : Emul arch Unit :=
  .call (.cmpxchgEmulated addr old new bytes) orDone
def cmpxchg8bEmulated (addr oldLo oldHi newLo newHi : ULong arch) : Emul arch Unit :=
  .call (.cmpxchg8bEmulated addr oldLo oldHi newLo newHi) orDone
def realmodeLgdt (limit : BitVec 16) (base : ULong arch) : Emul arch Unit := .call (.realmodeLgdt limit base) .ret
def realmodeLidt (limit : BitVec 16) (base : ULong arch) : Emul arch Unit := .call (.realmodeLidt limit base) .ret
def realmodeLmsw (msw rflags : ULong arch) : Emul arch (ULong arch) := .call (.realmodeLmsw msw rflags) .ret
def realmodeGetCr (cr : BitVec 8) : Emul arch (ULong arch) := .call (.realmodeGetCr cr) .ret
def realmodeSetCr (cr : BitVec 8) (val rflags : ULong arch) : Emul arch (ULong arch) :=
  .call (.realmodeSetCr cr val rflags) .ret

end Emul

/-! ### Words and registers -/

/-- The low bytes of a word. -/
def lowMask (arch : Arch) (bytes : Nat) : ULong arch := 1#_ <<< (8 * bytes) - 1#_

def lowBytes (bytes : Nat) (x : ULong arch) : ULong arch := x &&& lowMask arch bytes

/-- The low bytes of `x` are stored over those of `old`. -/
def setLow (bytes : Nat) (old x : ULong arch) : ULong arch := (old &&& ~~~lowMask arch bytes) ||| lowBytes bytes x

@[simp] theorem hasBit_lowMask (bytes i : Nat) :
    (lowMask arch bytes).hasBit i = (decide (i < 8 * bytes) && decide (i < arch.bitsPerLong)) := by
  unfold lowMask
  by_cases h : 8 * bytes < arch.bitsPerLong
  · rw [Bits.hasBit_lowMask h]
    by_cases hi : i < 8 * bytes
    · simp [hi, show i < arch.bitsPerLong by omega]
    · simp [hi]
  · rw [BitVec.shiftLeft_eq_zero (by omega), BitVec.zero_sub, BitVec.neg_one_eq_allOnes]
    show (BitVec.allOnes _).getLsbD i = _
    rw [BitVec.getLsbD_allOnes]
    by_cases hi : i < arch.bitsPerLong
    · simp [hi, show i < 8 * bytes by omega]
    · simp [hi]

@[simp] theorem hasBit_lowBytes (bytes : Nat) (x : ULong arch) (i : Nat) :
    (lowBytes bytes x).hasBit i = (x.hasBit i && decide (i < 8 * bytes)) := by
  unfold lowBytes
  by_cases hi : i < arch.bitsPerLong
  · simp [hi]
  · have hx : x.hasBit i = false := BitVec.hasBit_of_ge x (by omega)
    simp [hx]

@[simp] theorem hasBit_setLow (bytes : Nat) (old x : ULong arch) (i : Nat) :
    (setLow bytes old x).hasBit i = if i < 8 * bytes then x.hasBit i else old.hasBit i := by
  unfold setLow
  by_cases hw : i < arch.bitsPerLong
  · by_cases hi : i < 8 * bytes
    · simp [hw, hi]
    · simp [hw, hi]
  · have hx : x.hasBit i = false := BitVec.hasBit_of_ge x (by omega)
    have hold : old.hasBit i = false := BitVec.hasBit_of_ge old (by omega)
    simp [hx, hold]

theorem lowBytes_toNat (bytes : Nat) (x : ULong arch) : (lowBytes bytes x).toNat = x.toNat % 2 ^ (8 * bytes) := by
  apply Nat.eq_of_testBit_eq
  intro i
  rw [BitVec.testBit_toNat, Nat.testBit_mod_two_pow, BitVec.testBit_toNat]
  show (lowBytes bytes x).hasBit i = _
  rw [hasBit_lowBytes, Bool.and_comm]
  rfl

theorem lowBytes_eq_iff {bytes : Nat} {x y : ULong arch} :
    lowBytes bytes x = lowBytes bytes y ↔ x.toNat % 2 ^ (8 * bytes) = y.toNat % 2 ^ (8 * bytes) := by
  rw [← lowBytes_toNat, ← lowBytes_toNat]
  exact BitVec.toNat_inj.symm

@[simp] theorem lowBytes_lowBytes (bytes : Nat) (x : ULong arch) : lowBytes bytes (lowBytes bytes x) = lowBytes bytes x := by
  rw [lowBytes_eq_iff, lowBytes_toNat, Nat.mod_mod]

theorem lowBytes_of_le {bytes : Nat} (hw : arch.bitsPerLong ≤ 8 * bytes) (x : ULong arch) : lowBytes bytes x = x := by
  apply BitVec.eq_of_toNat_eq
  rw [lowBytes_toNat]
  exact Nat.mod_eq_of_lt (x.isLt.trans_le (Nat.pow_le_pow_right (by decide) hw))

/-- The low bytes of a sum are those of the low bytes. -/
theorem lowBytes_add {bytes : Nat} {x y : ULong arch} (hxy : lowBytes bytes x = lowBytes bytes y) (z : ULong arch) :
    lowBytes bytes (x + z) = lowBytes bytes (y + z) := by
  rcases Nat.le_total (8 * bytes) arch.bitsPerLong with hw | hw
  · have hdvd : 2 ^ (8 * bytes) ∣ 2 ^ arch.bitsPerLong := Nat.pow_dvd_pow 2 hw
    rw [lowBytes_eq_iff] at hxy ⊢
    rw [BitVec.toNat_add, BitVec.toNat_add, Nat.mod_mod_of_dvd _ hdvd, Nat.mod_mod_of_dvd _ hdvd, Nat.add_mod, hxy,
      ← Nat.add_mod]
  · rw [lowBytes_of_le hw, lowBytes_of_le hw] at hxy
    rw [hxy]

theorem lowBytes_add_iff {bytes : Nat} {x y : ULong arch} (z : ULong arch) :
    lowBytes bytes (x + z) = lowBytes bytes (y + z) ↔ lowBytes bytes x = lowBytes bytes y := by
  constructor
  · intro heq
    have hback := lowBytes_add heq (-z)
    rwa [BitVec.add_assoc, BitVec.add_assoc, BitVec.add_right_neg, BitVec.add_zero, BitVec.add_zero] at hback
  · exact fun hxy => lowBytes_add hxy z

theorem lowBytes_sub (bytes : Nat) (x z : ULong arch) :
    lowBytes bytes (lowBytes bytes x - z) = lowBytes bytes (x - z) := by
  rw [BitVec.sub_eq_add_neg, BitVec.sub_eq_add_neg]
  exact lowBytes_add (lowBytes_lowBytes bytes x) _

/-- The casts to `s8`, `s16` and `s32`. -/
def signExtendBytes (bytes : Nat) (x : ULong arch) : ULong arch := (x.setWidth (8 * bytes)).signExtend _

/-- A pointer into `_regs`: to a register or to its second byte. -/
structure RegPtr where
  reg : RegIndex
  high : Bool
  deriving DecidableEq

def decodeRegister (modrmReg : RegIndex) (highbyteRegs : Bool) : RegPtr :=
  if highbyteRegs && 4 ≤ modrmReg && modrmReg < 8 then ⟨modrmReg &&& 3, true⟩ else ⟨modrmReg, false⟩

/-- The bytes at a pointer, which may go on in the next register. -/
def readReg (regs : RegIndex → ULong arch) (ptr : RegPtr) (bytes : Nat) : ULong arch :=
  lowBytes bytes (if ptr.high
    then (regs ptr.reg >>> 8) ||| (regs (ptr.reg + 1) <<< (arch.bitsPerLong - 8))
    else regs ptr.reg)

/-- The low bytes of `x` are stored at a pointer. -/
def storeReg (regs : RegIndex → ULong arch) (ptr : RegPtr) (bytes : Nat) (x : ULong arch) : RegIndex → ULong arch :=
  if ptr.high then
    let spill := lowMask arch bytes >>> (arch.bitsPerLong - 8)
    let next := (regs (ptr.reg + 1) &&& ~~~spill) ||| (lowBytes bytes x >>> (arch.bitsPerLong - 8))
    let this := (regs ptr.reg &&& ~~~(lowMask arch bytes <<< 8)) ||| (lowBytes bytes x <<< 8)
    Function.update (Function.update regs ptr.reg this) (ptr.reg + 1) next
  else Function.update regs ptr.reg (setLow bytes (regs ptr.reg) x)

/-- The switches that write a register operand: 4 bytes are extended to a word. -/
def writeRegister (regs : RegIndex → ULong arch) (ptr : RegPtr) (bytes : Nat) (x : ULong arch) :
    RegIndex → ULong arch :=
  match bytes with
  | 1 => storeReg regs ptr 1 x
  | 2 => storeReg regs ptr 2 x
  | 4 => storeReg regs ptr arch.sizeofLong (lowBytes 4 x)
  | 8 => storeReg regs ptr arch.sizeofLong x
  | _ => regs

/-! ### The opcode tables -/

def byteOp : BitVec 8 := 1#8 <<< 0
def implicitOps : BitVec 8 := 1#8 <<< 1
def dstReg : BitVec 8 := 2#8 <<< 1
def dstMem : BitVec 8 := 3#8 <<< 1
def dstMask : BitVec 8 := 3#8 <<< 1
def srcNone : BitVec 8 := 0#8 <<< 3
def srcImplicit : BitVec 8 := 0#8 <<< 3
def srcReg : BitVec 8 := 1#8 <<< 3
def srcMem : BitVec 8 := 2#8 <<< 3
def srcMem16 : BitVec 8 := 3#8 <<< 3
def srcMem32 : BitVec 8 := 4#8 <<< 3
def srcImm : BitVec 8 := 5#8 <<< 3
def srcImmByte : BitVec 8 := 6#8 <<< 3
def srcMask : BitVec 8 := 7#8 <<< 3
def modRM : BitVec 8 := 1#8 <<< 6
def movFlag : BitVec 8 := 1#8 <<< 7

/-- Eight opcodes of an arithmetic instruction. -/
def arithRow : List (BitVec 8) := [
  byteOp ||| dstMem ||| srcReg ||| modRM, dstMem ||| srcReg ||| modRM,
  byteOp ||| dstReg ||| srcMem ||| modRM, dstReg ||| srcMem ||| modRM,
  0, 0, 0, 0]

def noRow : List (BitVec 8) := [0, 0, 0, 0, 0, 0, 0, 0]

def opcodeTable : List (BitVec 8) :=
  -- 0x00 - 0x3F
  arithRow ++ arithRow ++ arithRow ++ arithRow ++ arithRow ++ arithRow ++ arithRow ++ arithRow ++
  -- 0x40 - 0x5F
  noRow ++ noRow ++ noRow ++ noRow ++
  -- 0x60 - 0x6F: movsxd
  [0, 0, 0, dstReg ||| srcMem32 ||| modRM ||| movFlag, 0, 0, 0, 0] ++ noRow ++
  -- 0x70 - 0x7F
  noRow ++ noRow ++
  -- 0x80 - 0x87
  [byteOp ||| dstMem ||| srcImm ||| modRM, dstMem ||| srcImm ||| modRM,
   byteOp ||| dstMem ||| srcImm ||| modRM, dstMem ||| srcImmByte ||| modRM,
   byteOp ||| dstMem ||| srcReg ||| modRM, dstMem ||| srcReg ||| modRM,
   byteOp ||| dstMem ||| srcReg ||| modRM, dstMem ||| srcReg ||| modRM] ++
  -- 0x88 - 0x8F
  [byteOp ||| dstMem ||| srcReg ||| modRM ||| movFlag, dstMem ||| srcReg ||| modRM ||| movFlag,
   byteOp ||| dstReg ||| srcMem ||| modRM ||| movFlag, dstReg ||| srcMem ||| modRM ||| movFlag,
   0, 0, 0, dstMem ||| srcNone ||| modRM ||| movFlag] ++
  -- 0x90 - 0x9F
  noRow ++ noRow ++
  -- 0xA0 - 0xA7
  [byteOp ||| dstReg ||| srcMem ||| movFlag, dstReg ||| srcMem ||| movFlag,
   byteOp ||| dstMem ||| srcReg ||| movFlag, dstMem ||| srcReg ||| movFlag,
   byteOp ||| implicitOps ||| movFlag, implicitOps ||| movFlag,
   byteOp ||| implicitOps, implicitOps] ++
  -- 0xA8 - 0xAF
  [0, 0, byteOp ||| implicitOps ||| movFlag, implicitOps ||| movFlag,
   byteOp ||| implicitOps ||| movFlag, implicitOps ||| movFlag,
   byteOp ||| implicitOps, implicitOps] ++
  -- 0xB0 - 0xBF
  noRow ++ noRow ++
  -- 0xC0 - 0xC7
  [byteOp ||| dstMem ||| srcImm ||| modRM, dstMem ||| srcImmByte ||| modRM, 0, 0,
   0, 0, byteOp ||| dstMem ||| srcImm ||| modRM ||| movFlag, dstMem ||| srcImm ||| modRM ||| movFlag] ++
  -- 0xC8 - 0xCF
  noRow ++
  -- 0xD0 - 0xD7
  [byteOp ||| dstMem ||| srcImplicit ||| modRM, dstMem ||| srcImplicit ||| modRM,
   byteOp ||| dstMem ||| srcImplicit ||| modRM, dstMem ||| srcImplicit ||| modRM,
   0, 0, 0, 0] ++
  -- 0xD8 - 0xEF
  noRow ++ noRow ++ noRow ++
  -- 0xF0 - 0xF7
  [0, 0, 0, 0, 0, 0, byteOp ||| dstMem ||| srcNone ||| modRM, dstMem ||| srcNone ||| modRM] ++
  -- 0xF8 - 0xFF
  [0, 0, 0, 0, 0, 0, byteOp ||| dstMem ||| srcNone ||| modRM, dstMem ||| srcNone ||| modRM]

def cmovEntry : BitVec 8 := dstReg ||| srcMem ||| modRM ||| movFlag

def twobyteTable : List (BitVec 8) :=
  -- 0x00 - 0x0F
  [0, srcMem ||| modRM ||| dstReg ||| movFlag, 0, 0, 0, 0, 0, 0,
   0, 0, 0, 0, 0, implicitOps ||| modRM, 0, 0] ++
  -- 0x10 - 0x1F
  noRow ++ [implicitOps ||| modRM, 0, 0, 0, 0, 0, 0, 0] ++
  -- 0x20 - 0x2F
  [implicitOps, 0, implicitOps, 0, 0, 0, 0, 0] ++ noRow ++
  -- 0x30 - 0x3F
  noRow ++ noRow ++
  -- 0x40 - 0x4F
  List.replicate 16 cmovEntry ++
  -- 0x50 - 0x9F
  noRow ++ noRow ++ noRow ++ noRow ++ noRow ++ noRow ++ noRow ++ noRow ++ noRow ++ noRow ++
  -- 0xA0 - 0xAF
  [0, 0, 0, dstMem ||| srcReg ||| modRM, 0, 0, 0, 0] ++ [0, 0, 0, dstMem ||| srcReg ||| modRM, 0, 0, 0, 0] ++
  -- 0xB0 - 0xB7
  [byteOp ||| dstMem ||| srcReg ||| modRM, dstMem ||| srcReg ||| modRM, 0, dstMem ||| srcReg ||| modRM,
   0, 0, byteOp ||| dstReg ||| srcMem ||| modRM ||| movFlag, dstReg ||| srcMem16 ||| modRM ||| movFlag] ++
  -- 0xB8 - 0xBF
  [0, 0, dstMem ||| srcImmByte ||| modRM, dstMem ||| srcReg ||| modRM,
   0, 0, byteOp ||| dstReg ||| srcMem ||| modRM ||| movFlag, dstReg ||| srcMem16 ||| modRM ||| movFlag] ++
  -- 0xC0 - 0xCF
  [0, 0, 0, 0, 0, 0, 0, implicitOps ||| modRM] ++ noRow ++
  -- 0xD0 - 0xFF
  noRow ++ noRow ++ noRow ++ noRow ++ noRow ++ noRow

/-- What one pass over a table finds of its entries. -/
theorem table_all {table : List (BitVec 8)} {P : BitVec 8 → BitVec 8 → Prop} [∀ b d, Decidable (P b d)]
    (hlen : table.length = 256) (hall : (table.zipIdx.all fun e => decide (P (BitVec.ofNat 8 e.2) e.1)) = true)
    (b : BitVec 8) : P b (table.getD b.toNat 0) := by
  have hb : b.toNat < table.length := by
    rw [hlen]
    exact b.isLt
  have hmem : (table[b.toNat], b.toNat) ∈ table.zipIdx := by
    rw [List.mem_zipIdx_iff_getElem?]
    exact List.getElem?_eq_getElem hb
  have hP := of_decide_eq_true (List.all_eq_true.1 hall _ hmem)
  rw [BitVec.ofNat_toNat, BitVec.setWidth_eq] at hP
  rw [List.getD, List.getElem?_eq_getElem hb]
  exact hP

theorem opcodeTable_length : opcodeTable.length = 256 := by decide +kernel

/-- The escape to the two-byte opcodes is no opcode itself. -/
theorem opcodeTable_escape : opcodeTable.getD (0x0f : BitVec 8).toNat 0 = 0 := rfl

theorem twobyteTable_length : twobyteTable.length = 256 := by decide +kernel

/-! ### A decoded instruction -/

/-- The local variables of `x86_emulate_memop` after the decoding.  `overrideBase` is the segment override prefix. -/
structure Insn (arch : Arch) where
  b : BitVec 8
  twobyte : Bool
  mode : X86EmulMode
  opBytes : Nat
  adBytes : Nat
  overrideBase : Option SegBase
  lockPrefix : Bool
  repPrefix : Bool
  rexPrefix : BitVec 8
  modrmReg : RegIndex
  modrmVal : ULong arch
  cr2 : ULong arch
  eip : ULong arch

/-- The decode flags of the opcode. -/
def Insn.d (i : Insn arch) : BitVec 8 := (if i.twobyte then twobyteTable else opcodeTable).getD i.b.toNat 0

def Insn.isByteOp (i : Insn arch) : Bool := i.d &&& byteOp != 0
def Insn.isMov (i : Insn arch) : Bool := i.d &&& movFlag != 0

/-- `(d & ByteOp) ? 1 : op_bytes`. -/
def Insn.operandBytes (i : Insn arch) : Nat := if i.isByteOp then 1 else i.opBytes

end LearnKvm
