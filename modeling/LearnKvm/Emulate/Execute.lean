import LearnKvm.Emulate.Decode

/-!
# The instructions of the emulator (`x86_emulate.c`)

The second half of `x86_emulate_memop`: the operands are fetched, the instruction computes on shadow copies of the
registers, the destination is written back, and the shadow copies are committed.

The arithmetic runs on the host: `HostCpu` says what the host's instructions leave in their destination and in EFLAGS.
Nothing is assumed of it.
-/

namespace LearnKvm

open Calls

variable {arch : Arch}

/-! ### Operands -/

/-- The type and the address of an operand. -/
inductive OperandPtr (arch : Arch) where
  | reg (ptr : RegPtr)
  | mem (addr : ULong arch)
  | imm
  deriving DecidableEq

structure Operand (arch : Arch) where
  ptr : OperandPtr arch
  bytes : Nat
  val : ULong arch
  origVal : ULong arch

def noOperand : Operand arch := ⟨.imm, 0, 0#_, 0#_⟩

/-- The shadow state while an instruction is executed.  `mov` is the flag Mov of `d`. -/
structure Exec (arch : Arch) where
  regs : RegIndex → ULong arch
  eip : ULong arch
  eflags : ULong arch
  dst : Operand arch
  src : Operand arch
  mov : Bool
  lockPrefix : Bool

namespace Exec

def setDst (x : Exec arch) (val : ULong arch) : Exec arch := { x with dst := { x.dst with val := val } }
def setSrc (x : Exec arch) (val : ULong arch) : Exec arch := { x with src := { x.src with val := val } }
def setReg (x : Exec arch) (r : RegIndex) (val : ULong arch) : Exec arch :=
  { x with regs := Function.update x.regs r val }

end Exec

/-! ### The host's arithmetic -/

def eflgOf : Nat := 1 <<< 11
def eflgDf : Nat := 1 <<< 10
def eflgSf : Nat := 1 <<< 7
def eflgZf : Nat := 1 <<< 6
def eflgAf : Nat := 1 <<< 4
def eflgPf : Nat := 1 <<< 2
def eflgCf : Nat := 1 <<< 0

def eflagsMask : Nat := eflgOf ||| eflgSf ||| eflgZf ||| eflgAf ||| eflgPf ||| eflgCf

inductive Op2 where
  | add | or | adc | sbb | and | sub | xor | cmp | test
  | rol | ror | rcl | rcr | sal | shr | sar
  | bt | btr | bts | btc
  deriving DecidableEq

/-- cmp, test and bt set the flags only. -/
def Op2.writesDst : Op2 → Bool
  | .cmp | .test | .bt => false
  | _ => true

inductive Op1 where
  | neg | inc | dec
  deriving DecidableEq

/-- What an instruction of the host makes of operands of some bytes and of EFLAGS. -/
structure HostCpu (arch : Arch) where
  op2 : Op2 → (bytes : Nat) → (src dst eflags : ULong arch) → ULong arch × ULong arch
  op1 : Op1 → (bytes : Nat) → (dst eflags : ULong arch) → ULong arch × ULong arch

/-- `_PRE_EFLAGS` and `_POST_EFLAGS`. -/
def mergeEflags (eflags new : ULong arch) : ULong arch :=
  (eflags &&& ~~~BitVec.ofNat _ eflagsMask) ||| (new &&& BitVec.ofNat _ eflagsMask)

def Exec.flag (x : Exec arch) (flags : Nat) : Bool := x.eflags &&& BitVec.ofNat _ flags != 0#_

/-- `emulate_2op_SrcV` and `emulate_2op_SrcB`. -/
def Exec.emulate2op (cpu : HostCpu arch) (op : Op2) (x : Exec arch) : Exec arch :=
  let r := cpu.op2 op x.dst.bytes x.src.val x.dst.val (x.eflags &&& BitVec.ofNat _ eflagsMask)
  { x.setDst (if op.writesDst then setLow x.dst.bytes x.dst.val r.1 else x.dst.val) with
    eflags := mergeEflags x.eflags r.2 }

/-- `emulate_2op_SrcV_nobyte`: nothing is done for a byte. -/
def Exec.emulate2opNobyte (cpu : HostCpu arch) (op : Op2) (x : Exec arch) : Exec arch :=
  if x.dst.bytes = 1 then x else x.emulate2op cpu op

/-- `emulate_1op`. -/
def Exec.emulate1op (cpu : HostCpu arch) (op : Op1) (x : Exec arch) : Exec arch :=
  let r := cpu.op1 op x.dst.bytes x.dst.val (x.eflags &&& BitVec.ofNat _ eflagsMask)
  { x.setDst (setLow x.dst.bytes x.dst.val r.1) with eflags := mergeEflags x.eflags r.2 }

/-! ### Fetching the operands -/

/-- The register operand that ModRM.reg names. -/
def modrmRegOperand (regs : RegIndex → ULong arch) (i : Insn arch) (byte : Bool) : Operand arch :=
  let ptr := decodeRegister i.modrmReg (byte && i.rexPrefix == 0)
  let bytes := if byte then 1 else i.opBytes
  ⟨.reg ptr, bytes, readReg regs ptr bytes, readReg regs ptr bytes⟩

/-- Decode and fetch the destination operand.  The test of `twobyte_table` in the source is always true. -/
def fetchDst (ctxt : X86EmulateCtxt arch) (i : Insn arch) : Emul arch (Operand arch) :=
  if i.d &&& dstMask = dstReg then
    return modrmRegOperand ctxt.regs i (i.isByteOp && !(i.b == 0xb6 || i.b == 0xb7))
  else if i.isMov then return ⟨.mem i.cr2, i.operandBytes, 0#_, 0#_⟩
  else do
    let val ← Emul.readEmulated i.cr2 i.operandBytes
    return ⟨.mem i.cr2, i.operandBytes, val, val⟩

/-- The size of an immediate. -/
def Insn.immBytes (i : Insn arch) : Nat := if i.operandBytes = 8 then 4 else i.operandBytes

def fetchMemSrc (i : Insn arch) (bytes : Nat) (eip : ULong arch) : Emul arch (Operand arch × ULong arch) := do
  let val ← Emul.readEmulated i.cr2 bytes
  return (⟨.mem i.cr2, bytes, val, val⟩, eip)

def fetchImmSrc (ctxt : X86EmulateCtxt arch) (bytes : Nat) (eip : ULong arch) :
    Emul arch (Operand arch × ULong arch) := do
  let (val, eip) ← fetchS ctxt bytes eip
  return (⟨.imm, bytes, val, 0#_⟩, eip)

/-- Decode and fetch the source operand, with the shadow instruction pointer after an immediate. -/
def fetchSrc (ctxt : X86EmulateCtxt arch) (i : Insn arch) : Emul arch (Operand arch × ULong arch) :=
  let s := i.d &&& srcMask
  if s = srcReg then return (modrmRegOperand ctxt.regs i i.isByteOp, i.eip)
  else if s = srcMem16 then fetchMemSrc i 2 i.eip
  else if s = srcMem32 then fetchMemSrc i 4 i.eip
  else if s = srcMem then fetchMemSrc i i.operandBytes i.eip
  else if s = srcImm then fetchImmSrc ctxt i.immBytes i.eip
  else if s = srcImmByte then fetchImmSrc ctxt 1 i.eip
  else return (noOperand, i.eip)

/-! ### Addresses held in registers -/

/-- `register_address`. -/
def registerAddress (adBytes : Nat) (base reg : ULong arch) : ULong arch :=
  base + (if adBytes = arch.sizeofLong then reg else lowBytes adBytes reg)

/-- `register_address_increment`. -/
def Exec.incrementReg (x : Exec arch) (adBytes : Nat) (r : RegIndex) (inc : Int) : Exec arch :=
  let new := x.regs r + BitVec.ofInt _ inc
  x.setReg r (if adBytes = arch.sizeofLong then new else setLow adBytes (x.regs r) new)

/-- The step of a string instruction: down if DF is set. -/
def Exec.stringStep (x : Exec arch) : Int := if x.flag eflgDf then -x.dst.bytes else x.dst.bytes

/-! ### One-byte opcodes -/

def inCase (b lo hi : BitVec 8) : Bool := lo ≤ b && b ≤ hi

theorem inCase_iff {b lo hi : BitVec 8} : inCase b lo hi = true ↔ lo ≤ b ∧ b ≤ hi := by
  unfold inCase
  rw [Bool.and_eq_true, decide_eq_true_eq, decide_eq_true_eq]

theorem inCase_pair {b lo hi : BitVec 8} (h : inCase b lo hi = true) (hnext : hi = lo + 1) : b = lo ∨ b = hi := by
  obtain ⟨hlo, hhi⟩ := inCase_iff.1 h
  bv_omega

/-- The values of three bits. -/
theorem and_seven_cases (b : BitVec 8) : b &&& 7 = 0 ∨ b &&& 7 = 1 ∨ b &&& 7 = 2 ∨ b &&& 7 = 3 ∨ b &&& 7 = 4 ∨
    b &&& 7 = 5 ∨ b &&& 7 = 6 ∨ b &&& 7 = 7 := by
  have h : (b &&& 7).toNat ≤ 7 := BitVec.toNat_and b 7 ▸ Nat.and_le_right
  bv_omega

def grp1Op (modrmReg : RegIndex) : Op2 :=
  if modrmReg = 0 then .add else if modrmReg = 1 then .or else if modrmReg = 2 then .adc
  else if modrmReg = 3 then .sbb else if modrmReg = 4 then .and else if modrmReg = 5 then .sub
  else if modrmReg = 6 then .xor else .cmp

def grp2Op (modrmReg : RegIndex) : Op2 :=
  if modrmReg = 0 then .rol else if modrmReg = 1 then .ror else if modrmReg = 2 then .rcl
  else if modrmReg = 3 then .rcr else if modrmReg = 5 then .shr else if modrmReg = 7 then .sar else .sal

/-- The switches over `modrm_reg` have cases for 0 to 7 only. -/
def Exec.grp (x : Exec arch) (cpu : HostCpu arch) (op : RegIndex → Op2) (modrmReg : RegIndex) : Exec arch :=
  if modrmReg < 8 then x.emulate2op cpu (op modrmReg) else x

/-- xchg: the register source gets the old memory value. -/
def Exec.xchg (x : Exec arch) : Exec arch :=
  let regs := match x.src.ptr with
    | .reg ptr => writeRegister x.regs ptr x.dst.bytes x.dst.val
    | _ => x.regs
  { x.setDst x.src.val with regs := regs, lockPrefix := true }

/-- pop: the value comes from the stack. -/
def popInsn (ctxt : X86EmulateCtxt arch) (i : Insn arch) (x : Exec arch) : Emul arch (Exec arch) := do
  let bytes := if i.mode = .prot64 then 8 else x.dst.bytes
  let val ← Emul.readStd (registerAddress i.adBytes ctxt.ssBase (x.regs vcpuRegsRsp)) bytes
  return { x with dst := { x.dst with bytes := bytes, val := val } }.incrementReg i.adBytes vcpuRegsRsp bytes

/-- The value that push stores, with its size: 64-bit mode reads the operand again. -/
def pushOperand (i : Insn arch) (x : Exec arch) : Emul arch (Exec arch) :=
  match i.mode, x.dst.ptr with
  | .prot64, .mem addr => do
    let val ← Emul.readStd addr 8
    return { x with dst := { x.dst with bytes := 8, val := val } }
  | _, _ => return x

/-- push stores on the stack, and the writeback is disabled. -/
def pushInsn (ctxt : X86EmulateCtxt arch) (i : Insn arch) (x : Exec arch) : Emul arch (Exec arch) := do
  let x ← pushOperand i x
  let x := x.incrementReg i.adBytes vcpuRegsRsp (-x.dst.bytes)
  Emul.writeStd (registerAddress i.adBytes ctxt.ssBase (x.regs vcpuRegsRsp)) x.dst.val x.dst.bytes
  return x.setDst x.dst.origVal

/-- Grp3: the test has an immediate source operand. -/
def grp3 (cpu : HostCpu arch) (ctxt : X86EmulateCtxt arch) (i : Insn arch) (x : Exec arch) : Emul arch (Exec arch) :=
  if i.modrmReg = 0 ∨ i.modrmReg = 1 then do
    let (src, eip) ← fetchImmSrc ctxt i.immBytes x.eip
    return { x with src := src, eip := eip }.emulate2op cpu .test
  else if i.modrmReg = 2 then return x.setDst (~~~x.dst.val)
  else if i.modrmReg = 3 then return x.emulate1op cpu .neg
  else .fail .cannotEmulate

/-- Grp4/Grp5. -/
def grp45 (cpu : HostCpu arch) (ctxt : X86EmulateCtxt arch) (i : Insn arch) (x : Exec arch) : Emul arch (Exec arch) :=
  if i.modrmReg = 0 then return x.emulate1op cpu .inc
  else if i.modrmReg = 1 then return x.emulate1op cpu .dec
  else if i.modrmReg = 6 then pushInsn ctxt i x
  else .fail .cannotEmulate

def onebyteInsn (cpu : HostCpu arch) (ctxt : X86EmulateCtxt arch) (i : Insn arch) (x : Exec arch) :
    Emul arch (Exec arch) :=
  let b := i.b
  if inCase b 0x00 0x05 then return x.emulate2op cpu .add
  else if inCase b 0x08 0x0d then return x.emulate2op cpu .or
  else if inCase b 0x10 0x15 then return x.emulate2op cpu .adc
  else if inCase b 0x18 0x1d then return x.emulate2op cpu .sbb
  else if inCase b 0x20 0x25 then return x.emulate2op cpu .and
  else if inCase b 0x28 0x2d then return x.emulate2op cpu .sub
  else if inCase b 0x30 0x35 then return x.emulate2op cpu .xor
  else if inCase b 0x38 0x3d then return x.emulate2op cpu .cmp
  else if b = 0x63 then
    if i.mode = .prot64 then return x.setDst (signExtendBytes 4 x.src.val) else .fail .cannotEmulate
  else if inCase b 0x80 0x83 then return x.grp cpu grp1Op i.modrmReg
  else if inCase b 0x84 0x85 then return x.emulate2op cpu .test
  else if inCase b 0x86 0x87 then return x.xchg
  else if inCase b 0xa0 0xa1 then
    return { x with
      dst := { x.dst with ptr := .reg ⟨vcpuRegsRax, false⟩, val := x.src.val }
      eip := x.eip + BitVec.ofNat _ i.adBytes }
  else if inCase b 0xa2 0xa3 then
    return { x.setDst (x.regs vcpuRegsRax) with eip := x.eip + BitVec.ofNat _ i.adBytes }
  else if inCase b 0x88 0x8b || inCase b 0xc6 0xc7 then return x.setDst x.src.val
  else if b = 0x8f then popInsn ctxt i x
  else if inCase b 0xc0 0xc1 then return x.grp cpu grp2Op i.modrmReg
  else if inCase b 0xd0 0xd1 then return (x.setSrc 1#_).grp cpu grp2Op i.modrmReg
  else if inCase b 0xd2 0xd3 then return (x.setSrc (x.regs vcpuRegsRcx)).grp cpu grp2Op i.modrmReg
  else if inCase b 0xf6 0xf7 then grp3 cpu ctxt i x
  else if inCase b 0xfe 0xff then grp45 cpu ctxt i x
  else return x

/-! ### Two-byte opcodes -/

/-- `read_descriptor`: the limit and the base of a descriptor table. -/
def readDescriptor (ptr : ULong arch) (opBytes : Nat) : Emul arch (BitVec 16 × ULong arch) := do
  let opBytes := if opBytes = 2 then 3 else opBytes
  let size ← Emul.readStd ptr 2
  let address ← Emul.readStd (ptr + 2#_) opBytes
  return (size.setWidth 16, address)

/-- The linear address of the source operand of lgdt and lidt. -/
def Operand.addr (o : Operand arch) : ULong arch :=
  match o.ptr with
  | .mem addr => addr
  | _ => 0#_

/-- lgdt, lidt, lmsw. -/
def grp7 (i : Insn arch) (x : Exec arch) : Emul arch (Exec arch) :=
  if i.modrmReg = 2 then do
    let (size, address) ← readDescriptor x.src.addr i.opBytes
    Emul.realmodeLgdt size address
    return x
  else if i.modrmReg = 3 then do
    let (size, address) ← readDescriptor x.src.addr i.opBytes
    Emul.realmodeLidt size address
    return x
  else if i.modrmReg = 6 then do
    let eflags ← Emul.realmodeLmsw (lowBytes 2 i.modrmVal) x.eflags
    return { x with eflags := eflags }
  else .fail .cannotEmulate

/-- The condition of an even cmov opcode. -/
def cmovCond (b : BitVec 8) (x : Exec arch) : Bool :=
  let cond := (b &&& 15) >>> 1
  let less := !x.flag eflgSf != !x.flag eflgOf
  if cond = 0 then x.flag eflgOf
  else if cond = 1 then x.flag eflgCf
  else if cond = 2 then x.flag eflgZf
  else if cond = 3 then x.flag (eflgCf ||| eflgZf)
  else if cond = 4 then x.flag eflgSf
  else if cond = 5 then x.flag eflgPf
  else if cond = 7 then x.flag eflgZf || less
  else less

/-- cmov: odd opcodes have the inverted sense. -/
def Exec.cmov (x : Exec arch) (b : BitVec 8) : Exec arch :=
  { x with
    dst := { x.dst with val := x.src.val, origVal := x.src.val }
    mov := cmovCond b x ^^ (b &&& 1 != 0) }

/-- cmpxchg: success writes the source to the destination, failure the destination to the accumulator. -/
def Exec.cmpxchg (cpu : HostCpu arch) (x : Exec arch) : Exec arch :=
  let src := x.src.val
  let y := { (x.setSrc (x.regs vcpuRegsRax)).emulate2op cpu .cmp with mov := true }
  if y.flag eflgZf then y.setDst src else { y with dst := { y.dst with ptr := .reg ⟨vcpuRegsRax, false⟩ } }

/-- bt, bts, btr and btc: only the subword offset. -/
def Exec.bitOp (cpu : HostCpu arch) (op : Op2) (x : Exec arch) : Exec arch :=
  (x.setSrc (x.src.val &&& (BitVec.ofNat _ (x.dst.bytes <<< 3) - 1#_))).emulate2opNobyte cpu op

def grp8Op (modrmReg : RegIndex) : Op2 :=
  let op := modrmReg &&& 3
  if op = 0 then .bt else if op = 1 then .bts else if op = 2 then .btr else .btc

def twobyteInsn (cpu : HostCpu arch) (i : Insn arch) (x : Exec arch) : Emul arch (Exec arch) :=
  let b := i.b
  if b = 0x01 then grp7 i x
  else if inCase b 0x40 0x4f then return x.cmov b
  else if inCase b 0xb0 0xb1 then return x.cmpxchg cpu
  else if b = 0xa3 then return x.bitOp cpu .bt
  else if b = 0xb3 then return x.bitOp cpu .btr
  else if b = 0xab then return x.bitOp cpu .bts
  else if inCase b 0xb6 0xb7 then
    return { x with dst := { x.dst with
      bytes := i.opBytes, val := if i.isByteOp then lowBytes 1 x.src.val else lowBytes 2 x.src.val } }
  else if b = 0xbb then return x.bitOp cpu .btc
  else if b = 0xba then return x.bitOp cpu (grp8Op i.modrmReg)
  else if inCase b 0xbe 0xbf then
    return { x with dst := { x.dst with
      bytes := i.opBytes, val := if i.isByteOp then signExtendBytes 1 x.src.val else signExtendBytes 2 x.src.val } }
  else return x

/-! ### Special instructions -/

/-- The start of a special instruction: no operands were fetched. -/
def specialExec (ctxt : X86EmulateCtxt arch) (i : Insn arch) : Exec arch :=
  ⟨ctxt.regs, i.eip, ctxt.eflags, noOperand, noOperand, i.isMov, i.lockPrefix⟩

/-- The REP prefix: one iteration is counted, and the instruction is executed again. -/
def repeatInsn (ctxt : X86EmulateCtxt arch) (i : Insn arch) (x : Exec arch) : Emul arch (Exec arch) :=
  if i.repPrefix then
    if x.regs vcpuRegsRcx = 0#_ then .fail (.repDone x.eip)
    else return { x.setReg vcpuRegsRcx (x.regs vcpuRegsRcx - 1#_) with eip := ctxt.rip }
  else return x

def movs (ctxt : X86EmulateCtxt arch) (i : Insn arch) (x : Exec arch) : Emul arch (Exec arch) := do
  let dst := registerAddress i.adBytes ctxt.esBase (x.regs vcpuRegsRdi)
  let srcBase := match i.overrideBase with
    | some seg => ctxt.base seg
    | none => ctxt.dsBase
  let val ← Emul.readEmulated (registerAddress i.adBytes srcBase (x.regs vcpuRegsRsi)) i.operandBytes
  let x := { x with dst := ⟨.mem dst, i.operandBytes, val, x.dst.origVal⟩ }
  let x := x.incrementReg i.adBytes vcpuRegsRsi x.stringStep
  return x.incrementReg i.adBytes vcpuRegsRdi x.stringStep

def stos (i : Insn arch) (x : Exec arch) : Exec arch :=
  let x := { x with dst := ⟨.mem i.cr2, i.operandBytes, x.regs vcpuRegsRax, x.dst.origVal⟩ }
  x.incrementReg i.adBytes vcpuRegsRdi x.stringStep

def lods (i : Insn arch) (x : Exec arch) : Emul arch (Exec arch) := do
  let val ← Emul.readEmulated i.cr2 i.operandBytes
  let x := { x with dst := ⟨.reg ⟨vcpuRegsRax, false⟩, i.operandBytes, val, x.dst.origVal⟩ }
  return x.incrementReg i.adBytes vcpuRegsRsi x.stringStep

def specialInsn (ctxt : X86EmulateCtxt arch) (i : Insn arch) : Emul arch (Exec arch) := do
  let x ← repeatInsn ctxt i (specialExec ctxt i)
  if inCase i.b 0xa4 0xa5 then movs ctxt i x
  else if inCase i.b 0xa6 0xa7 then .fail .cannotEmulate
  else if inCase i.b 0xaa 0xab then return stos i x
  else if inCase i.b 0xac 0xad then lods i x
  else if inCase i.b 0xae 0xaf then .fail .cannotEmulate
  else return x

/-- The ModRM byte of mov from and to a control register. -/
def crModrm (ctxt : X86EmulateCtxt arch) (eip : ULong arch) : Emul arch (BitVec 8 × ULong arch) := do
  let (b, eip) ← fetchByte ctxt eip
  if b &&& 0xc0 ≠ 0xc0 then .fail .cannotEmulate else return (b, eip)

def crReg (b : BitVec 8) : RegIndex := ((b >>> 3) &&& 7).setWidth 4

/-- mov cr, reg. -/
def movFromCr (ctxt : X86EmulateCtxt arch) (x : Exec arch) : Emul arch (Exec arch) := do
  let (b, eip) ← crModrm ctxt x.eip
  let val ← Emul.realmodeGetCr (b &&& 7)
  return { x.setReg (crReg b) val with eip := eip }

/-- mov reg, cr. -/
def movToCr (ctxt : X86EmulateCtxt arch) (x : Exec arch) : Emul arch (Exec arch) := do
  let (b, eip) ← crModrm ctxt x.eip
  let eflags ← Emul.realmodeSetCr (b &&& 7) (lowBytes 4 (x.regs (crReg b))) x.eflags
  return { x with eip := eip, eflags := eflags }

def Exec.clearZf (x : Exec arch) : Exec arch := { x with eflags := x.eflags &&& ~~~BitVec.ofNat _ eflgZf }
def Exec.setZf (x : Exec arch) : Exec arch := { x with eflags := x.eflags ||| BitVec.ofNat _ eflgZf }

/-- cmpxchg8b on an i386 host.  `hasCmpxchg8b`: the callback is not NULL. -/
def cmpxchg8bI386 (hasCmpxchg8b : Bool) (i : Insn arch) (x : Exec arch) : Emul arch (Exec arch) := do
  let oldLo ← Emul.readEmulated i.cr2 4
  let oldHi ← Emul.readEmulated (i.cr2 + 4#_) 4
  if oldLo ≠ x.regs vcpuRegsRax ∨ oldHi ≠ x.regs vcpuRegsRdi then
    return ((x.setReg vcpuRegsRax oldLo).setReg vcpuRegsRdx oldHi).clearZf
  else if !hasCmpxchg8b then .fail (.done .unhandleable)
  else do
    Emul.cmpxchg8bEmulated i.cr2 oldLo oldHi (x.regs vcpuRegsRbx) (x.regs vcpuRegsRcx)
    return x.setZf

/-- cmpxchg8b on an x86_64 host. -/
def cmpxchg8bX86_64 (i : Insn arch) (x : Exec arch) : Emul arch (Exec arch) := do
  let old ← Emul.readEmulated i.cr2 8
  if lowBytes 4 old ≠ lowBytes 4 (x.regs vcpuRegsRax) ∨ lowBytes 4 (old >>> 32) ≠ lowBytes 4 (x.regs vcpuRegsRdx) then
    return ((x.setReg vcpuRegsRax (lowBytes 4 old)).setReg vcpuRegsRdx (lowBytes 4 (old >>> 32))).clearZf
  else do
    let new := (x.regs vcpuRegsRcx <<< 32) ||| lowBytes 4 (x.regs vcpuRegsRbx)
    Emul.cmpxchgEmulated i.cr2 old new 8
    return x.setZf

def cmpxchg8b (hasCmpxchg8b : Bool) (i : Insn arch) (x : Exec arch) : Emul arch (Exec arch) :=
  if arch = .i386 then cmpxchg8bI386 hasCmpxchg8b i x else cmpxchg8bX86_64 i x

/-- The writeback is disabled: the values of the destination are equal. -/
def twobyteSpecialInsn (hasCmpxchg8b : Bool) (ctxt : X86EmulateCtxt arch) (i : Insn arch) : Emul arch (Exec arch) :=
  let x := specialExec ctxt i
  if i.b = 0x20 then movFromCr ctxt x
  else if i.b = 0x22 then movToCr ctxt x
  else if i.b = 0xc7 then cmpxchg8b hasCmpxchg8b i x
  else return x

/-! ### Writeback and commit -/

def execute (cpu : HostCpu arch) (hasCmpxchg8b : Bool) (ctxt : X86EmulateCtxt arch) (i : Insn arch) :
    Emul arch (Exec arch) :=
  if i.d &&& dstMask = implicitOps then
    if i.twobyte then twobyteSpecialInsn hasCmpxchg8b ctxt i else specialInsn ctxt i
  else do
    let dst ← fetchDst ctxt i
    let (src, eip) ← fetchSrc ctxt i
    let x : Exec arch := ⟨ctxt.regs, eip, ctxt.eflags, dst, src, i.isMov, i.lockPrefix⟩
    if i.twobyte then twobyteInsn cpu i x else onebyteInsn cpu ctxt i x

def writeback (x : Exec arch) : Emul arch (Exec arch) :=
  if x.mov || x.dst.origVal != x.dst.val then
    match x.dst.ptr with
    | .reg ptr => return { x with regs := writeRegister x.regs ptr x.dst.bytes x.dst.val }
    | .mem addr => do
      if x.lockPrefix then Emul.cmpxchgEmulated addr x.dst.origVal x.dst.val x.dst.bytes
      else Emul.writeEmulated addr x.dst.val x.dst.bytes
      return x
    | .imm => return x
  else return x

/-- A writeback to memory is one call. -/
theorem writeback_call {y : Exec arch} {addr : ULong arch} (hptr : y.dst.ptr = .mem addr)
    (hw : (y.mov || y.dst.origVal != y.dst.val) = true) :
    writeback y = (if y.lockPrefix then Emul.cmpxchgEmulated addr y.dst.origVal y.dst.val y.dst.bytes
      else Emul.writeEmulated addr y.dst.val y.dst.bytes) >>= fun _ => .ret y := by
  unfold writeback
  rw [if_pos hw, hptr]
  cases y.lockPrefix <;> rfl

/-- Everything up to the commit. -/
def emulate (cpu : HostCpu arch) (hasCmpxchg8b : Bool) (ctxt : X86EmulateCtxt arch) : Emul arch (Exec arch) := do
  let i ← decode ctxt
  let x ← execute cpu hasCmpxchg8b ctxt i
  writeback x

/-- The commit, or the exit without it: the return code, and the registers and flags afterwards. -/
def X86EmulateCtxt.finish (ctxt : X86EmulateCtxt arch) : Except (Exit arch) (Exec arch) → Int × X86EmulateCtxt arch
  | .ok x => (0, { ctxt with regs := x.regs, rip := x.eip, eflags := x.eflags })
  | .error (.done .unhandleable) => (-1, ctxt)
  | .error (.done .propagateFault) => (0, ctxt)
  | .error .cannotEmulate => (-1, ctxt)
  | .error (.repDone eip) => (0, { ctxt with rip := eip })

/-- `x86_emulate_memop` with the callbacks `h`. -/
def x86EmulateMemop {σ : Type} (h : (c : OpCall arch) → σ → OpReply arch c × σ) (cpu : HostCpu arch)
    (hasCmpxchg8b : Bool) (ctxt : X86EmulateCtxt arch) (s : σ) : Int × X86EmulateCtxt arch × σ :=
  let o := (emulate cpu hasCmpxchg8b ctxt).run h s
  let r := ctxt.finish o.result
  (r.1, r.2, o.state)

end LearnKvm
