import LearnKvm.Emulate.Insn

/-!
# The instruction decoder (`x86_emulate.c`)

The first half of `x86_emulate_memop`: the prefixes, the opcode, and the ModRM and SIB bytes with the address of the
memory operand.  The decoder only reads: every call that it makes is a fetch with `read_std`.
-/

namespace LearnKvm

open Calls

variable {arch : Arch}

/-! ### Fetching -/

/-- `insn_fetch`: the next bytes of the instruction, and the shadow instruction pointer after them. -/
def insnFetch (ctxt : X86EmulateCtxt arch) (size : Nat) (eip : ULong arch) : Emul arch (ULong arch × ULong arch) := do
  let x ← Emul.readStd (eip + ctxt.csBase) size
  return (x, eip + BitVec.ofNat _ size)

/-- `insn_fetch` of a `u8` or a `u16`. -/
def fetchU (ctxt : X86EmulateCtxt arch) (size : Nat) (eip : ULong arch) : Emul arch (ULong arch × ULong arch) := do
  let (x, eip) ← insnFetch ctxt size eip
  return (lowBytes size x, eip)

/-- `insn_fetch` of an `s8`, an `s16` or an `s32`. -/
def fetchS (ctxt : X86EmulateCtxt arch) (size : Nat) (eip : ULong arch) : Emul arch (ULong arch × ULong arch) := do
  let (x, eip) ← insnFetch ctxt size eip
  return (signExtendBytes size x, eip)

def fetchByte (ctxt : X86EmulateCtxt arch) (eip : ULong arch) : Emul arch (BitVec 8 × ULong arch) := do
  let (x, eip) ← insnFetch ctxt 1 eip
  return (x.setWidth 8, eip)

/-! ### Prefixes -/

/-- The local variables while the prefixes are read. -/
structure Prefixes (arch : Arch) where
  b : BitVec 8
  opBytes : Nat
  adBytes : Nat
  overrideBase : Option SegBase
  lockPrefix : Bool
  repPrefix : Bool
  eip : ULong arch

/-- One round of the switch over the legacy prefixes, `none` for `goto done_prefixes`. -/
def legacyPrefix (mode : X86EmulMode) (p : Prefixes arch) : Option (Prefixes arch) :=
  if p.b = 0x66 then some { p with opBytes := p.opBytes ^^^ 6 }
  else if p.b = 0x67 then some { p with adBytes := p.adBytes ^^^ (if mode = .prot64 then 12 else 6) }
  else if p.b = 0x2e then some { p with overrideBase := some .cs }
  else if p.b = 0x3e then some { p with overrideBase := some .ds }
  else if p.b = 0x26 then some { p with overrideBase := some .es }
  else if p.b = 0x64 then some { p with overrideBase := some .fs }
  else if p.b = 0x65 then some { p with overrideBase := some .gs }
  else if p.b = 0x36 then some { p with overrideBase := some .ss }
  else if p.b = 0xf0 then some { p with lockPrefix := true }
  else if p.b = 0xf3 then some { p with repPrefix := true }
  else if p.b = 0xf2 then some p
  else none

/-- The loop over the legacy prefixes, with the number of rounds that are left. -/
def legacyPrefixes (ctxt : X86EmulateCtxt arch) : Nat → Prefixes arch → Emul arch (Prefixes arch)
  | 0, p => .ret p
  | i + 1, p => do
    let (b, eip) ← fetchByte ctxt p.eip
    let p := { p with b := b, eip := eip }
    match legacyPrefix ctxt.mode p with
    | some p => legacyPrefixes ctxt i p
    | none => return p

/-- The bits of the REX prefix, at the places where the register numbers have them. -/
structure RexBits where
  rexPrefix : BitVec 8
  modrmReg : RegIndex
  indexReg : RegIndex
  modrmRm : RegIndex

def noRex : RexBits := ⟨0, 0, 0, 0⟩

def rexBits (b : BitVec 8) : RexBits where
  rexPrefix := b
  modrmReg := ((b &&& 4) <<< 1).setWidth 4
  indexReg := ((b &&& 2) <<< 2).setWidth 4
  modrmRm := ((b &&& 1) <<< 3).setWidth 4

def rexPrefix (ctxt : X86EmulateCtxt arch) (p : Prefixes arch) : Emul arch (Prefixes arch × RexBits) :=
  if ctxt.mode = .prot64 ∧ p.b &&& 0xf0 = 0x40 then do
    let (b, eip) ← fetchByte ctxt p.eip
    return ({ p with b := b, eip := eip, opBytes := if p.b &&& 8 ≠ 0 then 8 else p.opBytes }, rexBits p.b)
  else return (p, noRex)

/-- The operand and address sizes of a mode, `none` for a mode that the host does not have. -/
def modeBytes (arch : Arch) : X86EmulMode → Option (Nat × Nat)
  | .real | .prot16 => some (2, 2)
  | .prot32 => some (4, 4)
  | .prot64 => if arch = .x86_64 then some (4, 8) else none

/-! ### ModRM and SIB -/

/-- The displacement that the mod field asks for. -/
def modrmDisp16 (ctxt : X86EmulateCtxt arch) (modrmMod : BitVec 2) (modrmRm : RegIndex) (eip : ULong arch) :
    Emul arch (ULong arch × ULong arch) :=
  if modrmMod = 0 then if modrmRm = 6 then fetchU ctxt 2 eip else return (0#_, eip)
  else if modrmMod = 1 then fetchS ctxt 1 eip
  else fetchU ctxt 2 eip

/-- The registers of the 16-bit address, which are summed as 32-bit values. -/
def modrmRegs16 (regs : RegIndex → ULong arch) (modrmMod : BitVec 2) (modrmRm : RegIndex) : ULong arch :=
  let bx := lowBytes 4 (regs vcpuRegsRbx)
  let bp := lowBytes 4 (regs vcpuRegsRbp)
  let si := lowBytes 4 (regs vcpuRegsRsi)
  let di := lowBytes 4 (regs vcpuRegsRdi)
  if modrmRm = 0 then lowBytes 4 (bx + si)
  else if modrmRm = 1 then lowBytes 4 (bx + di)
  else if modrmRm = 2 then lowBytes 4 (bp + si)
  else if modrmRm = 3 then lowBytes 4 (bp + di)
  else if modrmRm = 4 then si
  else if modrmRm = 5 then di
  else if modrmRm = 6 then (if modrmMod ≠ 0 then bp else 0#_)
  else if modrmRm = 7 then bx
  else 0#_

/-- 16-bit ModR/M decode: the address, the shadow instruction pointer and the segment. -/
def modrmEa16 (ctxt : X86EmulateCtxt arch) (modrmMod : BitVec 2) (modrmRm : RegIndex) (overrideBase : Option SegBase)
    (eip : ULong arch) : Emul arch (ULong arch × ULong arch × Option SegBase) := do
  let (disp, eip) ← modrmDisp16 ctxt modrmMod modrmRm eip
  let stackBase := modrmRm = 2 ∨ modrmRm = 3 ∨ modrmRm = 6 ∧ modrmMod ≠ 0
  return (lowBytes 2 (disp + modrmRegs16 ctxt.regs modrmMod modrmRm), eip,
    if stackBase ∧ overrideBase = none then some .ss else overrideBase)

/-- The base register of the SIB byte, or a displacement in its place. -/
def sibBase (ctxt : X86EmulateCtxt arch) (modrmMod : BitVec 2) (baseReg : RegIndex) (eip : ULong arch) :
    Emul arch (ULong arch × ULong arch) :=
  if baseReg = 5 ∧ modrmMod = 0 then fetchS ctxt 4 eip else return (ctxt.regs baseReg, eip)

/-- The SIB byte: base and scaled index. -/
def sibEa (ctxt : X86EmulateCtxt arch) (modrmMod : BitVec 2) (rex : RexBits) (eip : ULong arch) :
    Emul arch (ULong arch × ULong arch) := do
  let (sib, eip) ← fetchByte ctxt eip
  let indexReg := rex.indexReg ||| ((sib >>> 3) &&& 7).setWidth 4
  let baseReg := rex.modrmRm ||| (sib &&& 7).setWidth 4
  let scale := (sib >>> 6).toNat
  let (base, eip) ← sibBase ctxt modrmMod baseReg eip
  let index := if indexReg = 4 then 0#_ else ctxt.regs indexReg <<< scale
  return (base + index, eip)

def modrmDisp32 (ctxt : X86EmulateCtxt arch) (modrmMod : BitVec 2) (modrmRm : RegIndex) (eip : ULong arch) :
    Emul arch (ULong arch × ULong arch) :=
  if modrmMod = 0 then if modrmRm = 5 then fetchS ctxt 4 eip else return (0#_, eip)
  else if modrmMod = 1 then fetchS ctxt 1 eip
  else fetchS ctxt 4 eip

/-- The base of the 32- or 64-bit address and `rip_relative`. -/
def modrmBase32 (ctxt : X86EmulateCtxt arch) (modrmMod : BitVec 2) (modrmRm : RegIndex) (rex : RexBits)
    (eip : ULong arch) : Emul arch (ULong arch × ULong arch × Bool) :=
  if modrmRm = 4 ∨ modrmRm = 12 then do
    let (base, eip) ← sibEa ctxt modrmMod rex eip
    return (base, eip, false)
  else if modrmRm = 5 ∧ modrmMod = 0 then return (0#_, eip, decide (ctxt.mode = .prot64))
  else return (ctxt.regs modrmRm, eip, false)

/-- 32/64-bit ModR/M decode: the address, the shadow instruction pointer and `rip_relative`. -/
def modrmEa32 (ctxt : X86EmulateCtxt arch) (modrmMod : BitVec 2) (modrmRm : RegIndex) (rex : RexBits)
    (eip : ULong arch) : Emul arch (ULong arch × ULong arch × Bool) := do
  let (base, eip, ripRelative) ← modrmBase32 ctxt modrmMod modrmRm rex eip
  let (disp, eip) ← modrmDisp32 ctxt modrmMod modrmRm eip
  return (base + disp, eip, ripRelative)

/-- The address before the segment base, by the address size. -/
def modrmEa (ctxt : X86EmulateCtxt arch) (p : Prefixes arch) (modrmMod : BitVec 2) (modrmRm : RegIndex) (rex : RexBits)
    (eip : ULong arch) : Emul arch (ULong arch × ULong arch × Option SegBase × Bool) :=
  if p.adBytes = 2 then do
    let (ea, eip, overrideBase) ← modrmEa16 ctxt modrmMod modrmRm p.overrideBase eip
    return (ea, eip, overrideBase, false)
  else do
    let (ea, eip, ripRelative) ← modrmEa32 ctxt modrmMod modrmRm rex eip
    return (ea, eip, p.overrideBase, ripRelative)

/-- The base that is added to the offset.  64-bit mode has only the bases of FS and GS. -/
def modrmBase (ctxt : X86EmulateCtxt arch) (overrideBase : Option SegBase) : ULong arch :=
  let seg := overrideBase.getD .ds
  if ctxt.mode = .prot64 ∧ seg ≠ .fs ∧ seg ≠ .gs then 0#_ else ctxt.base seg

/-- The size of the immediate that follows, for an address relative to the next instruction. -/
def immediateBytes (d : BitVec 8) (opBytes : Nat) : Nat :=
  if d &&& srcMask = srcImmByte then 1
  else if d &&& srcMask = srcImm then
    if d &&& byteOp ≠ 0 then 1 else if opBytes = 8 then 4 else opBytes
  else 0

/-- ModRM and SIB bytes: `modrm_reg`, `modrm_val`, `cr2` and the shadow instruction pointer. -/
def decodeModrm (ctxt : X86EmulateCtxt arch) (p : Prefixes arch) (rex : RexBits) (d : BitVec 8) :
    Emul arch (RegIndex × ULong arch × ULong arch × ULong arch) := do
  let (modrm, eip) ← fetchByte ctxt p.eip
  let modrmMod : BitVec 2 := ((modrm &&& 0xc0) >>> 6).setWidth 2
  let modrmReg := rex.modrmReg ||| ((modrm &&& 0x38) >>> 3).setWidth 4
  let modrmRm := rex.modrmRm ||| (modrm &&& 0x07).setWidth 4
  if modrmMod = 3 then
    return (modrmReg, readReg ctxt.regs (decodeRegister modrmRm (d &&& byteOp != 0)) arch.sizeofLong, ctxt.cr2, eip)
  else do
    let (ea, eip, overrideBase, ripRelative) ← modrmEa ctxt p modrmMod modrmRm rex eip
    let ea := ea + modrmBase ctxt overrideBase
    let ea := if ripRelative then ea + eip + BitVec.ofNat _ (immediateBytes d p.opBytes) else ea
    return (modrmReg, 0#_, if p.adBytes ≠ 8 then lowBytes 4 ea else ea, eip)

/-! ### The decoder -/

/-- Opcode byte(s): the last byte, whether there are two, and the shadow instruction pointer. -/
def decodeOpcode (ctxt : X86EmulateCtxt arch) (p : Prefixes arch) : Emul arch (BitVec 8 × Bool × ULong arch) :=
  if opcodeTable.getD p.b.toNat 0 = 0 then
    if p.b = 0x0f then do
      let (b, eip) ← fetchByte ctxt p.eip
      if twobyteTable.getD b.toNat 0 = 0 then .fail .cannotEmulate else return (b, true, eip)
    else .fail .cannotEmulate
  else return (p.b, false, p.eip)

def decode (ctxt : X86EmulateCtxt arch) : Emul arch (Insn arch) :=
  match modeBytes arch ctxt.mode with
  | none => .fail .cannotEmulate
  | some (opBytes, adBytes) => do
    let p ← legacyPrefixes ctxt 8 ⟨0, opBytes, adBytes, none, false, false, ctxt.rip⟩
    let (p, rex) ← rexPrefix ctxt p
    let (b, twobyte, eip) ← decodeOpcode ctxt p
    let insn : Insn arch := {
      b := b, twobyte := twobyte, mode := ctxt.mode, opBytes := p.opBytes, adBytes := p.adBytes
      overrideBase := p.overrideBase, lockPrefix := p.lockPrefix, repPrefix := p.repPrefix
      rexPrefix := rex.rexPrefix, modrmReg := rex.modrmReg, modrmVal := 0#_, cr2 := ctxt.cr2, eip := eip }
    if insn.d &&& modRM ≠ 0 then do
      let (modrmReg, modrmVal, cr2, eip) ← decodeModrm ctxt { p with eip := eip } rex insn.d
      return { insn with modrmReg := modrmReg, modrmVal := modrmVal, cr2 := cr2, eip := eip }
    else return insn

end LearnKvm
