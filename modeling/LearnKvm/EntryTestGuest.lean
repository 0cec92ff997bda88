import LearnKvm.Emulate.Instruction
import LearnKvm.Lib.Checklist
import LearnKvm.Pdptrs

/-!
# The check of the guest state before an entry (`debug.c`)

`vm_entry_test_guest` goes through the rules for the guest state in a VMCS and returns 0 at the first that is broken, with a
message that says which.  `GuestStateRules` states the rules as the messages have them, and `vmEntryTestGuest_sound_iff` says
for which states the result 1 can be relied on.

A natural-width field is an `unsigned long` of the host: `readl` widens it to 64 bits, with the upper half empty on a 32-bit
host.
-/

namespace LearnKvm

namespace EntryTest

open Checklist

variable (arch : Arch) (mem : ByteMem.Mem 64) (v : Vmcs)

/-! ### Accesses and masks -/

/-- `vmcs_readl` on either host. -/
def readl (field : VmcsField) : BitVec 64 := ((vmcsReadl v field).setWidth arch.bitsPerLong).setWidth 64

/-- `vmcs_read64` of a field whose upper half on a 32-bit host is the field `high`. -/
def read64 (field high : VmcsField) : BitVec 64 :=
  match arch with
  | .x86_64 => readl arch v field
  | .i386 => readl arch v field ||| readl arch v high <<< 32

def ia32DebugctlReservedBits : BitVec 64 := 0xfffffffffffffe3c#64

def rflagsVm : BitVec 64 := 1#64 <<< 17
def rflagsRf : BitVec 64 := 1#64 <<< 9
def rflagsReservedClearBits : BitVec 64 :=
  ~~~(1#64 <<< 22 - 1#64) ||| 1#64 <<< 15 ||| 1#64 <<< 5 ||| 1#64 <<< 3
def rflagsReservedSetBits : BitVec 64 := 1#64 <<< 1

def selectorTiMask : BitVec 16 := 1#16 <<< 2

def arTypeAccessesMask : BitVec 32 := 1#32 <<< 0
def arTypeReadableMask : BitVec 32 := 1#32 <<< 1
def arTypeCodeMask : BitVec 32 := 1#32 <<< 3
def arTypeBusy32Tss : BitVec 32 := 11#32
def arTypeBusy16Tss : BitVec 32 := 3#32
def arTypeLdt : BitVec 32 := 2#32
def arSMask : BitVec 32 := 1#32 <<< 4
def arPMask : BitVec 32 := 1#32 <<< 7
def arGMask : BitVec 32 := 1#32 <<< 15
def arUnusableMask : BitVec 32 := 1#32 <<< 16
def arReservdMask : BitVec 32 := 0xfffe0f00#32

/-- `AR_DPL`, to be compared with a selector. -/
def arDpl (ar : BitVec 32) : BitVec 16 := ((ar >>> 5) &&& 3#32).setWidth 16

def isCanonical (addr : BitVec 64) : Bool :=
  match arch with
  | .x86_64 => addr == (addr <<< 16).sshiftRight 16
  | .i386 => addr.setWidth 32 == (addr.setWidth 32 <<< 16).sshiftRight 16

def segName : Segment → String
  | .cs => "CS" | .ss => "SS" | .ds => "DS" | .es => "ES"
  | .fs => "FS" | .gs => "GS" | .tr => "TR" | .ldtr => "LDTR"

/-! ### The macros -/

def vir8086SegBaseTest (seg : Segment) : Check :=
  failIf (readl arch v seg.base != (vmcsRead16 v seg.selector).setWidth 64 <<< 4)
    (segName seg ++ " base in virtual8086 is not " ++ segName seg ++ " selector shifted right 4 bits")

def vir8086SegLimitTest (seg : Segment) : Check :=
  failIf (readl arch v seg.limit != 0x0ffff) (segName seg ++ " limit in virtual8086 is not 0xffff")

def vir8086SegArTest (seg : Segment) : Check :=
  failIf (vmcsRead32 v seg.arBytes != 0x0f3) (segName seg ++ " AR in virtual8086 is not 0xf3")

/-- The bits of a word from 32 on. -/
def upperHalf : BitVec 64 := ~~~(1#64 <<< 32 - 1#64)

def segBaseTest (seg : Segment) : Check :=
  failIf (vmcsRead32 v seg.arBytes &&& arUnusableMask == 0 && readl arch v seg.base &&& upperHalf != 0)
    (segName seg ++ " base, is usable and not all bits 63-32 are zero")

def segGTest (seg : Segment) : Check :=
  let lim := vmcsRead32 v seg.limit
  let ar := vmcsRead32 v seg.arBytes
  failIf ((lim &&& 0xfff#32 != 0xfff#32 && ar &&& arGMask != 0) ||
      (lim &&& ~~~(1#32 <<< 20 - 1#32) != 0 && ar &&& arGMask == 0))
    (segName seg ++ " AR, G err.")

def segArTest (seg : Segment) : Check := do
  let ar := vmcsRead32 v seg.arBytes
  onlyIf (ar &&& arUnusableMask == 0) do
    failIf (ar &&& arTypeAccessesMask == 0) (segName seg ++ " AR, usable and not accesses")
    failIf (ar &&& arTypeCodeMask != 0 && ar &&& arTypeReadableMask == 0) (segName seg ++ " AR, code and not readable")
    failIf (ar &&& arSMask == 0) (segName seg ++ " AR, usable and is sys")
    failIf (ar &&& arTypeMask < 12 && arDpl ar < vmcsRead16 v seg.selector &&& selectorRplMask)
      (segName seg ++ " AR, DPL less than RPL")
    failIf (ar &&& arPMask == 0) (segName seg ++ " AR, usable and not present")
    failIf (ar &&& arReservdMask != 0) (segName seg ++ " AR, reseved bits are set")
    segGTest v seg

def idtGdtTest (name : String) (base limit : VmcsField) : Check := do
  failIf (!isCanonical arch (readl arch v base)) (name ++ " BASE, not canonical")
  failIf (vmcsRead32 v limit >>> 16 != 0) (name ++ " LIMIT, size err")

/-! ### `vm_entry_test_guest` -/

def longMode : BitVec 32 := vmcsRead32 v .vmEntryControls &&& vmEntryControlsIa32eMask

def virtual8086 : Bool := readl arch v .guestRflags &&& rflagsVm != 0

def controlTests : Check := do
  let cr0 := readl arch v .guestCr0
  failIf (cr0 &&& cr0PgMask == 0) "cr0, PG is not set"
  failIf (cr0 &&& cr0PeMask == 0) "cr0, PE is not set"
  failIf (cr0 &&& cr0NeMask == 0) "cr0, NE is not set"
  -- a clear WP is only reported
  let cr4 := readl arch v .guestCr4
  failIf (cr4 &&& cr4VmxeMask == 0) "cr4, VMXE is not set"
  -- and so is a clear PAE
  failIf (read64 arch v .guestIa32Debugctl .guestIa32DebugctlHigh &&& ia32DebugctlReservedBits != 0)
    "ia32_debugctl, reserve bits"
  failIf (longMode v != 0 && cr4 &&& cr4PaeMask == 0) "long mode and not PAE"
  failIf (readl arch v .guestCr3 &&& cr3LModeReservedBits != 0) "cr3, reserved bits"

/-- Entry `i` of the page of the page-directory pointers, as the module maps it. -/
def mappedPdpte (cr3 : BitVec 64) (i : Nat) : BitVec 64 :=
  let offset := (cr3 &&& (pageSize - 1)) >>> 5
  ByteMem.load mem (kmapAtomic cr3 + BitVec.ofNat 64 (8 * (offset.toNat + i))) 8

def pdpteTests : Check :=
  let cr3 := readl arch v .guestCr3
  onlyIf (longMode v == 0 && readl arch v .guestCr4 &&& cr4PaeMask != 0)
    (failIf ((List.range 4).any fun i =>
        mappedPdpte mem cr3 i &&& 1#64 != 0 && mappedPdpte mem cr3 i &&& 0xfffffff0000001e6#64 != 0)
      "pae cr3, reserved bits")

def addressTests : Check := do
  failIf (readl arch v .guestDr7 &&& upperHalf != 0) "dr7, reserved bits"
  failIf (!isCanonical arch (readl arch v .guestSysenterEsp)) "sysenter_esp, not canonical"
  failIf (!isCanonical arch (readl arch v .guestSysenterEip)) "sysenter_eip, not canonical"

def selectorTests : Check := do
  failIf (vmcsRead16 v .guestTrSelector &&& selectorTiMask != 0) "tr selctor, TI is set"
  failIf (vmcsRead32 v .guestLdtrArBytes &&& arUnusableMask == 0 && vmcsRead16 v .guestLdtrSelector &&& selectorTiMask != 0)
    "ldtr selctor, is usable and TI is set"
  failIf (!virtual8086 arch v && vmcsRead16 v .guestSsSelector &&& selectorRplMask !=
      vmcsRead16 v .guestCsSelector &&& selectorRplMask)
    "ss selctor cs selctor, not same RPL"

def baseTests : Check := do
  onlyIf (virtual8086 arch v) do
    vir8086SegBaseTest arch v .cs
    vir8086SegBaseTest arch v .ss
    vir8086SegBaseTest arch v .ds
    vir8086SegBaseTest arch v .es
    vir8086SegBaseTest arch v .fs
    vir8086SegBaseTest arch v .gs
  failIf (!isCanonical arch (readl arch v .guestTrBase) || !isCanonical arch (readl arch v .guestFsBase) ||
      !isCanonical arch (readl arch v .guestGsBase))
    "TR FS or GS base is not canonical"
  failIf (vmcsRead32 v .guestLdtrArBytes &&& arUnusableMask == 0 && !isCanonical arch (readl arch v .guestLdtrBase))
    "LDTR base, usable and is not canonical"
  failIf (readl arch v .guestCsBase &&& upperHalf != 0) "CS base, not all bits 63-32 are zero"
  segBaseTest arch v .ss
  segBaseTest arch v .ds
  segBaseTest arch v .es

def vir8086Tests : Check := do
  vir8086SegLimitTest arch v .cs
  vir8086SegLimitTest arch v .ss
  vir8086SegLimitTest arch v .ds
  vir8086SegLimitTest arch v .es
  vir8086SegLimitTest arch v .fs
  vir8086SegLimitTest arch v .gs
  vir8086SegArTest v .cs
  vir8086SegArTest v .ss
  vir8086SegArTest v .ds
  vir8086SegArTest v .es
  vir8086SegArTest v .fs
  vir8086SegArTest v .gs

def csTests : Check := do
  let csAr := vmcsRead32 v .guestCsArBytes
  let rpl := vmcsRead16 v .guestCsSelector &&& selectorRplMask
  failIf (csAr &&& arTypeAccessesMask == 0) "cs AR, accesses is clear"
  failIf (csAr &&& arTypeCodeMask == 0) "cs AR, code is clear"
  failIf (csAr &&& arSMask == 0) "cs AR, type is sys"
  failIf (8 ≤ csAr &&& arTypeMask && csAr &&& arTypeMask < 12 && arDpl csAr != rpl) "cs AR, DPL not as RPL"
  failIf (13 ≤ csAr &&& arTypeMask && csAr &&& arTypeMask < 16 && rpl < arDpl csAr) "cs AR, DPL greater than RPL"
  failIf (csAr &&& arPMask == 0) "CS AR, not present"
  failIf (csAr &&& arReservdMask != 0) "CS AR, reseved bits are set"
  failIf (longMode v &&& (csAr &&& arLMask) != 0 && csAr &&& arDbMask != 0) "CS AR, DB and L are set in long mode"
  segGTest v .cs

def ssTests : Check := do
  let ssAr := vmcsRead32 v .guestSsArBytes
  onlyIf (ssAr &&& arUnusableMask == 0) do
    failIf (ssAr &&& arTypeMask != 3 && ssAr &&& arTypeMask != 7) "ss AR, usable and type is not 3 or 7"
    failIf (ssAr &&& arSMask == 0) "ss AR, usable and is sys"
    failIf (ssAr &&& arPMask == 0) "SS AR, usable and not present"
    failIf (ssAr &&& arReservdMask != 0) "SS AR, reseved bits are set"
    segGTest v .ss
  failIf (arDpl ssAr != vmcsRead16 v .guestSsSelector &&& selectorRplMask) "SS AR, DPL not as RPL"

def trTests : Check := do
  let trAr := vmcsRead32 v .guestTrArBytes
  onlyIf (longMode v != 0) (failIf (trAr &&& arTypeMask != arTypeBusy64Tss) "TR AR, long mode and not 64bit busy tss")
  onlyIf (longMode v == 0)
    (failIf (trAr &&& arTypeMask != arTypeBusy32Tss && trAr &&& arTypeMask != arTypeBusy16Tss)
      "TR AR, legacy mode and not 16/32bit busy tss")
  failIf (trAr &&& arSMask != 0) "TR AR, S is set"
  failIf (trAr &&& arPMask == 0) "TR AR, P is not set"
  failIf (trAr &&& (arReservdMask ||| arUnusableMask) != 0) "TR AR, reserved bit are set"
  segGTest v .tr

def ldtrTests : Check := do
  let ldtrAr := vmcsRead32 v .guestLdtrArBytes
  onlyIf (ldtrAr &&& arUnusableMask == 0) do
    failIf (ldtrAr &&& arTypeMask != arTypeLdt) "LDTR AR, bad type"
    failIf (ldtrAr &&& arSMask != 0) "LDTR AR, S is set"
    failIf (ldtrAr &&& arPMask == 0) "LDTR AR, P is not set"
    failIf (ldtrAr &&& arReservdMask != 0) "LDTR AR, reserved bit are set"
    segGTest v .ldtr

def protectedTests : Check := do
  csTests v
  ssTests v
  segArTest v .ds
  segArTest v .es
  segArTest v .fs
  segArTest v .gs
  trTests v
  ldtrTests v

def ripTests : Check := do
  failIf ((longMode v == 0 || vmcsRead32 v .guestCsArBytes &&& arLMask == 0) && readl arch v .guestRip &&& upperHalf != 0)
    "RIP, size err"
  failIf (!isCanonical arch (readl arch v .guestRip)) "RIP, not canonical"

def rflagsTests : Check := do
  let rflags := readl arch v .guestRflags
  failIf (rflags &&& rflagsReservedClearBits != 0 || rflags &&& rflagsReservedSetBits == 0) "RFLAGS, reserved bits"
  failIf (longMode v != 0 && virtual8086 arch v) "RFLAGS, vm and long mode"
  onlyIf (rflags &&& rflagsRf == 0) do
    let vmEntryInfo := vmcsRead32 v .vmEntryIntrInfoField
    failIf (vmEntryInfo &&& intrInfoValidMask != 0 && vmEntryInfo &&& intrInfoIntrTypeMask == intrTypeExtIntr)
      "RFLAGS, external interrupt and RF is clear"

def guestTests : Check := do
  controlTests arch v
  pdpteTests arch mem v
  addressTests arch v
  selectorTests arch v
  baseTests arch v
  onlyIf (virtual8086 arch v) (vir8086Tests arch v)
  onlyIf (!virtual8086 arch v) (protectedTests v)
  idtGdtTest arch v "GDTR" .guestGdtrBase .guestGdtrLimit
  idtGdtTest arch v "IDTR" .guestIdtrBase .guestIdtrLimit
  ripTests arch v
  rflagsTests arch v

/-- `vm_entry_test_guest`, 1 or 0. -/
def vmEntryTestGuest : Bool := (guestTests arch mem v).isOk

/-! ### The rules -/

/-- Bits 63 to 47 are equal. -/
def Canonical (addr : BitVec 64) : Prop := ∀ i, 47 ≤ i → i < 64 → addr.hasBit i = addr.hasBit 47

abbrev ar (seg : Segment) : BitVec 32 := vmcsRead32 v seg.arBytes
abbrev arType (seg : Segment) : BitVec 32 := ar v seg &&& arTypeMask
abbrev dpl (seg : Segment) : BitVec 16 := arDpl (ar v seg)
abbrev rpl (seg : Segment) : BitVec 16 := vmcsRead16 v seg.selector &&& selectorRplMask

/-- The segment is not marked as unusable. -/
def Usable (seg : Segment) : Prop := (ar v seg).hasBit 16 = false

@[mk_iff] structure ControlRules : Prop where
  pg : (readl arch v .guestCr0).hasBit 31 = true
  pe : (readl arch v .guestCr0).hasBit 0 = true
  ne : (readl arch v .guestCr0).hasBit 5 = true
  vmxe : (readl arch v .guestCr4).hasBit 13 = true
  debugctl : read64 arch v .guestIa32Debugctl .guestIa32DebugctlHigh &&& ia32DebugctlReservedBits = 0
  pae : isLongMode v = true → (readl arch v .guestCr4).hasBit 5 = true
  cr3 : readl arch v .guestCr3 &&& cr3LModeReservedBits = 0

/-- In PAE paging none of the four page-directory pointers at CR3 is present with a reserved bit. -/
def PdpteRules : Prop :=
  isLongMode v = false → (readl arch v .guestCr4).hasBit 5 = true →
    ∀ i < 4, ¬ PdpteFaulty (ByteMem.load mem ((readl arch v .guestCr3 &&& ~~~31#64) + BitVec.ofNat 64 (8 * i)) 8)

@[mk_iff] structure AddressRules (canonical : BitVec 64 → Prop) : Prop where
  dr7 : (readl arch v .guestDr7).toNat < 2 ^ 32
  sysenterEsp : canonical (readl arch v .guestSysenterEsp)
  sysenterEip : canonical (readl arch v .guestSysenterEip)

@[mk_iff] structure SelectorRules : Prop where
  tr : (vmcsRead16 v .guestTrSelector).hasBit 2 = false
  ldtr : Usable v .ldtr → (vmcsRead16 v .guestLdtrSelector).hasBit 2 = false
  ss : virtual8086 arch v = false → rpl v .ss = rpl v .cs

@[mk_iff] structure BaseRules (canonical : BitVec 64 → Prop) : Prop where
  vir8086 : virtual8086 arch v = true → ∀ seg ∈ vir8086Segs,
    (readl arch v seg.base).toNat = (vmcsRead16 v seg.selector).toNat * 16
  tr : canonical (readl arch v .guestTrBase)
  fs : canonical (readl arch v .guestFsBase)
  gs : canonical (readl arch v .guestGsBase)
  ldtr : Usable v .ldtr → canonical (readl arch v .guestLdtrBase)
  cs : (readl arch v .guestCsBase).toNat < 2 ^ 32
  data : ∀ seg ∈ [Segment.ss, .ds, .es], Usable v seg → (readl arch v seg.base).toNat < 2 ^ 32

@[mk_iff] structure Vir8086Rules : Prop where
  limit : ∀ seg ∈ vir8086Segs, readl arch v seg.limit = 0xffff
  ar : ∀ seg ∈ vir8086Segs, ar v seg = 0xf3

/-- The limit of a segment is consistent with its G bit. -/
@[mk_iff] structure LimitRule (seg : Segment) : Prop where
  pages : (ar v seg).hasBit 15 = true → (vmcsRead32 v seg.limit).toNat % 2 ^ 12 = 2 ^ 12 - 1
  bytes : (ar v seg).hasBit 15 = false → (vmcsRead32 v seg.limit).toNat < 2 ^ 20

@[mk_iff] structure CsRules : Prop where
  accessed : (ar v .cs).hasBit 0 = true
  code : (ar v .cs).hasBit 3 = true
  s : (ar v .cs).hasBit 4 = true
  nonconforming : 8 ≤ arType v .cs → arType v .cs < 12 → dpl v .cs = rpl v .cs
  conforming : 13 ≤ arType v .cs → arType v .cs < 16 → dpl v .cs ≤ rpl v .cs
  p : (ar v .cs).hasBit 7 = true
  reserved : ar v .cs &&& arReservdMask = 0
  limit : LimitRule v .cs

@[mk_iff] structure UsableSsRules : Prop where
  type : arType v .ss = 3 ∨ arType v .ss = 7
  s : (ar v .ss).hasBit 4 = true
  p : (ar v .ss).hasBit 7 = true
  reserved : ar v .ss &&& arReservdMask = 0
  limit : LimitRule v .ss

@[mk_iff] structure SsRules : Prop where
  usable : Usable v .ss → UsableSsRules v
  dpl : dpl v .ss = rpl v .ss

@[mk_iff] structure DataRules (seg : Segment) : Prop where
  accessed : (ar v seg).hasBit 0 = true
  readable : (ar v seg).hasBit 3 = true → (ar v seg).hasBit 1 = true
  s : (ar v seg).hasBit 4 = true
  dpl : arType v seg < 12 → rpl v seg ≤ dpl v seg
  p : (ar v seg).hasBit 7 = true
  reserved : ar v seg &&& arReservdMask = 0
  limit : LimitRule v seg

@[mk_iff] structure TrRules : Prop where
  longMode : isLongMode v = true → arType v .tr = arTypeBusy64Tss
  legacyMode : isLongMode v = false → arType v .tr = arTypeBusy32Tss ∨ arType v .tr = arTypeBusy16Tss
  s : (ar v .tr).hasBit 4 = false
  p : (ar v .tr).hasBit 7 = true
  reserved : ar v .tr &&& (arReservdMask ||| arUnusableMask) = 0
  limit : LimitRule v .tr

@[mk_iff] structure LdtrRules : Prop where
  type : arType v .ldtr = arTypeLdt
  s : (ar v .ldtr).hasBit 4 = false
  p : (ar v .ldtr).hasBit 7 = true
  reserved : ar v .ldtr &&& arReservdMask = 0
  limit : LimitRule v .ldtr

/-- Outside of virtual-8086 mode. -/
@[mk_iff] structure ProtectedRules : Prop where
  cs : CsRules v
  ss : SsRules v
  data : ∀ seg ∈ [Segment.ds, .es, .fs, .gs], Usable v seg → DataRules v seg
  tr : TrRules v
  ldtr : Usable v .ldtr → LdtrRules v

@[mk_iff] structure TableRules (canonical : BitVec 64 → Prop) (base limit : VmcsField) : Prop where
  base : canonical (readl arch v base)
  limit : (vmcsRead32 v limit).toNat < 2 ^ 16

@[mk_iff] structure RipRules (canonical : BitVec 64 → Prop) : Prop where
  size : isLongMode v = false ∨ (ar v .cs).hasBit 13 = false → (readl arch v .guestRip).toNat < 2 ^ 32
  canonical : canonical (readl arch v .guestRip)

@[mk_iff] structure RflagsRules : Prop where
  reservedClear : readl arch v .guestRflags &&& rflagsReservedClearBits = 0
  reservedSet : (readl arch v .guestRflags).hasBit 1 = true
  longMode : isLongMode v = true → virtual8086 arch v = false

/-- The rules that the tests check, where `canonical` says what addresses are canonical. -/
structure GuestStateRules (canonical : BitVec 64 → Prop) : Prop where
  control : ControlRules arch v
  pdptes : PdpteRules arch mem v
  addresses : AddressRules arch v canonical
  selectors : SelectorRules arch v
  bases : BaseRules arch v canonical
  vir8086 : virtual8086 arch v = true → Vir8086Rules arch v
  protectedMode : virtual8086 arch v = false → ProtectedRules v
  gdtr : TableRules arch v canonical .guestGdtrBase .guestGdtrLimit
  idtr : TableRules arch v canonical .guestIdtrBase .guestIdtrLimit
  rip : RipRules arch v canonical
  rflags : RflagsRules arch v

/-- CS does not have both L and DB in long mode. -/
def LOrDbRule : Prop :=
  virtual8086 arch v = false → isLongMode v = true → ¬ ((ar v .cs).hasBit 13 = true ∧ (ar v .cs).hasBit 14 = true)

/-- An external interrupt is injected by the entry. -/
def InjectsInterrupt : Prop :=
  (vmcsRead32 v .vmEntryIntrInfoField).hasBit 31 = true ∧
    vmcsRead32 v .vmEntryIntrInfoField &&& intrInfoIntrTypeMask = intrTypeExtIntr

/-- No external interrupt with this bit of RFLAGS clear. -/
def InterruptRule (bit : Nat) : Prop := (readl arch v .guestRflags).hasBit bit = false → ¬ InjectsInterrupt v

/-! ### What the tests check -/

theorem longMode_bne : (longMode v != 0#32) = isLongMode v := rfl

theorem longMode_beq : (longMode v == 0#32) = !isLongMode v := by
  rw [← longMode_bne, bne, Bool.not_not]

theorem upperHalf_eq_zero_iff (x : BitVec 64) : x &&& upperHalf = 0#64 ↔ x.toNat < 2 ^ 32 :=
  Bits.and_not_lowMask_eq_zero_iff (by decide) x

theorem controlTests_iff : controlTests arch v = .ok () ↔ ControlRules arch v := by
  unfold controlTests
  rw [controlRules_iff]
  simp only [bind_eq_ok, failIf_eq_ok, cr0PgMask, cr0PeMask, cr0NeMask, cr4VmxeMask, cr4PaeMask, BitVec.ofNat_eq_ofNat,
    Bits.and_one_shiftLeft_beq_zero, Nat.reduceLT, longMode_bne, Bool.not_eq_false', bne_eq_false_iff_eq,
    Bool.and_eq_false_imp]

theorem addressTests_iff : addressTests arch v = .ok () ↔ AddressRules arch v (isCanonical arch · = true) := by
  unfold addressTests
  rw [addressRules_iff]
  simp only [bind_eq_ok, failIf_eq_ok, BitVec.ofNat_eq_ofNat, bne_eq_false_iff_eq, upperHalf_eq_zero_iff, Bool.not_eq_false']

theorem selectorTests_iff : selectorTests arch v = .ok () ↔ SelectorRules arch v := by
  unfold selectorTests
  rw [selectorRules_iff]
  simp only [bind_eq_ok, failIf_eq_ok, BitVec.ofNat_eq_ofNat, selectorTiMask, arUnusableMask, Bits.and_one_shiftLeft_beq_zero,
    Bits.and_one_shiftLeft_bne_zero, Nat.reduceLT, Bool.and_eq_false_imp, bne_eq_false_iff_eq, Bool.not_eq_true', Usable, ar,
    rpl, Segment.arBytes, Segment.selector]

/-- The masks are those of a power of two. -/
theorem and_lowTwelve_iff (x : BitVec 32) : x &&& 0xfff#32 = 0xfff#32 ↔ x.toNat % 2 ^ 12 = 2 ^ 12 - 1 := by
  have hand : (x &&& 0xfff#32).toNat = x.toNat % 2 ^ 12 := by
    rw [BitVec.toNat_and]
    exact Nat.and_two_pow_sub_one_eq_mod _ 12
  rw [← BitVec.toNat_inj, hand]
  rfl

theorem segGTest_iff (seg : Segment) : segGTest v seg = .ok () ↔ LimitRule v seg := by
  have hlow : ∀ lim : BitVec 32, lim &&& ~~~(1#32 <<< 20 - 1#32) = 0#32 ↔ lim.toNat < 2 ^ 20 :=
    Bits.and_not_lowMask_eq_zero_iff (by decide)
  unfold segGTest
  rw [limitRule_iff]
  simp only [failIf_eq_ok, arGMask, BitVec.ofNat_eq_ofNat, Bits.and_one_shiftLeft_beq_zero, Bits.and_one_shiftLeft_bne_zero,
    Nat.reduceLT, Bool.or_eq_false_iff, ar, ← and_lowTwelve_iff, ← hlow]
  refine and_congr ?_ ?_
  · rw [Bool.and_comm, Bool.and_eq_false_imp, bne_eq_false_iff_eq]
  · rw [Bool.and_comm, Bool.and_eq_false_imp, bne_eq_false_iff_eq, Bool.not_eq_true']

theorem segBaseTest_iff (seg : Segment) :
    segBaseTest arch v seg = .ok () ↔ (Usable v seg → (readl arch v seg.base).toNat < 2 ^ 32) := by
  unfold segBaseTest
  simp only [failIf_eq_ok, arUnusableMask, BitVec.ofNat_eq_ofNat, Bits.and_one_shiftLeft_beq_zero, Nat.reduceLT,
    Bool.and_eq_false_imp, bne_eq_false_iff_eq, upperHalf_eq_zero_iff, Bool.not_eq_true', Usable, ar]

theorem vir8086SegBaseTest_iff (seg : Segment) :
    vir8086SegBaseTest arch v seg = .ok () ↔
      (readl arch v seg.base).toNat = (vmcsRead16 v seg.selector).toNat * 16 := by
  have hsel : ((vmcsRead16 v seg.selector).setWidth 64 <<< 4).toNat = (vmcsRead16 v seg.selector).toNat * 16 := by
    have := (vmcsRead16 v seg.selector).isLt
    rw [BitVec.toNat_shiftLeft, BitVec.toNat_setWidth, Nat.shiftLeft_eq]
    omega
  unfold vir8086SegBaseTest
  rw [failIf_eq_ok, bne_eq_false_iff_eq, ← BitVec.toNat_inj, hsel]

theorem baseTests_iff : baseTests arch v = .ok () ↔ BaseRules arch v (isCanonical arch · = true) := by
  unfold baseTests
  rw [baseRules_iff]
  simp only [bind_eq_ok, failIf_eq_ok, onlyIf_eq_ok, vir8086SegBaseTest_iff, segBaseTest_iff, BitVec.ofNat_eq_ofNat,
    bne_eq_false_iff_eq, upperHalf_eq_zero_iff, Bool.or_eq_false_iff, Bool.not_eq_false', arUnusableMask,
    Bits.and_one_shiftLeft_beq_zero, Nat.reduceLT, Bool.and_eq_false_imp, Bool.not_eq_true', vir8086Segs, List.forall_mem_cons,
    List.not_mem_nil, false_imp_iff, implies_true, and_true, and_assoc, Usable, ar, Segment.arBytes, Segment.base]

theorem vir8086Tests_iff : vir8086Tests arch v = .ok () ↔ Vir8086Rules arch v := by
  unfold vir8086Tests
  rw [vir8086Rules_iff]
  simp only [bind_eq_ok, failIf_eq_ok, vir8086SegLimitTest, vir8086SegArTest, bne_eq_false_iff_eq, vir8086Segs,
    List.forall_mem_cons, List.not_mem_nil, false_imp_iff, implies_true, and_true, and_assoc]

/-- `long_mode` and the bit L have no bit in common. -/
theorem longMode_and_arLMask (x : BitVec 32) : longMode v &&& (x &&& arLMask) = 0#32 := by
  rw [Bits.and_eq_zero_iff]
  intro i hi
  rw [BitVec.hasBit_and, arLMask, Bits.hasBit_one_shiftLeft (by decide)] at hi
  unfold longMode vmEntryControlsIa32eMask
  rw [BitVec.hasBit_and, Bits.hasBit_one_shiftLeft (by decide)]
  simp only [Bool.and_eq_true, decide_eq_true_eq] at hi
  simp [hi.2]

/-- The test of L and DB is vacuous. -/
theorem csTests_iff : csTests v = .ok () ↔ CsRules v := by
  have hvacuous : (longMode v &&& (vmcsRead32 v .guestCsArBytes &&& arLMask) != 0#32) = false :=
    bne_eq_false_iff_eq.2 (longMode_and_arLMask v _)
  unfold csTests
  rw [csRules_iff]
  simp only [bind_eq_ok, failIf_eq_ok, segGTest_iff, arTypeAccessesMask, arTypeCodeMask, arSMask, arPMask,
    BitVec.ofNat_eq_ofNat, hvacuous, Bool.false_and, true_and, Bits.and_one_shiftLeft_beq_zero, Nat.reduceLT,
    Bool.not_eq_false', bne_eq_false_iff_eq, Bool.and_eq_false_imp, Bool.and_eq_true, decide_eq_true_eq,
    decide_eq_false_iff_not, BitVec.not_lt, and_imp, ar, arType, dpl, rpl, Segment.arBytes, Segment.selector]

theorem ssTests_iff : ssTests v = .ok () ↔ SsRules v := by
  unfold ssTests
  rw [ssRules_iff, usableSsRules_iff]
  simp only [bind_eq_ok, failIf_eq_ok, onlyIf_eq_ok, segGTest_iff, arSMask, arPMask, arUnusableMask, BitVec.ofNat_eq_ofNat,
    Bits.and_one_shiftLeft_beq_zero, Nat.reduceLT, Bool.not_eq_false', Bool.not_eq_true', bne_eq_false_iff_eq,
    Bool.and_eq_false_iff, ar, arType, dpl, rpl, Usable, Segment.arBytes, Segment.selector]

theorem segArTest_iff (seg : Segment) : segArTest v seg = .ok () ↔ (Usable v seg → DataRules v seg) := by
  unfold segArTest
  rw [dataRules_iff]
  simp only [bind_eq_ok, failIf_eq_ok, onlyIf_eq_ok, segGTest_iff, arTypeAccessesMask, arTypeCodeMask, arTypeReadableMask,
    arSMask, arPMask, arUnusableMask, BitVec.ofNat_eq_ofNat, Bits.and_one_shiftLeft_beq_zero,
    Bits.and_one_shiftLeft_bne_zero, Nat.reduceLT, Bool.not_eq_false', Bool.not_eq_true', bne_eq_false_iff_eq,
    Bool.and_eq_false_imp, decide_eq_true_eq, decide_eq_false_iff_not, BitVec.not_lt, ar, arType, dpl, rpl, Usable]

theorem trTests_iff : trTests v = .ok () ↔ TrRules v := by
  unfold trTests
  rw [trRules_iff]
  simp only [bind_eq_ok, failIf_eq_ok, onlyIf_eq_ok, segGTest_iff, arSMask, arPMask, BitVec.ofNat_eq_ofNat, longMode_bne,
    longMode_beq, Bits.and_one_shiftLeft_beq_zero, Bits.and_one_shiftLeft_bne_zero, Nat.reduceLT, Bool.not_eq_false',
    Bool.not_eq_true', bne_eq_false_iff_eq, Bool.and_eq_false_iff, ar, arType, Segment.arBytes]

theorem ldtrTests_iff : ldtrTests v = .ok () ↔ (Usable v .ldtr → LdtrRules v) := by
  unfold ldtrTests
  rw [ldtrRules_iff]
  simp only [bind_eq_ok, failIf_eq_ok, onlyIf_eq_ok, segGTest_iff, arSMask, arPMask, arUnusableMask, BitVec.ofNat_eq_ofNat,
    Bits.and_one_shiftLeft_beq_zero, Bits.and_one_shiftLeft_bne_zero, Nat.reduceLT, Bool.not_eq_false', Bool.not_eq_true',
    bne_eq_false_iff_eq, ar, arType, Usable, Segment.arBytes]

theorem protectedTests_iff : protectedTests v = .ok () ↔ ProtectedRules v := by
  unfold protectedTests
  rw [protectedRules_iff]
  simp only [bind_eq_ok, csTests_iff, ssTests_iff, segArTest_iff, trTests_iff, ldtrTests_iff, List.forall_mem_cons,
    List.not_mem_nil, false_imp_iff, implies_true, and_true, and_assoc]

theorem idtGdtTest_iff (name : String) (base limit : VmcsField) :
    idtGdtTest arch v name base limit = .ok () ↔ TableRules arch v (isCanonical arch · = true) base limit := by
  have hlimit : vmcsRead32 v limit >>> 16 = 0#32 ↔ (vmcsRead32 v limit).toNat < 2 ^ 16 := by
    rw [← BitVec.toNat_inj, BitVec.toNat_ushiftRight, Nat.shiftRight_eq_div_pow]
    simp only [BitVec.toNat_ofNat]
    omega
  unfold idtGdtTest
  rw [tableRules_iff, ← hlimit]
  simp only [bind_eq_ok, failIf_eq_ok, Bool.not_eq_false', BitVec.ofNat_eq_ofNat, bne_eq_false_iff_eq]

theorem ripTests_iff : ripTests arch v = .ok () ↔ RipRules arch v (isCanonical arch · = true) := by
  unfold ripTests
  rw [ripRules_iff]
  simp only [bind_eq_ok, failIf_eq_ok, Bool.not_eq_false', BitVec.ofNat_eq_ofNat, bne_eq_false_iff_eq, arLMask, longMode_beq,
    Bits.and_one_shiftLeft_beq_zero, Nat.reduceLT, Bool.and_eq_false_imp, Bool.or_eq_true, Bool.not_eq_true',
    upperHalf_eq_zero_iff, ar, Segment.arBytes]

/-- The test that speaks of RF reads bit 9. -/
theorem rflagsTests_iff : rflagsTests arch v = .ok () ↔ RflagsRules arch v ∧ InterruptRule arch v 9 := by
  have hvalid : ∀ info : BitVec 32, (info &&& intrInfoValidMask != 0#32) = info.hasBit 31 :=
    Bits.and_one_shiftLeft_bne_zero (show 31 < 32 by decide)
  unfold rflagsTests InterruptRule InjectsInterrupt
  rw [rflagsRules_iff]
  simp only [bind_eq_ok, failIf_eq_ok, onlyIf_eq_ok, rflagsReservedSetBits, rflagsRf, hvalid, longMode_bne,
    BitVec.ofNat_eq_ofNat, Bits.and_one_shiftLeft_beq_zero, Nat.reduceLT, Bool.or_eq_false_iff, Bool.not_eq_false',
    Bool.not_eq_true', bne_eq_false_iff_eq, Bool.and_eq_false_imp, and_assoc, beq_eq_false_iff_ne, not_and, ne_eq]

theorem hasBit_cr3LModeReservedBits (i : Nat) :
    cr3LModeReservedBits.hasBit i = decide (i < 3 ∨ 5 ≤ i ∧ i < 12 ∨ 40 ≤ i ∧ i < 64) := by
  have htable : ∀ i < 64, cr3LModeReservedBits.hasBit i = decide (i < 3 ∨ 5 ≤ i ∧ i < 12 ∨ 40 ≤ i ∧ i < 64) := by decide
  by_cases hi : i < 64
  · exact htable i hi
  · rw [BitVec.hasBit_of_ge _ (by omega)]
    simp
    omega

/-- With the reserved bits of CR3 clear the table starts the page that is mapped. -/
theorem mappedPdpte_eq {cr3 : BitVec 64} (h : cr3 &&& cr3LModeReservedBits = 0#64) (i : Nat) :
    mappedPdpte mem cr3 i = ByteMem.load mem ((cr3 &&& ~~~31#64) + BitVec.ofNat 64 (8 * i)) 8 := by
  have hclear : ∀ i, i < 3 ∨ 5 ≤ i ∧ i < 12 ∨ 40 ≤ i ∧ i < 64 → cr3.hasBit i = false := fun i hi =>
    (Bits.and_eq_zero_iff ..).1 h i (by rw [hasBit_cr3LModeReservedBits]; simpa using hi)
  have hoffset : (cr3 &&& (pageSize - 1#64)) >>> 5 = 0#64 := by
    apply BitVec.eq_of_hasBit
    intro i _
    rw [BitVec.hasBit_ushiftRight, BitVec.hasBit_and, hasBit_pageOffsetMask, BitVec.hasBit_zero]
    by_cases hi : 5 + i < 12
    · rw [hclear _ (.inr (.inl ⟨by omega, hi⟩)), Bool.false_and]
    · simp [hi]
  have hmask : ∀ i < 64, (~~~31#64).hasBit i = decide (5 ≤ i) := by decide
  have hpage : kmapAtomic cr3 = cr3 &&& ~~~31#64 := by
    apply BitVec.eq_of_hasBit
    intro i hi
    unfold kmapAtomic pfnOf pageShift
    rw [hasBit_hpaOf, Bits.hasBit_field, BitVec.hasBit_and, hmask i hi]
    by_cases h12 : 12 ≤ i
    · by_cases h40 : i < 40
      · simp [h12, show i < 52 by omega, show i - 12 < 40 by omega, show 12 + (i - 12) = i by omega,
          show 5 ≤ i by omega]
      · simp [hclear i (.inr (.inr ⟨by omega, hi⟩)), show 12 ≤ i → 12 + (i - 12) = i by omega, h12]
    · by_cases h5 : 5 ≤ i
      · simp [h12, hclear i (.inr (.inl ⟨h5, by omega⟩))]
      · simp [h12, h5]
  unfold mappedPdpte
  simp only [BitVec.ofNat_eq_ofNat, hoffset, hpage, BitVec.toNat_zero, Nat.zero_add]

theorem pdpteTests_iff (h : readl arch v .guestCr3 &&& cr3LModeReservedBits = 0#64) :
    pdpteTests arch mem v = .ok () ↔ PdpteRules arch mem v := by
  unfold pdpteTests PdpteRules
  simp only [onlyIf_eq_ok, failIf_eq_ok, BitVec.ofNat_eq_ofNat, longMode_beq, cr4PaeMask, Bits.and_one_shiftLeft_bne_zero,
    Nat.reduceLT, Bool.and_eq_true, Bool.not_eq_true', and_imp, mappedPdpte_eq mem h, List.any_eq_false, List.mem_range]
  refine forall₂_congr fun _ _ => forall₂_congr fun i _ => not_congr ?_
  rw [← Bool.and_eq_true]
  exact pdpteTest_iff _

/-- What the function checks: the rules, with the addresses that `is_canonical` accepts, and bit 9 of RFLAGS for an
interrupt that is injected. -/
theorem vmEntryTestGuest_iff :
    vmEntryTestGuest arch mem v = true ↔
      GuestStateRules arch mem v (isCanonical arch · = true) ∧ InterruptRule arch v 9 := by
  have hok : vmEntryTestGuest arch mem v = true ↔ guestTests arch mem v = .ok () := by
    unfold vmEntryTestGuest
    cases guestTests arch mem v <;> simp [Except.isOk, Except.toBool]
  rw [hok]
  unfold guestTests
  simp only [bind_eq_ok, onlyIf_eq_ok, controlTests_iff, addressTests_iff, selectorTests_iff, baseTests_iff,
    vir8086Tests_iff, protectedTests_iff, idtGdtTest_iff, ripTests_iff, rflagsTests_iff, Bool.not_eq_true']
  constructor
  · rintro ⟨hcontrol, hpdptes, haddresses, hselectors, hbases, hv86, hprot, hgdtr, hidtr, hrip, hrflags, hintr⟩
    exact ⟨⟨hcontrol, (pdpteTests_iff arch mem v hcontrol.cr3).1 hpdptes, haddresses, hselectors, hbases, hv86, hprot, hgdtr,
      hidtr, hrip, hrflags⟩, hintr⟩
  · rintro ⟨⟨hcontrol, hpdptes, haddresses, hselectors, hbases, hv86, hprot, hgdtr, hidtr, hrip, hrflags⟩, hintr⟩
    exact ⟨hcontrol, (pdpteTests_iff arch mem v hcontrol.cr3).2 hpdptes, haddresses, hselectors, hbases, hv86, hprot, hgdtr,
      hidtr, hrip, hrflags, hintr⟩

/-! ### Soundness -/

theorem isCanonical_iff (addr : BitVec 64) : isCanonical .x86_64 addr = true ↔ Canonical addr := by
  have hbit : ∀ i < 64, ((addr <<< 16).sshiftRight 16).hasBit i = addr.hasBit (min i 47) := by
    intro i hi
    unfold BitVec.hasBit
    rw [BitVec.getLsbD_sshiftRight]
    by_cases h48 : 16 + i < 64
    · simp [show ¬64 ≤ i by omega, h48, show min i 47 = i by omega]
      exact (BitVec.getLsbD_eq_getElem hi).symm
    · simp [show ¬64 ≤ i by omega, h48, show min i 47 = 47 by omega, BitVec.msb_eq_getLsbD_last]
  unfold isCanonical Canonical
  rw [beq_iff_eq]
  constructor
  · intro h i h47 hi
    have hi' := hbit i hi
    rw [← h, show min i 47 = 47 by omega] at hi'
    exact hi'
  · intro h
    apply BitVec.eq_of_hasBit
    intro i hi
    rw [hbit i hi]
    by_cases h47 : 47 ≤ i
    · rw [h i h47 hi, show min i 47 = 47 by omega]
    · rw [show min i 47 = i by omega]

/-- An address of 32 bits is canonical. -/
theorem canonical_readl_i386 (field : VmcsField) : Canonical (readl .i386 v field) := by
  intro i h47 hi
  unfold readl
  simp only [BitVec.hasBit_setWidth, Arch.bitsPerLong]
  simp [show ¬i < 32 by omega]

theorem canonical_of_isCanonical {field : VmcsField} (h : isCanonical arch (readl arch v field) = true) :
    Canonical (readl arch v field) := by
  cases arch with
  | x86_64 => exact (isCanonical_iff _).1 h
  | i386 => exact canonical_readl_i386 v field

variable {arch mem v} in
theorem GuestStateRules.mono {p q : BitVec 64 → Prop} (h : GuestStateRules arch mem v p)
    (hpq : ∀ field, p (readl arch v field) → q (readl arch v field)) : GuestStateRules arch mem v q where
  control := h.control
  pdptes := h.pdptes
  addresses := ⟨h.addresses.dr7, hpq _ h.addresses.sysenterEsp, hpq _ h.addresses.sysenterEip⟩
  selectors := h.selectors
  bases :=
    ⟨h.bases.vir8086, hpq _ h.bases.tr, hpq _ h.bases.fs, hpq _ h.bases.gs, fun hu => hpq _ (h.bases.ldtr hu), h.bases.cs,
      h.bases.data⟩
  vir8086 := h.vir8086
  protectedMode := h.protectedMode
  gdtr := ⟨hpq _ h.gdtr.base, h.gdtr.limit⟩
  idtr := ⟨hpq _ h.idtr.base, h.idtr.limit⟩
  rip := ⟨h.rip.size, hpq _ h.rip.canonical⟩
  rflags := h.rflags

/-- All rules that the messages state. -/
structure StatedRules : Prop where
  rules : GuestStateRules arch mem v Canonical
  lOrDb : LOrDbRule arch v
  rf : InterruptRule arch v 16

/-- The result 1 can be relied on iff some rule that is checked is broken, or CS does not have both L and DB in long mode
and no external interrupt is injected with RF clear. -/
theorem vmEntryTestGuest_sound_iff :
    (vmEntryTestGuest arch mem v = true → StatedRules arch mem v) ↔
      ¬ (GuestStateRules arch mem v (isCanonical arch · = true) ∧ InterruptRule arch v 9) ∨
        LOrDbRule arch v ∧ InterruptRule arch v 16 := by
  rw [vmEntryTestGuest_iff]
  constructor
  · intro h
    by_cases hchecked : GuestStateRules arch mem v (isCanonical arch · = true) ∧ InterruptRule arch v 9
    · exact .inr ⟨(h hchecked).lOrDb, (h hchecked).rf⟩
    · exact .inl hchecked
  · rintro (hbroken | ⟨hlOrDb, hrf⟩) hchecked
    · exact absurd hchecked hbroken
    · exact ⟨hchecked.1.mono fun _ => canonical_of_isCanonical arch v, hlOrDb, hrf⟩

/-- A guest in long mode whose code segment has both L and DB set. -/
def lAndDbVmcs : Vmcs
  | .guestCr0 => 0x80000021
  | .guestCr4 => 0x2020
  | .vmEntryControls => 0x200
  | .guestRflags => 0x202
  | .guestCsArBytes => 0x609b
  | .guestTrArBytes => 0x8b
  | .guestSsArBytes | .guestDsArBytes | .guestEsArBytes | .guestFsArBytes | .guestGsArBytes | .guestLdtrArBytes => 0x10000
  | _ => 0

/-- The checker accepts it. -/
theorem vmEntryTestGuest_unsound :
    ¬ ∀ (arch : Arch) (mem : ByteMem.Mem 64) (v : Vmcs), vmEntryTestGuest arch mem v = true → StatedRules arch mem v := by
  intro hall
  have hstated := hall .x86_64 (fun _ => 0) lAndDbVmcs (by decide)
  exact hstated.lOrDb (by decide) (by decide) ⟨by decide, by decide⟩

end EntryTest

end LearnKvm
