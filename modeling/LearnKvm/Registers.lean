import LearnKvm.ControlRegisters

/-!
# The registers of a vcpu (`kvm_main.c`)

The fields of `struct kvm_vcpu` that the MMU does not look at, and the functions that write the control registers and
EFER.  Real mode is emulated in virtual-8086 mode: `enter_rmode` and `enter_pmode` change the VMCS when the guest clears
or sets CR0.PE, and `rmode` keeps what real mode hides.

`__set_cr0`, `__set_cr4` and `__set_efer` are `rawSetCr0`, `rawSetCr4` and `rawSetEfer`.  A result `none` means that the
code dereferences a null pointer: the page of the page-directory pointers is in no slot, or no entry of `guest_msrs` is
for EFER.
-/

namespace LearnKvm

/-! ### Constants -/

def cr0ReservedBits : BitVec 64 := 0xffffffff1ffaffc0#64
def lmswGuestMask : BitVec 64 := 0x0e#64
def cr4ReservedBits : BitVec 64 := ~~~(1#64 <<< 11 - 1#64)
def cr8ReservedBits : BitVec 64 := ~~~0x0f#64
def eferReservedBits : BitVec 64 := 0xfffffffffffff2fe#64

def eferLme : BitVec 64 := 1#64 <<< 8
def eferLma : BitVec 64 := 1#64 <<< 10
def msrEfer : BitVec 32 := 0xc0000080#32

def x86EflagsTf : BitVec 64 := 0x100#64
def x86EflagsIf : BitVec 64 := 0x200#64
def ioplMask : BitVec 64 := 0x3000#64
def ioplShift : Nat := 12
def x86EflagsVm : BitVec 64 := 0x20000#64
def x86EflagsAc : BitVec 64 := 0x40000#64

def selectorRplMask : BitVec 16 := 0x03#16
def segmentArLMask : BitVec 32 := 1#32 <<< 13
def arTypeMask : BitVec 32 := 0x0f#32
def arTypeBusy64Tss : BitVec 32 := 11#32
def rmodeTssSize : BitVec 32 := 0x68#32 + 32#32 + 8192#32 + 1#32

/-! ### The vcpu -/

structure VmxMsrEntry where
  index : BitVec 32
  data : BitVec 64

/-- What emulated real mode hides: `vcpu->rmode`. -/
structure Rmode where
  active : Bool
  saveIopl : BitVec 8
  trBase : BitVec 64
  trLimit : BitVec 32
  trAr : BitVec 32

structure KvmVcpu extends Vcpu where
  regs : Fin 16 → BitVec 64
  rip : BitVec 64
  cr8 : BitVec 64
  shadowEfer : BitVec 64
  apicBase : BitVec 64
  nmsrs : Nat
  guestMsrs : Nat → VmxMsrEntry
  rmode : Rmode

instance : Inhabited KvmVcpu := ⟨{
  (default : Vcpu) with
  regs := fun _ => 0
  rip := 0
  cr8 := 0
  shadowEfer := 0
  apicBase := 0
  nmsrs := 0
  guestMsrs := fun _ => ⟨0, 0⟩
  rmode := ⟨false, 0, 0, 0, 0⟩ }⟩

namespace KvmVcpu

def setVmcs (s : KvmVcpu) (v : Vmcs) : KvmVcpu := { s with vmcs := v }

/-- `inject_gp`. -/
def injectGp (s : KvmVcpu) : KvmVcpu := s.setVmcs (LearnKvm.injectGp s.vmcs)

/-- `kvm_mmu_reset_context`. -/
def resetContext (s : KvmVcpu) : KvmVcpu := { s with toVcpu := kvmMmuResetContext s.toVcpu }

end KvmVcpu

/-! ### Segments -/

inductive Segment where
  | cs | ss | ds | es | fs | gs | tr | ldtr
  deriving DecidableEq

namespace Segment

def selector : Segment → VmcsField
  | cs => .guestCsSelector | ss => .guestSsSelector | ds => .guestDsSelector | es => .guestEsSelector
  | fs => .guestFsSelector | gs => .guestGsSelector | tr => .guestTrSelector | ldtr => .guestLdtrSelector

def base : Segment → VmcsField
  | cs => .guestCsBase | ss => .guestSsBase | ds => .guestDsBase | es => .guestEsBase
  | fs => .guestFsBase | gs => .guestGsBase | tr => .guestTrBase | ldtr => .guestLdtrBase

def limit : Segment → VmcsField
  | cs => .guestCsLimit | ss => .guestSsLimit | ds => .guestDsLimit | es => .guestEsLimit
  | fs => .guestFsLimit | gs => .guestGsLimit | tr => .guestTrLimit | ldtr => .guestLdtrLimit

def arBytes : Segment → VmcsField
  | cs => .guestCsArBytes | ss => .guestSsArBytes | ds => .guestDsArBytes | es => .guestEsArBytes
  | fs => .guestFsArBytes | gs => .guestGsArBytes | tr => .guestTrArBytes | ldtr => .guestLdtrArBytes

end Segment

def vmcsRead16 (v : Vmcs) (field : VmcsField) : BitVec 16 := (vmcsReadl v field).setWidth 16

def vmcsWrite16 (v : Vmcs) (field : VmcsField) (value : BitVec 16) : Vmcs := vmcsWritel v field (value.setWidth 64)

/-- `FIX_PMODE_DATASEG`. -/
def fixPmodeDataseg (seg : Segment) (v : Vmcs) : Vmcs :=
  let v := vmcsWrite16 v seg.selector 0
  let v := vmcsWritel v seg.base 0
  let v := vmcsWrite32 v seg.limit 0xffff
  vmcsWrite32 v seg.arBytes 0x93

/-- `FIX_RMODE_SEG`. -/
def fixRmodeSeg (seg : Segment) (v : Vmcs) : Vmcs :=
  let v := vmcsWrite16 v seg.selector ((vmcsReadl v seg.base >>> 4).setWidth 16)
  let v := vmcsWrite32 v seg.limit 0xffff
  vmcsWrite32 v seg.arBytes 0xf3

/-! ### Real mode -/

def updateExceptionBitmap (s : KvmVcpu) : KvmVcpu :=
  s.setVmcs (if s.rmode.active then vmcsWrite32 s.vmcs .exceptionBitmap (~~~0)
    else vmcsWrite32 s.vmcs .exceptionBitmap (1#32 <<< pfVector))

def enterPmode (s : KvmVcpu) : KvmVcpu :=
  let s := { s with rmode := { s.rmode with active := false } }
  let v := vmcsWritel s.vmcs .guestTrBase s.rmode.trBase
  let v := vmcsWrite32 v .guestTrLimit s.rmode.trLimit
  let v := vmcsWrite32 v .guestTrArBytes s.rmode.trAr
  let flags := vmcsReadl v .guestRflags
  let flags := flags &&& ~~~(ioplMask ||| x86EflagsVm)
  let saveIopl : BitVec 64 := s.rmode.saveIopl.setWidth 64
  let flags := flags ||| saveIopl <<< ioplShift
  let v := vmcsWritel v .guestRflags flags
  let v := vmcsWritel v .guestCr4
    ((vmcsReadl v .guestCr4 &&& ~~~cr4VmeMask) ||| (vmcsReadl v .cr0ReadShadow &&& cr4VmeMask))
  let s := updateExceptionBitmap (s.setVmcs v)
  let v := fixPmodeDataseg .fs (fixPmodeDataseg .gs (fixPmodeDataseg .ds (fixPmodeDataseg .es (fixPmodeDataseg .ss s.vmcs))))
  let v := vmcsWrite16 v .guestCsSelector (vmcsRead16 v .guestCsSelector &&& ~~~selectorRplMask)
  s.setVmcs (vmcsWrite32 v .guestCsArBytes 0x9b)

/-- The address of the last three pages of slot 0, as an `int`. -/
def rmodeTssBase (kvm : Kvm) : BitVec 32 :=
  let baseGfn := BitVec.ofNat 64 (kvm.memslots 0).baseGfn + BitVec.ofNat 64 (kvm.memslots 0).npages - 3#64
  (baseGfn <<< pageShift).setWidth 32

def enterRmode (s : KvmVcpu) : KvmVcpu :=
  let s := { s with rmode := { s.rmode with
    active := true
    trBase := vmcsReadl s.vmcs .guestTrBase
    trLimit := vmcsRead32 s.vmcs .guestTrLimit
    trAr := vmcsRead32 s.vmcs .guestTrArBytes
    saveIopl := ((vmcsReadl s.vmcs .guestRflags &&& ioplMask) >>> ioplShift).setWidth 8 } }
  let v := vmcsWritel s.vmcs .guestTrBase ((rmodeTssBase s.kvm).signExtend 64)
  let v := vmcsWrite32 v .guestTrLimit (rmodeTssSize - 1#32)
  let v := vmcsWrite32 v .guestTrArBytes 0x008b
  let v := vmcsWritel v .guestRflags (vmcsReadl v .guestRflags ||| (ioplMask ||| x86EflagsVm))
  let v := vmcsWritel v .guestCr4 (vmcsReadl v .guestCr4 ||| cr4VmeMask)
  let s := updateExceptionBitmap (s.setVmcs v)
  let v := vmcsWrite32 s.vmcs .guestCsArBytes 0xf3
  let v := vmcsWrite16 v .guestCsSelector ((vmcsReadl v .guestCsBase >>> 4).setWidth 16)
  s.setVmcs (fixRmodeSeg .fs (fixRmodeSeg .gs (fixRmodeSeg .ss (fixRmodeSeg .ds (fixRmodeSeg .es v)))))

/-! ### EFER -/

def findMsrEntry (s : KvmVcpu) (msr : BitVec 32) : Option Nat :=
  (List.range s.nmsrs).find? fun i => (s.guestMsrs i).index = msr

/-- `msr->data = data` for the entry `i`. -/
def KvmVcpu.setMsr (s : KvmVcpu) (i : Nat) (data : BitVec 64) : KvmVcpu :=
  { s with guestMsrs := Function.update s.guestMsrs i { s.guestMsrs i with data := data } }

theorem setMsr_guestMsrs (s : KvmVcpu) (i : Nat) (data : BitVec 64) :
    (s.setMsr i data).guestMsrs = Function.update s.guestMsrs i ⟨(s.guestMsrs i).index, data⟩ := rfl

@[simp] theorem setMsr_index (s : KvmVcpu) (i j : Nat) (data : BitVec 64) :
    ((s.setMsr i data).guestMsrs j).index = (s.guestMsrs j).index := by
  rw [setMsr_guestMsrs]
  by_cases hj : j = i
  · subst hj
    rw [Function.update_self]
  · rw [Function.update_of_ne hj]

@[simp] theorem setMsr_data (s : KvmVcpu) (i : Nat) (data : BitVec 64) : ((s.setMsr i data).guestMsrs i).data = data := by
  rw [setMsr_guestMsrs, Function.update_self]

theorem findMsrEntry_isSome {s : KvmVcpu} {msr : BitVec 32} :
    (findMsrEntry s msr).isSome = true ↔ ∃ i < s.nmsrs, (s.guestMsrs i).index = msr := by
  unfold findMsrEntry
  rw [List.find?_isSome]
  simp

@[simp] theorem findMsrEntry_setMsr (s : KvmVcpu) (i : Nat) (data : BitVec 64) (msr : BitVec 32) :
    findMsrEntry (s.setMsr i data) msr = findMsrEntry s msr := by
  unfold findMsrEntry
  simp only [setMsr_index]
  rfl

/-- `__set_efer`. -/
def rawSetEfer (s : KvmVcpu) (efer : BitVec 64) : Option KvmVcpu :=
  match findMsrEntry s msrEfer with
  | none => none
  | some msr =>
    let s := { s with shadowEfer := efer }
    if efer &&& eferLma != 0 then
      let s := s.setVmcs (vmcsWrite32 s.vmcs .vmEntryControls
        (vmcsRead32 s.vmcs .vmEntryControls ||| vmEntryControlsIa32eMask))
      some (s.setMsr msr efer)
    else
      let s := s.setVmcs (vmcsWrite32 s.vmcs .vmEntryControls
        (vmcsRead32 s.vmcs .vmEntryControls &&& ~~~vmEntryControlsIa32eMask))
      some (s.setMsr msr (efer &&& ~~~eferLme))

def enterLmode (s : KvmVcpu) : Option KvmVcpu :=
  let guestTrAr := vmcsRead32 s.vmcs .guestTrArBytes
  let s := if guestTrAr &&& arTypeMask != arTypeBusy64Tss then
      s.setVmcs (vmcsWrite32 s.vmcs .guestTrArBytes ((guestTrAr &&& ~~~arTypeMask) ||| arTypeBusy64Tss))
    else s
  let s := { s with shadowEfer := s.shadowEfer ||| eferLma }
  match findMsrEntry s msrEfer with
  | none => none
  | some msr =>
    let s := s.setMsr msr ((s.guestMsrs msr).data ||| (eferLma ||| eferLme))
    some (s.setVmcs (vmcsWrite32 s.vmcs .vmEntryControls
      (vmcsRead32 s.vmcs .vmEntryControls ||| vmEntryControlsIa32eMask)))

def exitLmode (s : KvmVcpu) : KvmVcpu :=
  let s := { s with shadowEfer := s.shadowEfer &&& ~~~eferLma }
  s.setVmcs (vmcsWrite32 s.vmcs .vmEntryControls
    (vmcsRead32 s.vmcs .vmEntryControls &&& ~~~vmEntryControlsIa32eMask))

def skipEmulatedInstruction (s : KvmVcpu) : KvmVcpu :=
  let rip := vmcsReadl s.vmcs .guestRip + (vmcsRead32 s.vmcs .vmExitInstructionLen).setWidth 64
  let v := vmcsWritel s.vmcs .guestRip rip
  let interruptibility := vmcsRead32 v .guestInterruptibilityInfo
  s.setVmcs (if interruptibility &&& 3 != 0 then
      vmcsWrite32 v .guestInterruptibilityInfo (interruptibility &&& ~~~3)
    else v)

/-- `WRMSR` to EFER. -/
def setEfer (s : KvmVcpu) (efer : BitVec 64) : Option KvmVcpu :=
  if efer &&& eferReservedBits != 0 then some s.injectGp
  else if isPaging s.vmcs && (s.shadowEfer &&& eferLme) != (efer &&& eferLme) then some s.injectGp
  else
    let efer := efer &&& ~~~eferLma
    let efer := efer ||| (s.shadowEfer &&& eferLma)
    let s := { s with shadowEfer := efer }
    match findMsrEntry s msrEfer with
    | none => none
    | some msr =>
      let efer := if efer &&& eferLma == 0 then efer &&& ~~~eferLme else efer
      some (skipEmulatedInstruction (s.setMsr msr efer))

/-! ### CR0, CR4, CR8 -/

/-- The switch into or out of long mode in `__set_cr0`. -/
def switchLmode (s : KvmVcpu) (cr0 : BitVec 64) : Option KvmVcpu :=
  if s.shadowEfer &&& eferLme != 0 then
    (if !isPaging s.vmcs && cr0 &&& cr0PgMask != 0 then enterLmode s else some s).map fun s =>
      if isPaging s.vmcs && cr0 &&& cr0PgMask == 0 then exitLmode s else s
  else some s

/-- The switch into or out of emulated real mode in `__set_cr0`. -/
def switchRmode (s : KvmVcpu) (cr0 : BitVec 64) : KvmVcpu :=
  let s := if s.rmode.active && cr0 &&& cr0PeMask != 0 then enterPmode s else s
  if !s.rmode.active && cr0 &&& cr0PeMask == 0 then enterRmode s else s

/-- `__set_cr0`. -/
def rawSetCr0 (s : KvmVcpu) (cr0 : BitVec 64) : Option KvmVcpu :=
  (switchLmode (switchRmode s cr0) cr0).map fun s =>
    s.setVmcs (vmcsWritel (vmcsWritel s.vmcs .cr0ReadShadow cr0) .guestCr0 (cr0 ||| kvmVmCr0AlwaysOn))

/-- The checks of `set_cr0`. -/
def cr0Faults (s : KvmVcpu) (cr0 : BitVec 64) : Option Bool :=
  if cr0 &&& cr0ReservedBits != 0 then some true
  else if cr0 &&& cr0NwMask != 0 && cr0 &&& cr0CdMask == 0 then some true
  else if cr0 &&& cr0PgMask != 0 && cr0 &&& cr0PeMask == 0 then some true
  else if !isPaging s.vmcs && cr0 &&& cr0PgMask != 0 then
    if s.shadowEfer &&& eferLme != 0 then
      if !isPae s.vmcs then some true
      else some (vmcsRead32 s.vmcs .guestCsArBytes &&& segmentArLMask != 0)
    else if isPae s.vmcs then pdptrsHaveReservedBitsSet s.toVcpu s.cr3
    else some false
  else some false

def setCr0 (s : KvmVcpu) (cr0 : BitVec 64) : Option KvmVcpu :=
  match cr0Faults s cr0 with
  | none => none
  | some true => some s.injectGp
  | some false => (rawSetCr0 s cr0).map KvmVcpu.resetContext

def lmsw (s : KvmVcpu) (msw : BitVec 64) : KvmVcpu :=
  let cr0 := guestCr0 s.vmcs
  let s := if msw &&& cr0PeMask != 0 && cr0 &&& cr0PeMask == 0 then
      let s := enterPmode s
      s.setVmcs (vmcsWritel s.vmcs .cr0ReadShadow (cr0 ||| cr0PeMask))
    else s
  s.setVmcs (vmcsWritel s.vmcs .guestCr0
    ((vmcsReadl s.vmcs .guestCr0 &&& ~~~lmswGuestMask) ||| (msw &&& lmswGuestMask)))

/-- `__set_cr4`. -/
def rawSetCr4 (s : KvmVcpu) (cr4 : BitVec 64) : KvmVcpu :=
  s.setVmcs (vmcsWritel (vmcsWritel s.vmcs .cr4ReadShadow cr4) .guestCr4
    (cr4 ||| (if s.rmode.active then kvmRmodeVmCr4AlwaysOn else kvmPmodeVmCr4AlwaysOn)))

/-- The end of `set_cr4`, after the checks that depend on the paging mode. -/
def loadCr4 (s : KvmVcpu) (cr4 : BitVec 64) : KvmVcpu :=
  if cr4 &&& cr4VmxeMask != 0 then s.injectGp else (rawSetCr4 s cr4).resetContext

def setCr4 (s : KvmVcpu) (cr4 : BitVec 64) : Option KvmVcpu :=
  if cr4 &&& cr4ReservedBits != 0 then some s.injectGp
  else if isLongMode s.vmcs then
    if cr4 &&& cr4PaeMask == 0 then some s.injectGp else some (loadCr4 s cr4)
  else if isPaging s.vmcs && !isPae s.vmcs && cr4 &&& cr4PaeMask != 0 then
    match pdptrsHaveReservedBitsSet s.toVcpu s.cr3 with
    | none => none
    -- there is no return after the injection
    | some true => some (loadCr4 s.injectGp cr4)
    | some false => some (loadCr4 s cr4)
  else some (loadCr4 s cr4)

def setCr8 (s : KvmVcpu) (cr8 : BitVec 64) : KvmVcpu :=
  if cr8 &&& cr8ReservedBits != 0 then s.injectGp else { s with cr8 := cr8 }

/-- `set_cr3`. -/
def KvmVcpu.setCr3 (s : KvmVcpu) (cr3 : BitVec 64) : Option KvmVcpu :=
  (LearnKvm.setCr3 s.toVcpu cr3).map fun v => { s with toVcpu := v }

/-! ### The exit handler -/

/-- Sync the rsp and rip registers into the vcpu structure. -/
def vcpuLoadRspRip (s : KvmVcpu) : KvmVcpu :=
  { s with regs := Function.update s.regs 4 (vmcsReadl s.vmcs .guestRsp), rip := vmcsReadl s.vmcs .guestRip }

/-- Sync rsp and rip back into the VMCS. -/
def vcpuPutRspRip (s : KvmVcpu) : KvmVcpu :=
  s.setVmcs (vmcsWritel (vmcsWritel s.vmcs .guestRsp (s.regs 4)) .guestRip s.rip)

/-- The exit for an access to a control register.  `false` is the return value 0, with an exit reason of 0 for user
space. -/
def handleCr (s : KvmVcpu) : Option (KvmVcpu × Bool) :=
  let exitQualification := vmcsReadl s.vmcs .exitQualification
  let cr := (Bits.field 0 4 exitQualification).toNat
  let reg := (Bits.field 8 4 exitQualification).toFin
  match (Bits.field 4 2 exitQualification).toNat with
  | 0 =>
    let t := vcpuLoadRspRip s
    match cr with
    | 0 => (setCr0 t (t.regs reg)).map fun s => (skipEmulatedInstruction s, true)
    | 3 => (t.setCr3 (t.regs reg)).map fun s => (skipEmulatedInstruction s, true)
    | 4 => (setCr4 t (t.regs reg)).map fun s => (skipEmulatedInstruction s, true)
    | 8 => some (skipEmulatedInstruction (setCr8 t (t.regs reg)), true)
    | _ => some (s, false)
  | 1 =>
    let t := vcpuLoadRspRip s
    match cr with
    | 3 => some (skipEmulatedInstruction (vcpuPutRspRip { t with regs := Function.update t.regs reg t.cr3 }), true)
    | 8 => some (skipEmulatedInstruction (vcpuPutRspRip { t with regs := Function.update t.regs reg t.cr8 }), true)
    | _ => some (s, false)
  | 3 => some (skipEmulatedInstruction (lmsw s ((exitQualification >>> 16) &&& 0x0f)), true)
  | _ => some (s, false)

end LearnKvm
