import Mathlib.Data.BitVec
import LearnKvm.Lib.Bits

/-!
# The VMCS (`vmx.h`)

The virtual-machine control structure is a record of 64-bit fields, addressed by `VmcsField` and accessed with
`vmcsReadl` and `vmcsWritel`.  The guest views of CR0 and CR4 (`guestCr0`, `guestCr4`) combine the hardware register
with the read shadow under the masks of bits that belong to the host (`kvm.h`).
-/

namespace LearnKvm

/-- The fields of `enum vmcs_field`. -/
inductive VmcsField where
  | guestEsSelector | guestCsSelector | guestSsSelector | guestDsSelector | guestFsSelector
  | guestGsSelector | guestLdtrSelector | guestTrSelector | hostEsSelector | hostCsSelector
  | hostSsSelector | hostDsSelector | hostFsSelector | hostGsSelector | hostTrSelector | ioBitmapA
  | ioBitmapAHigh | ioBitmapB | ioBitmapBHigh | msrBitmap | msrBitmapHigh | vmExitMsrStoreAddr
  | vmExitMsrStoreAddrHigh | vmExitMsrLoadAddr | vmExitMsrLoadAddrHigh | vmEntryMsrLoadAddr
  | vmEntryMsrLoadAddrHigh | tscOffset | tscOffsetHigh | virtualApicPageAddr | virtualApicPageAddrHigh
  | vmcsLinkPointer | vmcsLinkPointerHigh | guestIa32Debugctl | guestIa32DebugctlHigh
  | pinBasedVmExecControl | cpuBasedVmExecControl | exceptionBitmap | pageFaultErrorCodeMask
  | pageFaultErrorCodeMatch | cr3TargetCount | vmExitControls | vmExitMsrStoreCount | vmExitMsrLoadCount
  | vmEntryControls | vmEntryMsrLoadCount | vmEntryIntrInfoField | vmEntryExceptionErrorCode
  | vmEntryInstructionLen | tprThreshold | secondaryVmExecControl | vmInstructionError | vmExitReason
  | vmExitIntrInfo | vmExitIntrErrorCode | idtVectoringInfoField | idtVectoringErrorCode
  | vmExitInstructionLen | vmxInstructionInfo | guestEsLimit | guestCsLimit | guestSsLimit | guestDsLimit
  | guestFsLimit | guestGsLimit | guestLdtrLimit | guestTrLimit | guestGdtrLimit | guestIdtrLimit
  | guestEsArBytes | guestCsArBytes | guestSsArBytes | guestDsArBytes | guestFsArBytes | guestGsArBytes
  | guestLdtrArBytes | guestTrArBytes | guestInterruptibilityInfo | guestActivityState | guestSysenterCs
  | hostIa32SysenterCs | cr0GuestHostMask | cr4GuestHostMask | cr0ReadShadow | cr4ReadShadow
  | cr3TargetValue0 | cr3TargetValue1 | cr3TargetValue2 | cr3TargetValue3 | exitQualification
  | guestLinearAddress | guestCr0 | guestCr3 | guestCr4 | guestEsBase | guestCsBase | guestSsBase
  | guestDsBase | guestFsBase | guestGsBase | guestLdtrBase | guestTrBase | guestGdtrBase | guestIdtrBase
  | guestDr7 | guestRsp | guestRip | guestRflags | guestPendingDbgExceptions | guestSysenterEsp
  | guestSysenterEip | hostCr0 | hostCr3 | hostCr4 | hostFsBase | hostGsBase | hostTrBase | hostGdtrBase
  | hostIdtrBase | hostIa32SysenterEsp | hostIa32SysenterEip | hostRsp | hostRip
  deriving DecidableEq

/-- The contents of the current VMCS. -/
abbrev Vmcs := VmcsField → BitVec 64

def vmcsReadl (v : Vmcs) (field : VmcsField) : BitVec 64 := v field

def vmcsRead32 (v : Vmcs) (field : VmcsField) : BitVec 32 := (vmcsReadl v field).setWidth 32

def vmcsWritel (v : Vmcs) (field : VmcsField) (value : BitVec 64) : Vmcs := Function.update v field value

def vmcsWrite32 (v : Vmcs) (field : VmcsField) (value : BitVec 32) : Vmcs := vmcsWritel v field (value.setWidth 64)

theorem vmcsReadl_vmcsWritel (v : Vmcs) (f g : VmcsField) (x : BitVec 64) :
    vmcsReadl (vmcsWritel v f x) g = if g = f then x else vmcsReadl v g :=
  Function.update_apply ..

@[simp] theorem vmcsReadl_vmcsWritel_self (v : Vmcs) (f : VmcsField) (x : BitVec 64) :
    vmcsReadl (vmcsWritel v f x) f = x := Function.update_self ..

theorem vmcsReadl_vmcsWritel_of_ne {v : Vmcs} {f g : VmcsField} {x : BitVec 64} (h : g ≠ f) :
    vmcsReadl (vmcsWritel v f x) g = vmcsReadl v g := Function.update_of_ne h ..

/-! ### Control registers -/

def cr0PeMask : BitVec 64 := 1#64 <<< 0
def cr0NeMask : BitVec 64 := 1#64 <<< 5
def cr0WpMask : BitVec 64 := 1#64 <<< 16
def cr0NwMask : BitVec 64 := 1#64 <<< 29
def cr0CdMask : BitVec 64 := 1#64 <<< 30
def cr0PgMask : BitVec 64 := 1#64 <<< 31

def cr3WptMask : BitVec 64 := 1#64 <<< 3
def cr3PcdMask : BitVec 64 := 1#64 <<< 4
def cr3ReservedBits : BitVec 64 := 0x07#64
def cr3LModeReservedBits : BitVec 64 := ~~~(1#64 <<< 40 - 1#64) ||| 0x0fe7#64
def cr3FlagsMask : BitVec 64 := 1#64 <<< 5 - 1#64

def cr4VmeMask : BitVec 64 := 1#64 <<< 0
def cr4PseMask : BitVec 64 := 1#64 <<< 4
def cr4PaeMask : BitVec 64 := 1#64 <<< 5
def cr4PgeMask : BitVec 64 := 1#64 <<< 7
def cr4VmxeMask : BitVec 64 := 1#64 <<< 13

def kvmGuestCr0Mask : BitVec 64 := cr0PgMask ||| cr0PeMask ||| cr0WpMask ||| cr0NeMask
def kvmVmCr0AlwaysOn : BitVec 64 := kvmGuestCr0Mask

def kvmGuestCr4Mask : BitVec 64 := cr4PseMask ||| cr4PaeMask ||| cr4PgeMask ||| cr4VmxeMask ||| cr4VmeMask
def kvmPmodeVmCr4AlwaysOn : BitVec 64 := cr4VmxeMask ||| cr4PaeMask
def kvmRmodeVmCr4AlwaysOn : BitVec 64 := cr4VmxeMask ||| cr4PaeMask ||| cr4VmeMask

def guestCr4 (v : Vmcs) : BitVec 64 :=
  (vmcsReadl v .cr4ReadShadow &&& kvmGuestCr4Mask) ||| (vmcsReadl v .guestCr4 &&& ~~~kvmGuestCr4Mask)

def guestCr0 (v : Vmcs) : BitVec 64 :=
  (vmcsReadl v .cr0ReadShadow &&& kvmGuestCr0Mask) ||| (vmcsReadl v .guestCr0 &&& ~~~kvmGuestCr0Mask)

def vmEntryControlsIa32eMask : BitVec 32 := 1#32 <<< 9

def isLongMode (v : Vmcs) : Bool := vmcsRead32 v .vmEntryControls &&& vmEntryControlsIa32eMask != 0
def isPae (v : Vmcs) : Bool := guestCr4 v &&& cr4PaeMask != 0
def isPse (v : Vmcs) : Bool := guestCr4 v &&& cr4PseMask != 0
def isPaging (v : Vmcs) : Bool := guestCr0 v &&& cr0PgMask != 0
def isWriteProtection (v : Vmcs) : Bool := guestCr0 v &&& cr0WpMask != 0

/-- The bits of the mask are the guest's own, in the read shadow. -/
theorem hasBit_guestCr0 (v : Vmcs) {i : Nat} (h : kvmGuestCr0Mask.hasBit i = true) :
    (guestCr0 v).hasBit i = (v .cr0ReadShadow).hasBit i := by
  unfold guestCr0 vmcsReadl
  simp [h]

theorem hasBit_guestCr4 (v : Vmcs) {i : Nat} (h : kvmGuestCr4Mask.hasBit i = true) :
    (guestCr4 v).hasBit i = (v .cr4ReadShadow).hasBit i := by
  unfold guestCr4 vmcsReadl
  simp [h]

theorem isPaging_eq (v : Vmcs) : isPaging v = (v .cr0ReadShadow).hasBit 31 :=
  (Bits.and_one_shiftLeft_bne_zero (by decide) _).trans (hasBit_guestCr0 v (by decide))

theorem isPae_eq (v : Vmcs) : isPae v = (v .cr4ReadShadow).hasBit 5 :=
  (Bits.and_one_shiftLeft_bne_zero (by decide) _).trans (hasBit_guestCr4 v (by decide))

theorem isLongMode_eq (v : Vmcs) : isLongMode v = (v .vmEntryControls).hasBit 9 := by
  refine (Bits.and_one_shiftLeft_bne_zero (by decide) _).trans ?_
  unfold vmcsRead32 vmcsReadl
  simp

/-! ### Interruption information -/

def intrInfoVectorMask : BitVec 32 := 0xff#32
def intrInfoIntrTypeMask : BitVec 32 := 0x700#32
def intrInfoDelieverCodeMask : BitVec 32 := 0x800#32
def intrInfoValidMask : BitVec 32 := 0x80000000#32
def intrTypeExtIntr : BitVec 32 := 0#32 <<< 8
def intrTypeException : BitVec 32 := 3#32 <<< 8

def dfVector : BitVec 32 := 8#32
def gpVector : BitVec 32 := 13#32
def pfVector : BitVec 32 := 14#32

def isPageFault (intrInfo : BitVec 32) : Bool :=
  intrInfo &&& (intrInfoIntrTypeMask ||| intrInfoVectorMask ||| intrInfoValidMask) ==
    (intrTypeException ||| pfVector ||| intrInfoValidMask)

/-- The interruption information with which an exception `vector` is delivered with an error code. -/
def exceptionInfo (vector : BitVec 32) : BitVec 32 :=
  vector ||| intrTypeException ||| intrInfoDelieverCodeMask ||| intrInfoValidMask

def injectGp (v : Vmcs) : Vmcs :=
  vmcsWrite32 (vmcsWrite32 v .vmEntryExceptionErrorCode 0) .vmEntryIntrInfoField (exceptionInfo gpVector)

end LearnKvm
