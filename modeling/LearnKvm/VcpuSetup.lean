import LearnKvm.Registers

/-!
# Setting up a vcpu (`kvm_vcpu_setup`)

The registers, the guest state and the controls of a new vcpu, which starts in emulated real mode, the arrays of
model-specific registers and the pool of shadow pages.  `Host` is what the processor and fresh memory give: the
model-specific registers that can be read, and the fixed bits of the VMX controls.  `Allocs` are the results of the
allocations of one call.  `VcpuAlloc` adds to the vcpu the pointers to what it has allocated, and a ledger `live` of
everything that has been allocated and not been freed.  The fields for the host state of the VMCS, and those for the
addresses of the arrays, are left out.
-/

namespace LearnKvm

/-- What `kvm_vcpu_setup` reads from the processor and finds in fresh memory. -/
structure Host where
  rdmsrSafe : BitVec 32 → Option (BitVec 64)
  tsc : BitVec 64
  /-- The fields of a VMCS that has only been cleared. -/
  vmcs : Vmcs
  /-- What an array from `kmalloc` holds. -/
  kmalloc : Nat → VmxMsrEntry

/-- The results of the allocations of a call; `none` is a null pointer. -/
structure Allocs where
  vmcs : Option Nat
  guestMsrs : Option Nat
  hostMsrs : Option Nat
  mmuPages : Fin 256 → Option Pfn

inductive Resource where
  | vmcs (p : Nat)
  | array (p : Nat)
  | page (p : Pfn)
  deriving DecidableEq

structure VcpuAlloc extends KvmVcpu where
  vmcsPtr : Option Nat
  guestMsrsPtr : Option Nat
  hostMsrsPtr : Option Nat
  hostMsrs : Nat → VmxMsrEntry
  /-- What is allocated. -/
  live : List Resource

/-- A vcpu as `kvm_dev_open` leaves it. -/
instance : Inhabited VcpuAlloc := ⟨{
  (default : KvmVcpu) with
  vmcsPtr := none
  guestMsrsPtr := none
  hostMsrsPtr := none
  hostMsrs := fun _ => ⟨0, 0⟩
  live := [] }⟩

def enomem : Int := 12
def eexist : Int := 17
def einval : Int := 22

def msrIa32VmxPinbasedCtlsMsr : BitVec 32 := 0x481#32
def msrIa32VmxProcbasedCtlsMsr : BitVec 32 := 0x482#32
def msrIa32VmxExitCtlsMsr : BitVec 32 := 0x483#32
def msrIa32VmxEntryCtlsMsr : BitVec 32 := 0x484#32

def msrSyscallMask : BitVec 32 := 0xc0000084#32
def msrLstar : BitVec 32 := 0xc0000082#32
def msrCstar : BitVec 32 := 0xc0000083#32
def msrKernelGsBase : BitVec 32 := 0xc0000102#32
def msrK6Star : BitVec 32 := 0xc0000081#32

def vmxMsrIndex : List (BitVec 32) := [msrSyscallMask, msrLstar, msrCstar, msrKernelGsBase, msrEfer, msrK6Star]

def nrBadMsrs : Nat := 2

/-! ### The task state segment of real mode -/

/-- `_gfn_to_page`; `none` stands for 0. -/
def gfnToPageOrNull (kvm : Kvm) (gfn : BitVec 64) : Option Pfn :=
  (gfnToMemslot kvm gfn.toNat).map fun slot => gfnToPage kvm slot gfn.toNat

/-- `memset(page, 0, PAGE_SIZE)`. -/
def clearPage (s : Vcpu) (page : Pfn) : Vcpu :=
  { s with mem := fun a => if a &&& pageMask = hpaOf page then 0 else s.mem a }

/-- Returns `none` where the code returns 0. -/
def initRmodeTss (s : Vcpu) : Option Vcpu :=
  let fn := ((rmodeTssBase s.kvm).sshiftRight pageShift).signExtend 64
  match gfnToPageOrNull s.kvm fn, gfnToPageOrNull s.kvm (fn + 1#64), gfnToPageOrNull s.kvm (fn + 2#64) with
  | some p1, some p2, some p3 =>
    let s := clearPage s p1
    let s := { s with mem := ByteMem.store s.mem (hpaOf p1 + 0x66#64) 2 (0x68#64 + 32#64) }
    let s := clearPage s p2
    let s := clearPage s p3
    let s := { s with
      mem := ByteMem.store s.mem (hpaOf p3 + (rmodeTssSize.setWidth 64 - 2#64 * pageSize - 1#64)) 1 0xff }
    some s
  | _, _, _ => none

/-! ### The VMCS -/

/-- `vmcs_write32_fixedbits`. -/
def vmcsWrite32Fixedbits (host : Host) (msr : BitVec 32) (v : Vmcs) (field : VmcsField) (value : BitVec 32) : Vmcs :=
  let fixed := (host.rdmsrSafe msr).getD 0
  vmcsWrite32 v field ((value &&& Bits.field 32 32 fixed) ||| fixed.setWidth 32)

/-- `SEG_SETUP`. -/
def segSetup (seg : Segment) (v : Vmcs) : Vmcs :=
  let v := vmcsWrite16 v seg.selector 0
  let v := vmcsWritel v seg.base 0
  let v := vmcsWrite32 v seg.limit 0xffff
  vmcsWrite32 v seg.arBytes 0x93

/-- The writes of these fields, in this order. -/
def vmcsWrites (l : List (VmcsField × BitVec 64)) (v : Vmcs) : Vmcs := l.foldl (fun v w => vmcsWritel v w.1 w.2) v

/-- The guest state and the controls, up to the MSR arrays. -/
def setupVmcs (host : Host) (v : Vmcs) : Vmcs :=
  let v := vmcsWrites [(.guestCsSelector, 0xf000), (.guestCsBase, 0x000f0000), (.guestCsLimit, 0xffff),
    (.guestCsArBytes, 0x9b)] v
  let v := segSetup .ss (segSetup .gs (segSetup .fs (segSetup .es (segSetup .ds v))))
  let v := vmcsWrites [(.guestTrSelector, 0), (.guestTrBase, 0), (.guestTrLimit, 0xffff), (.guestTrArBytes, 0x008b),
    (.guestLdtrSelector, 0), (.guestLdtrBase, 0), (.guestLdtrLimit, 0xffff), (.guestLdtrArBytes, 0x00082),
    (.guestSysenterCs, 0), (.guestSysenterEsp, 0), (.guestSysenterEip, 0), (.guestRflags, 0x02), (.guestRip, 0xfff0),
    (.guestRsp, 0), (.guestCr3, 0), (.guestDr7, 0x400), (.guestGdtrBase, 0), (.guestGdtrLimit, 0xffff),
    (.guestIdtrBase, 0), (.guestIdtrLimit, 0xffff), (.guestActivityState, 0), (.guestInterruptibilityInfo, 0),
    (.guestPendingDbgExceptions, 0), (.ioBitmapA, 0), (.ioBitmapB, 0), (.tscOffset, -host.tsc),
    (.vmcsLinkPointer, ~~~0), (.guestIa32Debugctl, 0)] v
  let v := vmcsWrite32Fixedbits host msrIa32VmxPinbasedCtlsMsr v .pinBasedVmExecControl (0x1 ||| 0x8)
  let v := vmcsWrite32Fixedbits host msrIa32VmxProcbasedCtlsMsr v .cpuBasedVmExecControl
    (0x80 ||| 0x80000 ||| 0x100000 ||| 0x1000000 ||| 0x200 ||| 0x800000 ||| 0x8)
  vmcsWrites [(.exceptionBitmap, 1 <<< 14), (.pageFaultErrorCodeMask, 0), (.pageFaultErrorCodeMatch, 0),
    (.cr3TargetCount, 0)] v

/-- The controls that depend on the number of MSRs, and those after them. -/
def setupControls (host : Host) (nmsrs : Nat) (v : Vmcs) : Vmcs :=
  let nrGoodMsrs : BitVec 32 := BitVec.ofNat 32 nmsrs - BitVec.ofNat 32 nrBadMsrs
  let v := vmcsWrite32Fixedbits host msrIa32VmxExitCtlsMsr v .vmExitControls (1 <<< 9)
  let v := vmcsWrites [(.vmExitMsrStoreCount, nrGoodMsrs.setWidth 64), (.vmExitMsrLoadCount, nrGoodMsrs.setWidth 64),
    (.vmEntryMsrLoadCount, nrGoodMsrs.setWidth 64)] v
  let v := vmcsWrite32Fixedbits host msrIa32VmxEntryCtlsMsr v .vmEntryControls 0
  vmcsWrites [(.vmEntryIntrInfoField, 0), (.virtualApicPageAddr, 0), (.tprThreshold, 0),
    (.cr0GuestHostMask, kvmGuestCr0Mask), (.cr4GuestHostMask, kvmGuestCr4Mask)] v

/-! ### The call -/

/-- The registers at the start, and the guest state in the VMCS. -/
def setupRegs (host : Host) (s : KvmVcpu) : KvmVcpu :=
  { s with
    regs := Function.update (fun _ => 0) 2 1
    cr8 := 0
    apicBase := 0xfee00000 ||| 1 <<< 8 ||| 1 <<< 11
    vmcs := setupVmcs host s.vmcs }

/-- One round of the loop over `vmx_msr_index`. -/
def setupMsr (host : Host) (c : VcpuAlloc) (index : BitVec 32) : VcpuAlloc :=
  match host.rdmsrSafe index with
  | none => c
  | some data =>
    { c with
      hostMsrs := Function.update c.hostMsrs c.nmsrs ⟨index, data⟩
      guestMsrs := Function.update c.guestMsrs c.nmsrs ⟨index, data⟩
      nmsrs := c.nmsrs + 1 }

/-- Enter real mode. -/
def setupMode (s : KvmVcpu) : Option KvmVcpu :=
  match rawSetCr0 s 0x60000010 with
  | none => none
  | some s => rawSetEfer (rawSetCr4 s 0) 0

/-- The pages that the loop of `alloc_mmu_pages` gets. -/
def mmuPagesTaken (alloc : Fin 256 → Option Pfn) : List (Fin 256) → List Pfn
  | [] => []
  | i :: rest =>
    match alloc i with
    | none => []
    | some page => page :: mmuPagesTaken alloc rest

/-- `__free_page` for every page of a list. -/
def freePageList (live : List Resource) (pages : List Pfn) : List Resource :=
  pages.foldl (fun live page => live.erase (.page page)) live

/-- `kvm_mmu_init`, which frees the pages on the free list again when there are not enough. -/
def VcpuAlloc.kvmMmuInit (alloc : Fin 256 → Option Pfn) (c : VcpuAlloc) : VcpuAlloc × Int :=
  let taken := mmuPagesTaken alloc (List.finRange 256)
  let live := taken.map Resource.page ++ c.live
  match LearnKvm.kvmMmuInit alloc c.toVcpu with
  | (s, true) => ({ c with toVcpu := s, live := live }, 0)
  | (s, false) => ({ c with toVcpu := s, live := freePageList live (taken.reverse ++ c.freePages) }, -enomem)

/-- What follows the allocation of the MSR arrays. -/
def setupRest (host : Host) (allocs : Allocs) (c : VcpuAlloc) : Option (VcpuAlloc × Int) :=
  let c := vmxMsrIndex.foldl (setupMsr host) c
  match setupMode (c.toKvmVcpu.setVmcs (setupControls host c.nmsrs c.vmcs)) with
  | none => none
  | some s => some (VcpuAlloc.kvmMmuInit allocs.mmuPages { c with toKvmVcpu := s })

/-- Sets up the VMCS for emulated real mode.  Without pages for the task state segment it returns 0. -/
def kvmVcpuSetup (host : Host) (allocs : Allocs) (c : VcpuAlloc) : Option (VcpuAlloc × Int) :=
  match initRmodeTss c.toVcpu with
  | none => some (c, 0)
  | some s =>
    let c := { c with toKvmVcpu := setupRegs host { c.toKvmVcpu with toVcpu := s } }
    match allocs.guestMsrs with
    | none => some ({ c with guestMsrsPtr := none }, -enomem)
    | some p =>
      let c := { c with guestMsrsPtr := some p, guestMsrs := host.kmalloc, live := .array p :: c.live }
      match allocs.hostMsrs with
      | none => some ({ c with hostMsrsPtr := none, live := c.live.erase (.array p) }, -enomem)
      | some q =>
        setupRest host allocs { c with hostMsrsPtr := some q, hostMsrs := host.kmalloc, live := .array q :: c.live }

end LearnKvm
