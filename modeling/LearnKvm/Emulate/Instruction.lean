import LearnKvm.Emulate.Restart
import LearnKvm.GuestMemory

/-!
# `emulate_instruction` (`kvm_main.c`)

The callbacks of the module and the real-mode services behind the emulator, on an x86-64 host, and `emulate_instruction`,
which runs the emulator with them and takes the outcome over into the vcpu and the VMCS.

A read callback stores the bytes it has read over the previous content of `*val`, a variable on the stack of the emulator:
`stale` is that content, and nothing is assumed of it.
-/

namespace LearnKvm

open Calls

/-- The vcpu with the fields in which an access to device memory waits for user space. -/
structure MmioVcpu extends KvmVcpu where
  mmioNeeded : Bool
  mmioReadCompleted : Bool
  mmioIsWrite : Bool
  mmioData : BitVec 64
  mmioSize : Nat
  mmioPhysAddr : BitVec 64

def MmioVcpu.setVcpu (s : MmioVcpu) (v : KvmVcpu) : MmioVcpu := { s with toKvmVcpu := v }

/-- The state behind the callbacks.  `oops`: a null pointer was dereferenced. -/
structure OpsState where
  vcpu : MmioVcpu
  oops : Bool

namespace OpsState

def setVcpu (s : OpsState) (v : KvmVcpu) : OpsState := { s with vcpu := s.vcpu.setVcpu v }

/-- The result of a function that may dereference a null pointer. -/
def setVcpu? (s : OpsState) : Option KvmVcpu → OpsState
  | some v => s.setVcpu v
  | none => { s with oops := true }

/-- The reply of a callback and its change of the vcpu. -/
def reply {α : Type} (s : OpsState) (r : α × MmioVcpu) : α × OpsState := (r.1, { s with vcpu := r.2 })

end OpsState

/-! ### The callbacks -/

/-- The loop of `emulator_read_std`, with a bound on the number of pages. -/
def readStdLoop (s : Vcpu) : Nat → BitVec 64 → Nat → Except X86EmulError (BitVec 64)
  | 0, _, _ => .ok 0
  | rounds + 1, addr, bytes =>
    if bytes = 0 then .ok 0
    else
      let gpa := mmuGvaToGpa s addr
      let tocopy := min bytes (restOfPage addr)
      if gpa = unmappedGva then .error .propagateFault
      else
        match gfnToMemslot s.kvm (gfnOf gpa) with
        | none => .error .unhandleable
        | some memslot =>
          let page := hpaOf (gfnToPage s.kvm memslot (gfnOf gpa))
          match readStdLoop s rounds (addr + BitVec.ofNat 64 tocopy) (bytes - tocopy) with
          | .ok rest => .ok (ByteMem.load s.mem (page + (addr &&& ~~~pageMask)) tocopy ||| (rest <<< (8 * tocopy)))
          | .error rc => .error rc

/-- `val` is the previous content of `*val`. -/
def emulatorReadStd (s : Vcpu) (addr val : BitVec 64) (bytes : Nat) : Except X86EmulError (BitVec 64) :=
  (readStdLoop s bytes addr bytes).map fun data => @setLow .x86_64 bytes val data

def emulatorWriteStd (s : MmioVcpu) : Except X86EmulError Unit × MmioVcpu := (.error .unhandleable, s)

def emulatorReadEmulated (s : MmioVcpu) (addr val : BitVec 64) (bytes : Nat) :
    Except X86EmulError (BitVec 64) × MmioVcpu :=
  if s.mmioReadCompleted then
    (.ok (@setLow .x86_64 bytes val s.mmioData), { s with mmioReadCompleted := false })
  else
    match emulatorReadStd s.toVcpu addr val bytes with
    | .ok val => (.ok val, s)
    | .error _ =>
      let gpa := mmuGvaToGpa s.toVcpu addr
      if gpa = unmappedGva then (.error .propagateFault, s)
      else (.error .unhandleable,
        { s with mmioNeeded := true, mmioPhysAddr := gpa, mmioSize := bytes, mmioIsWrite := false })

def emulatorWriteEmulated (s : MmioVcpu) (addr val : BitVec 64) (bytes : Nat) : Except X86EmulError Unit × MmioVcpu :=
  let gpa := mmuGvaToGpa s.toVcpu addr
  if gpa = unmappedGva then (.error .propagateFault, s)
  else (.ok (), { s with
    mmioNeeded := true, mmioPhysAddr := gpa, mmioSize := bytes, mmioIsWrite := true
    mmioData := @setLow .x86_64 bytes s.mmioData val })

/-- An exchange is emulated as a write. -/
def emulatorCmpxchgEmulated (s : MmioVcpu) (addr _old new : BitVec 64) (bytes : Nat) :
    Except X86EmulError Unit × MmioVcpu :=
  emulatorWriteEmulated s addr new bytes

/-! ### Real-mode services -/

/-- `mk_cr_64`: a 32-bit value in the low half. -/
def mkCr64 (currCr : BitVec 64) (newVal : BitVec 32) : BitVec 64 :=
  (currCr &&& ~~~(1#64 <<< 32 - 1#64)) ||| newVal.setWidth 64

def realmodeLgdt (s : KvmVcpu) (limit : BitVec 16) (base : BitVec 64) : KvmVcpu :=
  s.setVmcs (vmcsWrite32 (vmcsWritel s.vmcs .guestGdtrBase base) .guestGdtrLimit (limit.setWidth 32))

def realmodeLidt (s : KvmVcpu) (limit : BitVec 16) (base : BitVec 64) : KvmVcpu :=
  s.setVmcs (vmcsWrite32 (vmcsWritel s.vmcs .guestIdtrBase base) .guestIdtrLimit (limit.setWidth 32))

def realmodeGetCr (s : KvmVcpu) (cr : BitVec 8) : BitVec 64 :=
  if cr = 0 then guestCr0 s.vmcs
  else if cr = 2 then s.cr2
  else if cr = 3 then s.cr3
  else if cr = 4 then guestCr4 s.vmcs
  else 0

def realmodeSetCr (s : KvmVcpu) (cr : BitVec 8) (val : BitVec 64) : Option KvmVcpu :=
  if cr = 0 then setCr0 s (mkCr64 (guestCr0 s.vmcs) (val.setWidth 32))
  else if cr = 2 then some { s with cr2 := val }
  else if cr = 3 then s.setCr3 val
  else if cr = 4 then setCr4 s (mkCr64 (guestCr4 s.vmcs) (val.setWidth 32))
  else some s

/-- `emulate_ops` and the services: `*rflags` is read from the VMCS after `lmsw` and after a write of CR0. -/
def emulateOps (stale : OpCall .x86_64 → BitVec 64) :
    (c : OpCall .x86_64) → OpsState → OpReply .x86_64 c × OpsState
  | .readStd addr bytes, s => (emulatorReadStd s.vcpu.toVcpu addr (stale (.readStd addr bytes)) bytes, s)
  | .writeStd .., s => s.reply (emulatorWriteStd s.vcpu)
  | .readEmulated addr bytes, s => s.reply (emulatorReadEmulated s.vcpu addr (stale (.readEmulated addr bytes)) bytes)
  | .writeEmulated addr val bytes, s => s.reply (emulatorWriteEmulated s.vcpu addr val bytes)
  | .cmpxchgEmulated addr old new bytes, s => s.reply (emulatorCmpxchgEmulated s.vcpu addr old new bytes)
  | .cmpxchg8bEmulated .., s => (.error .unhandleable, s)
  | .realmodeLgdt limit base, s => ((), s.setVcpu (realmodeLgdt s.vcpu.toKvmVcpu limit base))
  | .realmodeLidt limit base, s => ((), s.setVcpu (realmodeLidt s.vcpu.toKvmVcpu limit base))
  | .realmodeLmsw msw _, s =>
    let t := s.setVcpu (lmsw s.vcpu.toKvmVcpu msw)
    (vmcsReadl t.vcpu.vmcs .guestRflags, t)
  | .realmodeGetCr cr, s => (realmodeGetCr s.vcpu.toKvmVcpu cr, s)
  | .realmodeSetCr cr val rflags, s =>
    let t := s.setVcpu? (realmodeSetCr s.vcpu.toKvmVcpu cr val)
    (if cr = 0 then vmcsReadl t.vcpu.vmcs .guestRflags else rflags, t)

/-! ### The instruction -/

def arLMask : BitVec 32 := 1#32 <<< 13
def arDbMask : BitVec 32 := 1#32 <<< 14

/-- The mode of the guest. -/
def emulMode (v : Vmcs) : X86EmulMode :=
  let csAr := vmcsRead32 v .guestCsArBytes
  if vmcsReadl v .guestRflags &&& x86EflagsVm != 0 then .real
  else if csAr &&& arLMask != 0 then .prot64
  else if csAr &&& arDbMask != 0 then .prot32
  else .prot16

/-- The context of `emulate_instruction`, for the vcpu with rsp and rip loaded. -/
def emulateCtxt (s : KvmVcpu) (cr2 : BitVec 64) : X86EmulateCtxt .x86_64 :=
  let base := fun field => if emulMode s.vmcs = .prot64 then 0#64 else vmcsReadl s.vmcs field
  { regs := fun r => s.regs r.toFin, rip := s.rip, eflags := vmcsReadl s.vmcs .guestRflags, cr2 := cr2
    mode := emulMode s.vmcs
    csBase := base .guestCsBase, dsBase := base .guestDsBase, esBase := base .guestEsBase
    ssBase := base .guestSsBase, gsBase := base .guestGsBase, fsBase := base .guestFsBase }

inductive EmulationResult where
  | done | doMmio | fail
  deriving DecidableEq

/-- `kvm_run->mmio`. -/
structure MmioRequest where
  physAddr : BitVec 64
  data : BitVec 64
  len : Nat
  isWrite : Bool

/-- The vcpu on which the emulator runs, with rsp and rip loaded. -/
def emulateVcpu (s : MmioVcpu) : MmioVcpu :=
  { s.setVcpu (vcpuLoadRspRip s.toKvmVcpu) with mmioIsWrite := false }

/-- The registers of the context are those of the vcpu. -/
def MmioVcpu.setRegs (s : MmioVcpu) (ctxt : X86EmulateCtxt .x86_64) : MmioVcpu :=
  { s with regs := fun r => ctxt.regs (BitVec.ofFin r), rip := ctxt.rip }

/-- `vcpu_put_rsp_rip`, and the flags of the context. -/
def MmioVcpu.putCtxt (s : MmioVcpu) (ctxt : X86EmulateCtxt .x86_64) : MmioVcpu :=
  let v := vcpuPutRspRip s.toKvmVcpu
  s.setVcpu (v.setVmcs (vmcsWritel v.vmcs .guestRflags ctxt.eflags))

/-- The run of the emulator in `emulate_instruction`. -/
def emulateRun (stale : OpCall .x86_64 → BitVec 64) (cpu : HostCpu .x86_64) (s : MmioVcpu) (cr2 : BitVec 64) :
    Calls.Outcome (OpReply .x86_64) (Exit .x86_64) OpsState (Exec .x86_64) :=
  (emulate cpu false (emulateCtxt (emulateVcpu s).toKvmVcpu cr2)).run (emulateOps stale) ⟨emulateVcpu s, false⟩

/-- The outcome, and `run->mmio` if there is a `run`.  `none`: a null pointer was dereferenced. -/
def emulateInstruction (stale : OpCall .x86_64 → BitVec 64) (cpu : HostCpu .x86_64) (s : MmioVcpu)
    (run : Option MmioRequest) (cr2 : BitVec 64) : Option (EmulationResult × MmioVcpu × Option MmioRequest) :=
  let o := emulateRun stale cpu s cr2
  let (r, ctxt) := (emulateCtxt (emulateVcpu s).toKvmVcpu cr2).finish o.result
  let s := o.state.vcpu.setRegs ctxt
  if o.state.oops then none
  else
    let run := if r ≠ 0 ∨ s.mmioIsWrite = true then
        run.map fun _ => ⟨s.mmioPhysAddr, s.mmioData, s.mmioSize, s.mmioIsWrite⟩
      else run
    if r ≠ 0 then some (if s.mmioNeeded then .doMmio else .fail, s, run)
    else some (if s.mmioIsWrite then .doMmio else .done, s.putCtxt ctxt, run)

/-! ### The exit handler -/

inductive ExitReason where
  | none | exception | debug | mmio
  deriving DecidableEq

/-- The fields of `struct kvm_run` that `handle_exception` fills. -/
structure KvmRun where
  exitReason : ExitReason
  mmio : MmioRequest
  exception : BitVec 32
  errorCode : BitVec 32

/-- `true`: the exception is handled.  The emulator gets no `kvm_run`. -/
def handleRmodeException (stale : OpCall .x86_64 → BitVec 64) (cpu : HostCpu .x86_64) (s : MmioVcpu)
    (vec errCode : BitVec 32) : Option (MmioVcpu × Bool) :=
  if !s.rmode.active then some (s, false)
  else if vec = gpVector ∧ errCode = 0 then
    (emulateInstruction stale cpu s none 0).map fun (er, s, _) => (s, er = .done)
  else some (s, false)

/-- The part of `handle_exception` that is not about page faults. -/
def handleOtherException (stale : OpCall .x86_64 → BitVec 64) (cpu : HostCpu .x86_64) (s : MmioVcpu) (run : KvmRun)
    (intrInfo errorCode : BitVec 32) : Option (MmioVcpu × KvmRun × Bool) :=
  match (if s.rmode.active then handleRmodeException stale cpu s (intrInfo &&& intrInfoVectorMask) errorCode
    else some (s, false)) with
  | none => none
  | some (s, true) => some (s, run, true)
  | some (s, false) =>
    if intrInfo &&& (intrInfoIntrTypeMask ||| intrInfoVectorMask) = (intrTypeException ||| 1) then
      some (s, { run with exitReason := .debug }, false)
    else some (s, { run with
      exitReason := .exception, exception := intrInfo &&& intrInfoVectorMask, errorCode := errorCode }, false)

/-- The error code of an exception. -/
def exitErrorCode (v : Vmcs) : BitVec 32 :=
  if vmcsRead32 v .vmExitIntrInfo &&& intrInfoDelieverCodeMask != 0 then vmcsRead32 v .vmExitIntrErrorCode else 0

def isNmi (intrInfo : BitVec 32) : Bool := intrInfo &&& intrInfoIntrTypeMask == 0x200

/-- `handle_exception`, after an interrupted delivery was queued again.  `true` means that the guest is entered again,
`false` that the ioctl returns. -/
def handleException (stale : OpCall .x86_64 → BitVec 64) (cpu : HostCpu .x86_64) (s : MmioVcpu) (run : KvmRun)
    (fuel : Nat) : Option (MmioVcpu × KvmRun × Bool) :=
  let intrInfo := vmcsRead32 s.vmcs .vmExitIntrInfo
  let errorCode := exitErrorCode s.vmcs
  if isNmi intrInfo then some (s, run, true)
  else if isPageFault intrInfo then
    let cr2 := vmcsReadl s.vmcs .exitQualification
    match mmuPageFault s.toVcpu cr2 errorCode fuel with
    | none => none
    | some (v, false) => some ({ s with toVcpu := v }, run, true)
    | some (v, true) =>
      match emulateInstruction stale cpu { s with toVcpu := v } (some run.mmio) cr2 with
      | none => none
      | some (er, s, mmio) =>
        let run := { run with mmio := mmio.getD run.mmio }
        match er with
        | .done => some (s, run, true)
        | .doMmio => some (s, { run with exitReason := .mmio }, false)
        | .fail => handleOtherException stale cpu s run intrInfo errorCode
  else handleOtherException stale cpu s run intrInfo errorCode

end LearnKvm
