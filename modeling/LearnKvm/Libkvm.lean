import LearnKvm.Emulate.Instruction

/-!
# libkvm (`libkvm/kvmctl.c`)

`kvm_run` calls `KVM_RUN` and handles the exit with the callbacks of the user, until a callback does not return 0.  The
handlers answer the module in two fields of `struct kvm_run`: `emulated` asks to skip the instruction, `mmio_completed`
says that `mmio.data` holds the value of a read.  The structure is a variable of `kvm_run` and ends with the call.

The exits for I/O and CPUID (`kvm_main.c`) are here too, and the beginning of `kvm_dev_ioctl_run`, which takes the answer.
-/

namespace LearnKvm

/-! ### `struct kvm_run` -/

inductive IoDirection where
  | input | output
  deriving DecidableEq

/-- `kvm_run->io`.  The module sets `rep` for string instructions only. -/
structure IoExit where
  direction : IoDirection
  size : Nat
  string : Bool
  stringDown : Bool
  rep : Bool
  port : BitVec 16
  count : BitVec 64
  address : BitVec 64

/-- How `KVM_RUN` returns to `kvm_run`.  `other`: for an exit that `kvm_run` does not handle. -/
inductive RunExit where
  | eintr | io | cpuid | debug | mmio | hlt | other
  deriving DecidableEq

/-- The structure of a call of `kvm_run`, with the exit that `KVM_RUN` has returned with. -/
structure RunStruct where
  emulated : Bool
  mmioCompleted : Bool
  exit : RunExit
  io : IoExit
  mmio : MmioRequest

/-- The structure at the beginning of `kvm_run`. -/
def RunStruct.fresh : RunStruct :=
  ⟨false, false, .other, ⟨.input, 0, false, false, false, 0, 0, 0⟩, ⟨0, 0, 0, false⟩⟩

/-- `kvm_run` clears the answer after `KVM_RUN`. -/
def RunStruct.cleared (run : RunStruct) : RunStruct := { run with emulated := false, mmioCompleted := false }

/-! ### The module: the exits -/

/-- The loop of `get_io_count` over the bytes of the instruction.  `none`: there are only prefixes. -/
def ioCountrSize : Nat → List (BitVec 8) → Option Nat
  | _, [] => none
  | countrSize, b :: inst =>
    if b ∈ [0xf0, 0xf2, 0xf3, 0x2e, 0x36, 0x3e, 0x26, 0x64, 0x65, 0x66] then ioCountrSize countrSize inst
    else if b = 0x67 then some (if countrSize = 2 then 4 else countrSize >>> 1)
    else some countrSize

/-- The part of a counter register that an address size selects. -/
def countMask (countrSize : Nat) : BitVec 64 := (~~~0#64) >>> (64 - 8 * countrSize)

def getIoCount (s : KvmVcpu) : Option (BitVec 64) :=
  let csAr := vmcsRead32 s.vmcs .guestCsArBytes
  let countrSize := if vmcsReadl s.vmcs .guestRflags &&& x86EflagsVm != 0 then 2
    else if csAr &&& arLMask != 0 then 8 else if csAr &&& arDbMask != 0 then 4 else 2
  let rip := vmcsReadl s.vmcs .guestRip
  let rip := if countrSize ≠ 8 then rip + vmcsReadl s.vmcs .guestCsBase else rip
  (ioCountrSize countrSize (kvmReadGuest s.toVcpu rip 8)).map fun countrSize => s.regs 1 &&& countMask countrSize

def x86EflagsDf : BitVec 64 := 0x400#64

/-- `handle_io`.  `none`: the guest is entered again, since the count was not found. -/
def handleIo (s : KvmVcpu) (run : RunStruct) : Option RunStruct :=
  let exitQualification := vmcsReadl s.vmcs .exitQualification
  let io : IoExit :=
    { run.io with
      direction := if exitQualification &&& 8 != 0 then .input else .output
      size := (exitQualification &&& 7).toNat + 1
      string := exitQualification &&& 16 != 0
      stringDown := vmcsReadl s.vmcs .guestRflags &&& x86EflagsDf != 0
      rep := exitQualification &&& 32 != 0
      port := (exitQualification >>> 16).setWidth 16 }
  let run := { run with exit := .io }
  if io.string then
    (getIoCount s).map fun count =>
      { run with io := { io with count := count, address := vmcsReadl s.vmcs .guestLinearAddress } }
  else some { run with io := io }

def handleCpuid (run : RunStruct) : RunStruct := { run with exit := .cpuid }

/-- What `kvm_dev_ioctl_run` does before the guest is entered for the first time. -/
def kvmDevIoctlRunStart (s : MmioVcpu) (run : RunStruct) : MmioVcpu :=
  let s := if run.emulated then s.setVcpu (skipEmulatedInstruction s.toKvmVcpu) else s
  let s := if run.mmioCompleted then { s with mmioData := run.mmio.data, mmioReadCompleted := true } else s
  { s with mmioNeeded := false }

/-! ### The module: registers -/

/-- `struct kvm_regs`. -/
structure KvmRegs where
  regs : Fin 16 → BitVec 64
  rip : BitVec 64
  rflags : BitVec 64

/-- `kvm_dev_ioctl_get_regs`. -/
def kvmGetRegs (s : KvmVcpu) : KvmRegs :=
  ⟨fun r => if r = 4 then vmcsReadl s.vmcs .guestRsp else s.regs r, vmcsReadl s.vmcs .guestRip,
    vmcsReadl s.vmcs .guestRflags⟩

/-- `kvm_dev_ioctl_set_regs`. -/
def kvmSetRegs (s : KvmVcpu) (regs : KvmRegs) : KvmVcpu :=
  let v := vmcsWritel s.vmcs .guestRsp (regs.regs 4)
  let v := vmcsWritel (vmcsWritel v .guestRip regs.rip) .guestRflags regs.rflags
  { s with regs := fun r => if r = 4 then s.regs r else regs.regs r, vmcs := v }

@[simp] theorem kvmGetRegs_kvmSetRegs (s : KvmVcpu) (regs : KvmRegs) : kvmGetRegs (kvmSetRegs s regs) = regs := by
  unfold kvmGetRegs kvmSetRegs
  have hregs : (fun r => if r = 4 then regs.regs 4 else if r = 4 then s.regs r else regs.regs r) = regs.regs := by
    funext r
    by_cases hr : r = 4
    · simp [hr]
    · simp [hr]
  simp [vmcsReadl_vmcsWritel, hregs]

/-! ### The callbacks -/

/-- A call of a callback that is an access to a device. -/
inductive DeviceAccess where
  | inp (size : Nat) (port : BitVec 16)
  | out (size : Nat) (port : BitVec 16) (value : BitVec 64)
  | cpuid (rax rbx rcx rdx : BitVec 64)
  | read (addr : BitVec 64) (len : Nat)
  | write (addr : BitVec 64) (len : Nat) (data : BitVec 64)

/-- What a callback returns, and the values that it stores: one, or the four of CPUID. -/
structure DeviceReply where
  ret : Int
  value : BitVec 64
  regs : Fin 4 → BitVec 64

/-- The callbacks of the user.  The reply may depend on the accesses that were made for the same exit before. -/
structure Callbacks where
  device : List DeviceAccess → DeviceAccess → DeviceReply
  debug : Int
  halt : Int
  ioWindow : Int

/-! ### `handle_io` -/

namespace Libkvm

/-- Where the value of an I/O instruction is: in rax, or in guest memory at a guest-physical address. -/
inductive ValueAddr where
  | rax
  | memory (physical : BitVec 64)

def load (s : Vcpu) (physical : BitVec 64) : Nat → BitVec 64
  | 0 => 0
  | n + 1 => (load s (physical + 1) n <<< 8) ||| (s.mem (gpaToHpa s.kvm physical)).setWidth 64

def store (s : Vcpu) (physical val : BitVec 64) : Nat → Vcpu
  | 0 => s
  | n + 1 =>
    store { s with mem := Function.update s.mem (gpaToHpa s.kvm physical) (val.setWidth 8) } (physical + 1) (val >>> 8) n

/-- The variables of `handle_io`.  `tr`: the page in the translation cache, with its guest-physical address. -/
structure IoLoop where
  vcpu : MmioVcpu
  regs : KvmRegs
  io : IoExit
  tr : Option (BitVec 64 × BitVec 64)
  log : List DeviceAccess

/-- `translate`: the guest-physical page.  `none`: the page is not mapped, and the process exits. -/
def translatePage (x : IoLoop) : Option (BitVec 64) :=
  let page := x.io.address &&& pageMask
  let gpa := mmuGvaToGpa x.vcpu.toVcpu page
  match x.tr with
  | some (linear, physical) => if linear = page then some physical else if gpa = unmappedGva then none else some gpa
  | none => if gpa = unmappedGva then none else some gpa

/-- `value_addr`, and the translation cache. -/
def valueAddr (x : IoLoop) : Option (ValueAddr × IoLoop) :=
  if !x.io.string then some (.rax, x)
  else (translatePage x).map fun physical =>
    (.memory (physical + (x.io.address &&& ~~~pageMask)), { x with tr := some (x.io.address &&& pageMask, physical) })

def valueAt (x : IoLoop) : ValueAddr → BitVec 64
  | .rax => @lowBytes .x86_64 x.io.size (x.regs.regs 0)
  | .memory physical => load x.vcpu.toVcpu physical x.io.size

def setValue (x : IoLoop) (value : BitVec 64) : ValueAddr → IoLoop
  | .rax => { x with regs.regs := Function.update x.regs.regs 0 (@setLow .x86_64 x.io.size (x.regs.regs 0) value) }
  | .memory physical =>
    { x with vcpu := { x.vcpu with toVcpu := store x.vcpu.toVcpu physical value x.io.size } }

/-- The value of an input. -/
def storeInput (x : IoLoop) (value : BitVec 64) (addr : ValueAddr) : IoLoop :=
  if x.io.direction = .input then setValue x value addr else x

def ioAccess (x : IoLoop) (addr : ValueAddr) : DeviceAccess :=
  match x.io.direction with
  | .input => .inp x.io.size x.io.port
  | .output => .out x.io.size x.io.port (valueAt x addr)

def IoExit.delta (io : IoExit) : BitVec 64 :=
  if io.stringDown then -BitVec.ofNat 64 io.size else BitVec.ofNat 64 io.size

/-- The step of a string instruction. -/
def advance (x : IoLoop) : IoLoop :=
  if x.io.string then
    let r : Fin 16 := if x.io.direction = .input then 7 else 6
    let regs := Function.update x.regs.regs r (x.regs.regs r + IoExit.delta x.io)
    let x := { x with io.address := x.io.address + IoExit.delta x.io, regs.regs := regs }
    if x.io.rep then
      { x with regs.regs := Function.update x.regs.regs 1 (x.regs.regs 1 - 1), io.count := x.io.count - 1 }
    else x
  else x

/-- One round of the loop, with the return value of the callback.  `none`: the process exits. -/
def ioRound (cb : Callbacks) (x : IoLoop) : Option (IoLoop × Int) :=
  if x.io.size = 1 ∨ x.io.size = 2 ∨ x.io.size = 4 then
    (valueAddr x).map fun (addr, x) =>
      let access := ioAccess x addr
      let reply := cb.device x.log access
      let x := storeInput { x with log := x.log ++ [access] } reply.value addr
      (advance x, reply.ret)
  else none

/-- The loop, for a number of rounds. -/
def ioLoop (cb : Callbacks) : Nat → IoLoop → Option (IoLoop × Int)
  | 0, x => some (x, 0)
  | n + 1, x =>
    match ioRound cb x with
    | none => none
    | some (x, r) => if r = 0 then ioLoop cb n x else some (x, r)

/-- What the handling of an exit leaves: the vcpu, the structure, the accesses that were made, and what `kvm_run` returns
if it is not 0. -/
structure Handled where
  vcpu : MmioVcpu
  run : RunStruct
  log : List DeviceAccess
  ret : Int

def handleIo (cb : Callbacks) (s : MmioVcpu) (run : RunStruct) : Option Handled :=
  let rounds := if run.io.rep then run.io.count.toNat else 1
  (ioLoop cb rounds ⟨s, kvmGetRegs s.toKvmVcpu, run.io, none, []⟩).map fun (x, r) =>
    let s := x.vcpu.setVcpu (kvmSetRegs x.vcpu.toKvmVcpu x.regs)
    ⟨s, { run with io := x.io, emulated := if r = 0 then true else run.emulated }, x.log, r⟩

/-! ### The other handlers -/

def handleCpuid (cb : Callbacks) (s : MmioVcpu) (run : RunStruct) : Handled :=
  let regs := kvmGetRegs s.toKvmVcpu
  let access := DeviceAccess.cpuid (regs.regs 0) (regs.regs 3) (regs.regs 1) (regs.regs 2)
  let reply := cb.device [] access
  let origEax : BitVec 32 := (regs.regs 0).setWidth 32
  let rdx := if origEax = 1 then reply.regs 3 &&& ~~~(1#64 <<< 12) else reply.regs 3
  let r := Function.update (Function.update (Function.update (Function.update regs.regs 0 (reply.regs 0)) 3
    (reply.regs 1)) 1 (reply.regs 2)) 2 rdx
  ⟨s.setVcpu (kvmSetRegs s.toKvmVcpu { regs with regs := r }), { run with emulated := true }, [access], reply.ret⟩

def handleMmio (cb : Callbacks) (s : MmioVcpu) (run : RunStruct) : Handled :=
  let q := run.mmio
  let access := if q.isWrite then .write q.physAddr q.len (@lowBytes .x86_64 q.len q.data) else .read q.physAddr q.len
  let reply := cb.device [] access
  let called := q.len = 1 ∨ q.len = 2 ∨ q.len = 4 ∨ q.len = 8
  let log := if called then [access] else []
  let ret := if called then reply.ret else -1
  if q.isWrite then ⟨s, run, log, ret⟩
  else
    let data := if called then @setLow .x86_64 q.len q.data reply.value else q.data
    ⟨s, { run with mmio := { q with data := data }, mmioCompleted := true }, log, ret⟩

/-- The rest of an iteration of `kvm_run` after `KVM_RUN`.  `none`: the process exits. -/
def handleExit (cb : Callbacks) (s : MmioVcpu) (run : RunStruct) : Option Handled :=
  let run := run.cleared
  match run.exit with
  | .eintr => some ⟨s, run, [], cb.ioWindow⟩
  | .io => handleIo cb s run
  | .cpuid => some (handleCpuid cb s run)
  | .debug => some ⟨s, run, [], cb.debug⟩
  | .mmio => some (handleMmio cb s run)
  | .hlt => some ⟨s, run, [], cb.halt⟩
  | .other => none

end Libkvm

end LearnKvm
