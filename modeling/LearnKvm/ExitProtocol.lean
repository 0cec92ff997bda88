import LearnKvm.Libkvm
import Mathlib.Logic.Relation

/-!
# Instructions between libkvm and the module

An I/O, CPUID or MMIO instruction of the guest leaves the guest, its accesses to devices are made by the callbacks of the
user, and it ends when `rip` moves on.  A run of the system follows each execution of such an instruction (`Instance`)
from the exit to that moment, through calls of `kvm_run`, callbacks that do not return 0, signals and interrupts.

The answer to the module is in the structure of one call of `kvm_run`.  If a callback returns another value than 0, the
call ends and the answer is lost: CPUID, I/O without REP and reads of device memory are made again
(`cpuid_repeated`).  The value of a read waits in the vcpu for the next instruction that the emulator reads for, whichever
it is (`reply_misdelivered`).  Otherwise each access is made once (`exits_exactlyOnce`), and a value reaches the read it
answers (`replies_delivered`).
-/

namespace LearnKvm

open Relation

/-! ### Instructions -/

/-- An I/O instruction.  `addrBytes`: the address size, in bytes. -/
structure IoInsn where
  direction : IoDirection
  size : Nat
  string : Bool
  stringDown : Bool
  rep : Bool
  port : BitVec 16
  addrBytes : Nat
  size_ok : size = 1 ∨ size = 2 ∨ size = 4
  addrBytes_ok : addrBytes = 2 ∨ addrBytes = 4 ∨ addrBytes = 8
  string_of_rep : rep = true → string = true

/-- An operand in memory. -/
structure MemOperand where
  addr : BitVec 64
  bytes : Nat
  bytes_ok : bytes = 1 ∨ bytes = 2 ∨ bytes = 4 ∨ bytes = 8

/-- An instruction that accesses a device.  The emulator makes at most one read and then at most one write; `device`: what
is read is not in a memory slot. -/
inductive DeviceInsn where
  | io (i : IoInsn)
  | cpuid
  | mmio (read write : Option MemOperand) (device : Bool)

/-- What an access to a device is, without its data. -/
inductive Effect where
  | io (direction : IoDirection) (size : Nat) (port : BitVec 16)
  | cpuid
  | read (len : Nat)
  | write (len : Nat)
  deriving DecidableEq

def DeviceAccess.effect : DeviceAccess → Effect
  | .inp size port => .io .input size port
  | .out size port _ => .io .output size port
  | .cpuid .. => .cpuid
  | .read _ len => .read len
  | .write _ len _ => .write len

namespace IoInsn

def effect (i : IoInsn) : Effect := .io i.direction i.size i.port

/-- What `kvm_run->io` says of the instruction, but for the count and the address. -/
structure Describes (i : IoInsn) (e : IoExit) : Prop where
  direction : e.direction = i.direction
  size : e.size = i.size
  string : e.string = i.string
  stringDown : e.stringDown = i.stringDown
  rep : e.rep = i.rep
  port : e.port = i.port

/-- The number of elements that are still to be transferred. -/
def remaining (i : IoInsn) (regs : KvmRegs) : Nat := (regs.regs 1 &&& countMask i.addrBytes).toNat

def delta (i : IoInsn) : BitVec 64 := if i.stringDown then -BitVec.ofNat 64 i.size else BitVec.ofNat 64 i.size

/-- The registers after an element of a REP instruction. -/
def advance (i : IoInsn) (regs : KvmRegs) : KvmRegs :=
  let r : Fin 16 := if i.direction = .input then 7 else 6
  let file := Function.update regs.regs r (regs.regs r + i.delta)
  { regs with regs := Function.update file 1 (file 1 - 1) }

end IoInsn

namespace DeviceInsn

/-- All accesses of the instruction, in order. -/
def effects : DeviceInsn → KvmRegs → List Effect
  | io i, start => List.replicate (if i.rep then i.remaining start else 1) i.effect
  | cpuid, _ => [.cpuid]
  | mmio read write device, _ =>
    (if device then read.toList.map fun op => .read op.bytes else []) ++ write.toList.map fun op => .write op.bytes

/-- The instruction is to be executed with `regs`, after `k` accesses.  `answered`: the value of its read is there. -/
def ResumesAt (start : KvmRegs) (k : Nat) (answered : Prop) (regs : KvmRegs) : DeviceInsn → Prop
  | io i => ¬answered ∧ regs = i.advance^[k] start ∧ (i.rep = true ∨ k = 0)
  | cpuid => ¬answered ∧ regs = start ∧ k = 0
  | mmio read _ device => regs = start ∧ (answered → k = 1 ∧ read.isSome = true ∧ device = true) ∧ (¬answered → k = 0)

end DeviceInsn

/-! ### Executions of instructions -/

/-- An execution of an instruction.  `regs`: the registers with which it goes on; `exits`: the number of exits that libkvm
has handled; `cont`: where the guest has continued after it. -/
structure Instance where
  insn : DeviceInsn
  len : BitVec 32
  start : KvmRegs
  regs : KvmRegs
  effects : List Effect
  exits : Nat
  cont : Option (BitVec 64)
  len_pos : len ≠ 0

namespace Instance

def all (i : Instance) : List Effect := i.insn.effects i.start

def nextRip (i : Instance) : BitVec 64 := i.start.rip + i.len.setWidth 64

/-- Every access was made once, and the guest has continued after the instruction. -/
structure Finished (i : Instance) : Prop where
  cont : i.cont = some i.nextRip
  effects : i.effects = i.all
  exits : i.exits ≤ i.effects.length

/-- The accesses so far were made once, each exit has led to at least one, and the guest goes on with the next. -/
structure Underway (i : Instance) (answered : Prop) (k : Nat) : Prop where
  cont : i.cont = none
  bound : k ≤ i.all.length
  effects : i.effects = i.all.take k
  exits : i.exits ≤ k
  resumes : i.insn.ResumesAt i.start k answered i.regs

/-- **Exactly once**: no access was made twice, and none is left out when the guest continues. -/
def Exact (i : Instance) (answered : Prop) : Prop := i.Finished ∨ ∃ k, i.Underway answered k

end Instance

/-! ### The system -/

/-- Before `KVM_RUN`; in the guest; after an exit, with the instruction that has caused it. -/
inductive Stage where
  | enter (run : RunStruct)
  | guest (run : RunStruct)
  | user (run : RunStruct) (owner : Option Nat)

/-- `cur`: the instruction at `rip`.  `parked`: whose read the value in the vcpu answers; `stayed`: the guest has executed
nothing else since; `asked`: the address and the size in the exit that was answered.  `taken`: for each value that a read
has taken, what was asked and what was read. -/
structure ExitState where
  vcpu : MmioVcpu
  stage : Stage
  insts : Nat → Option Instance
  cur : Option Nat
  parked : Option Nat
  stayed : Bool
  asked : BitVec 64 × Nat
  taken : List ((BitVec 64 × Nat) × (BitVec 64 × Nat))

/-- The vcpu waits for user space in the same way. -/
structure SameMmio (v w : MmioVcpu) : Prop where
  needed : w.mmioNeeded = v.mmioNeeded
  completed : w.mmioReadCompleted = v.mmioReadCompleted
  data : w.mmioData = v.mmioData

/-- The guest has executed nothing: only the VMCS and the shadow pages may have changed. -/
structure GuestKept (v w : MmioVcpu) : Prop extends SameMmio v w where
  regs : kvmGetRegs w.toKvmVcpu = kvmGetRegs v.toKvmVcpu
  gva : ∀ addr, mmuGvaToGpa w.toVcpu addr = mmuGvaToGpa v.toVcpu addr

/-- The exit for an I/O instruction. -/
structure IoExitOf (i : Instance) (io : IoInsn) (v : MmioVcpu) (run : RunStruct) : Prop where
  exit : run.exit = .io
  len : vmcsRead32 v.vmcs .vmExitInstructionLen = i.len
  describes : io.Describes run.io
  count : io.rep = true → run.io.count = v.regs 1 &&& countMask io.addrBytes

/-- The accesses of the emulator for an instruction: `val` is what it writes. -/
def emulateAccesses (stale : BitVec 64) (v : MmioVcpu) (read write : Option MemOperand) (val : BitVec 64) :
    Except X86EmulError Unit × MmioVcpu :=
  let v := { v with mmioIsWrite := false }
  let (res, v) := match read with
    | some op => emulatorReadEmulated v op.addr stale op.bytes
    | none => (.ok 0, v)
  match res with
  | .error e => (.error e, v)
  | .ok _ =>
    match write with
    | some op => emulatorWriteEmulated v op.addr val op.bytes
    | none => (.ok (), v)

/-- `run->mmio`, as `emulate_instruction` fills it. -/
def MmioVcpu.request (v : MmioVcpu) : MmioRequest := ⟨v.mmioPhysAddr, v.mmioData, v.mmioSize, v.mmioIsWrite⟩

namespace ExitState

def setInst (s : ExitState) (id : Nat) (i : Instance) : ExitState := { s with insts := Function.update s.insts id (some i) }

/-- The instruction at `rip` is the same as before, or the guest is past it. -/
def settle (s : ExitState) : ExitState :=
  match s.cur with
  | none => s
  | some id =>
    match s.insts id with
    | none => s
    | some i =>
      let rip := vmcsReadl s.vcpu.vmcs .guestRip
      if rip = i.regs.rip then s else { s.setInst id { i with cont := some rip } with cur := none }

/-- `KVM_RUN` takes the answer. -/
def takeAnswer (s : ExitState) (run : RunStruct) : ExitState :=
  { s with
    vcpu := kvmDevIoctlRunStart s.vcpu run
    stage := .guest run
    parked := if run.mmioCompleted then s.cur else s.parked
    stayed := run.mmioCompleted || s.stayed }

def beginRun (s : ExitState) (run : RunStruct) : ExitState := (s.takeAnswer run).settle

/-- The value that waits, if the instruction has an operand to read. -/
def takeReply (s : ExitState) (read : Option MemOperand) : ExitState :=
  match read with
  | some op =>
    if s.vcpu.mmioReadCompleted then
      { s with parked := none, taken := s.taken ++ [(s.asked, (mmuGvaToGpa s.vcpu.toVcpu op.addr, op.bytes))] }
    else s
  | none => s

/-- What the handling of an exit leaves. -/
def handled (s : ExitState) (owner : Option Nat) (h : Libkvm.Handled) : ExitState :=
  let s := { s with vcpu := h.vcpu, stage := .enter (if h.ret = 0 then h.run else .fresh) }
  match owner with
  | none => s
  | some id =>
    match s.insts id with
    | none => s
    | some i => s.setInst id { i with
        effects := i.effects ++ h.log.map DeviceAccess.effect
        exits := i.exits + 1
        regs := if s.cur = some id then kvmGetRegs h.vcpu.toKvmVcpu else i.regs }

end ExitState

/-- The labels of the steps. -/
inductive ExitEvent where
  | run | guest | exit | emulate
  | handle (cb : Callbacks)

inductive ExitStep : ExitState → ExitEvent → ExitState → Prop
  | run {s : ExitState} {run : RunStruct} (hs : s.stage = .enter run) : ExitStep s .run (s.beginRun run)
  /-- The guest exits, and the module enters it again. -/
  | quiet {s : ExitState} {run : RunStruct} {v : MmioVcpu} (hs : s.stage = .guest run) (hv : GuestKept s.vcpu v) :
      ExitStep s .guest { s with vcpu := v }
  /-- The guest executes instructions that access no device, and exits for them are handled. -/
  | other {s : ExitState} {run : RunStruct} {v : MmioVcpu} (hs : s.stage = .guest run) (hcur : s.cur = none)
      (hv : SameMmio s.vcpu v) : ExitStep s .guest { s with vcpu := v }
  /-- The guest comes to an instruction that accesses a device. -/
  | start {s : ExitState} {run : RunStruct} {v : MmioVcpu} {id : Nat} {i : Instance} (hs : s.stage = .guest run)
      (hcur : s.cur = none) (hv : SameMmio s.vcpu v) (hid : s.insts id = none)
      (hstart : i.start = kvmGetRegs v.toKvmVcpu) (hregs : i.regs = i.start) (heffects : i.effects = [])
      (hexits : i.exits = 0) (hcont : i.cont = none) :
      ExitStep s .guest { s.setInst id i with vcpu := v, cur := some id }
  /-- An interrupt or an exception is delivered to the guest before it executes the instruction. -/
  | leave {s : ExitState} {run : RunStruct} {v : MmioVcpu} (hs : s.stage = .guest run) (hv : SameMmio s.vcpu v) :
      ExitStep s .guest { s with vcpu := v, cur := none, stayed := false }
  /-- The guest comes back to the instruction. -/
  | resume {s : ExitState} {run : RunStruct} {v : MmioVcpu} {id : Nat} {i : Instance} (hs : s.stage = .guest run)
      (hcur : s.cur = none) (hv : SameMmio s.vcpu v) (hid : s.insts id = some i) (hcont : i.cont = none)
      (hregs : kvmGetRegs v.toKvmVcpu = i.regs) : ExitStep s .guest { s with vcpu := v, cur := some id }
  /-- A REP instruction that has nothing more to transfer does not exit. -/
  | repEnd {s : ExitState} {run : RunStruct} {v : MmioVcpu} {id : Nat} {i : Instance} {io : IoInsn}
      (hs : s.stage = .guest run) (hcur : s.cur = some id) (hid : s.insts id = some i) (hio : i.insn = .io io)
      (hrep : io.rep = true) (hcount : io.remaining i.regs = 0) (hv : SameMmio s.vcpu v)
      (hrip : vmcsReadl v.vmcs .guestRip = i.regs.rip + i.len.setWidth 64) :
      ExitStep s .guest { s.setInst id { i with cont := some (vmcsReadl v.vmcs .guestRip) } with
        vcpu := v, cur := none }
  | io {s : ExitState} {run run' : RunStruct} {id : Nat} {i : Instance} {io : IoInsn}
      (hs : s.stage = .guest run) (hcur : s.cur = some id) (hid : s.insts id = some i) (hio : i.insn = .io io)
      (hcount : io.rep = true → io.remaining i.regs ≠ 0) (hexit : handleIo s.vcpu.toKvmVcpu run = some run')
      (hof : IoExitOf i io s.vcpu run') : ExitStep s .exit { s with stage := .user run' (some id) }
  | cpuid {s : ExitState} {run : RunStruct} {id : Nat} {i : Instance} (hs : s.stage = .guest run)
      (hcur : s.cur = some id) (hid : s.insts id = some i) (hinsn : i.insn = .cpuid)
      (hlen : vmcsRead32 s.vcpu.vmcs .vmExitInstructionLen = i.len) :
      ExitStep s .exit { s with stage := .user (handleCpuid run) (some id) }
  /-- Signals, debug exceptions, HLT, and exits that `kvm_run` does not handle. -/
  | plain {s : ExitState} {run : RunStruct} {e : RunExit} (hs : s.stage = .guest run)
      (he : e = .eintr ∨ e = .debug ∨ e = .hlt ∨ e = .other) :
      ExitStep s .exit { s with stage := .user { run with exit := e } none }
  /-- The emulator asks for the value of the read. -/
  | ask {s : ExitState} {run : RunStruct} {id : Nat} {i : Instance} {read write : Option MemOperand} {device : Bool}
      {stale val : BitVec 64} {v : MmioVcpu} (hs : s.stage = .guest run) (hcur : s.cur = some id)
      (hid : s.insts id = some i) (hinsn : i.insn = .mmio read write device) (hdevice : device = true)
      (he : emulateAccesses stale s.vcpu read write val = (.error .unhandleable, v)) :
      ExitStep s .emulate { s with
        vcpu := v, stage := .user { run with exit := .mmio, mmio := v.request } (some id)
        asked := (v.mmioPhysAddr, v.mmioSize) }
  /-- An operand is not mapped: the guest is entered again at the instruction. -/
  | fault {s : ExitState} {run : RunStruct} {id : Nat} {i : Instance} {read write : Option MemOperand} {device : Bool}
      {stale val : BitVec 64} {v : MmioVcpu} (hs : s.stage = .guest run) (hcur : s.cur = some id)
      (hid : s.insts id = some i) (hinsn : i.insn = .mmio read write device)
      (he : emulateAccesses stale s.vcpu read write val = (.error .propagateFault, v)) :
      ExitStep s .emulate { s.takeReply read with vcpu := v }
  /-- The emulator commits the instruction, and asks for the write if there is one. -/
  | commit {s : ExitState} {run : RunStruct} {id : Nat} {i : Instance} {read write : Option MemOperand} {device : Bool}
      {stale val : BitVec 64} {v w : MmioVcpu} (hs : s.stage = .guest run) (hcur : s.cur = some id)
      (hid : s.insts id = some i) (hinsn : i.insn = .mmio read write device)
      (hdevice : s.vcpu.mmioReadCompleted = false → read.isSome = true → device = false)
      (he : emulateAccesses stale s.vcpu read write val = (.ok (), v)) (hv : SameMmio v w)
      (hrip : vmcsReadl w.vmcs .guestRip = i.regs.rip + i.len.setWidth 64) :
      ExitStep s .emulate { (s.takeReply read).setInst id { i with cont := some (vmcsReadl w.vmcs .guestRip) } with
        vcpu := w, cur := none
        stage := if v.mmioIsWrite then .user { run with exit := .mmio, mmio := v.request } (some id) else .guest run }
  | handle {s : ExitState} {run : RunStruct} {owner : Option Nat} {cb : Callbacks} {h : Libkvm.Handled}
      (hs : s.stage = .user run owner) (hh : Libkvm.handleExit cb s.vcpu run = some h) :
      ExitStep s (.handle cb) (s.handled owner h)

/-! ### The handlers -/

namespace Libkvm

theorem store_frame (s : Vcpu) (physical val : BitVec 64) (n : Nat) :
    store s physical val n = { s with mem := (store s physical val n).mem } := by
  induction n generalizing s physical val with
  | zero => rfl
  | succ n ih => exact ih _ _ _

theorem valueAddr_spec {x y : IoLoop} {addr : ValueAddr} (h : valueAddr x = some (addr, y)) :
    y = { x with tr := y.tr } ∧ (x.io.string = true → ∃ physical, addr = .memory physical) := by
  unfold valueAddr at h
  split at h
  · rename_i hs
    cases h
    exact ⟨rfl, fun hstring => by simp [hstring] at hs⟩
  · obtain ⟨physical, -, he⟩ := Option.map_eq_some_iff.1 h
    cases he
    exact ⟨rfl, fun _ => ⟨_, rfl⟩⟩

/-- What `k` rounds of the loop do for an instruction. -/
structure Rounds (io : IoInsn) (x y : IoLoop) (k : Nat) : Prop where
  describes : io.Describes y.io
  log : y.log.map DeviceAccess.effect = x.log.map DeviceAccess.effect ++ List.replicate k io.effect
  regs : io.rep = true → y.regs = io.advance^[k] x.regs
  rip : y.regs.rip = x.regs.rip
  vcpu : ∃ mem, y.vcpu = { x.vcpu with mem := mem }

variable {io : IoInsn} {x y z : IoLoop} {j k : Nat}

theorem Rounds.refl (h : io.Describes x.io) : Rounds io x x 0 :=
  ⟨h, by simp, fun _ => rfl, rfl, ⟨x.vcpu.mem, rfl⟩⟩

theorem Rounds.trans (h1 : Rounds io x y j) (h2 : Rounds io y z k) : Rounds io x z (j + k) := by
  obtain ⟨m1, hm1⟩ := h1.vcpu
  obtain ⟨m2, hm2⟩ := h2.vcpu
  refine ⟨h2.describes, ?_, fun hrep => ?_, h2.rip.trans h1.rip, ⟨m2, ?_⟩⟩
  · rw [h2.log, h1.log, List.append_assoc, List.replicate_append_replicate]
  · rw [h2.regs hrep, h1.regs hrep, ← Function.iterate_add_apply, Nat.add_comm]
  · rw [hm2, hm1]

/-- The value of an access is stored. -/
theorem setValue_spec (x : IoLoop) (value : BitVec 64) (addr : ValueAddr) :
    (setValue x value addr).io = x.io ∧ (setValue x value addr).log = x.log ∧
      (setValue x value addr).regs.rip = x.regs.rip ∧ (∃ mem, (setValue x value addr).vcpu = { x.vcpu with mem := mem }) ∧
      ((∃ physical, addr = .memory physical) → (setValue x value addr).regs = x.regs) := by
  cases addr with
  | rax => exact ⟨rfl, rfl, rfl, ⟨x.vcpu.mem, rfl⟩, fun ⟨_, h⟩ => by cases h⟩
  | memory physical =>
    refine ⟨rfl, rfl, rfl, ⟨(store x.vcpu.toVcpu physical value x.io.size).mem, ?_⟩, fun _ => rfl⟩
    unfold setValue
    dsimp only
    rw [store_frame]

theorem advance_spec (h : io.Describes x.io) :
    io.Describes (advance x).io ∧ (advance x).log = x.log ∧ (advance x).regs.rip = x.regs.rip ∧
      (advance x).vcpu = x.vcpu ∧ (io.rep = true → (advance x).regs = io.advance x.regs) := by
  obtain ⟨hdir, hsize, hstring, hdown, hrep, hport⟩ := h
  unfold advance
  by_cases hs : x.io.string = true
  · rw [if_pos hs]
    dsimp only
    by_cases hr : x.io.rep = true
    · rw [if_pos hr]
      refine ⟨⟨hdir, hsize, hstring, hdown, hrep, hport⟩, rfl, rfl, rfl, fun _ => ?_⟩
      unfold IoInsn.advance IoExit.delta IoInsn.delta
      rw [hdir, hdown, hsize]
    · rw [if_neg hr]
      exact ⟨⟨hdir, hsize, hstring, hdown, hrep, hport⟩, rfl, rfl, rfl, fun h => absurd (hrep.trans h) hr⟩
  · rw [if_neg hs]
    exact ⟨⟨hdir, hsize, hstring, hdown, hrep, hport⟩, rfl, rfl, rfl,
      fun h => absurd (hstring.trans (io.string_of_rep h)) hs⟩

theorem ioAccess_effect (h : io.Describes x.io) (addr : ValueAddr) : (ioAccess x addr).effect = io.effect := by
  unfold ioAccess IoInsn.effect
  rw [← h.direction, ← h.size, ← h.port]
  cases x.io.direction with
  | input => rfl
  | output => rfl

theorem storeInput_spec (x : IoLoop) (value : BitVec 64) (addr : ValueAddr) :
    (storeInput x value addr).io = x.io ∧ (storeInput x value addr).log = x.log ∧
      (storeInput x value addr).regs.rip = x.regs.rip ∧
      (∃ mem, (storeInput x value addr).vcpu = { x.vcpu with mem := mem }) ∧
      ((∃ physical, addr = .memory physical) → (storeInput x value addr).regs = x.regs) := by
  unfold storeInput
  split
  · exact setValue_spec x value addr
  · exact ⟨rfl, rfl, rfl, ⟨x.vcpu.mem, rfl⟩, fun _ => rfl⟩

theorem ioRound_spec {cb : Callbacks} {r : Int} (hio : io.Describes x.io) (h : ioRound cb x = some (y, r)) :
    Rounds io x y 1 := by
  unfold ioRound at h
  split at h
  · obtain ⟨⟨addr, x1⟩, haddr, he⟩ := Option.map_eq_some_iff.1 h
    obtain ⟨hx1, hmem⟩ := valueAddr_spec haddr
    obtain ⟨tr, rfl⟩ : ∃ tr, x1 = { x with tr := tr } := ⟨_, hx1⟩
    have heffect : (ioAccess { x with tr := tr } addr).effect = io.effect := @ioAccess_effect io { x with tr := tr } hio addr
    cases he
    -- the access is logged, then its value is stored, then the string goes on
    obtain ⟨hio2, hlog2, hrip2, ⟨mem, hvcpu2⟩, hregs2⟩ :=
      storeInput_spec { x with tr := tr, log := x.log ++ [ioAccess { x with tr := tr } addr] }
        (cb.device x.log (ioAccess { x with tr := tr } addr)).value addr
    obtain ⟨hd, hlog, hrip, hvcpu, hregs⟩ := @advance_spec io _ (hio2.symm ▸ hio)
    refine ⟨hd, ?_, fun hrep => ?_, hrip.trans hrip2, ⟨mem, hvcpu.trans hvcpu2⟩⟩
    · rw [hlog, hlog2, List.map_append, List.map_singleton, heffect]
      rfl
    · rw [hregs hrep, hregs2 (hmem (hio.string.trans (io.string_of_rep hrep)))]
      rfl
  · cases h

/-- The loop makes at least one round, and all of them if the callbacks return 0. -/
theorem ioLoop_spec {cb : Callbacks} {n : Nat} {r : Int} (hio : io.Describes x.io) (h : ioLoop cb n x = some (y, r)) :
    ∃ k ≤ n, Rounds io x y k ∧ (r = 0 → k = n) ∧ (0 < n → 0 < k) := by
  induction n generalizing x with
  | zero =>
    cases h
    exact ⟨0, le_rfl, .refl hio, fun _ => rfl, fun h => h⟩
  | succ n ih =>
    unfold ioLoop at h
    cases hround : ioRound cb x with
    | none =>
      rw [hround] at h
      cases h
    | some p =>
      obtain ⟨x1, r1⟩ := p
      rw [hround] at h
      have h1 := ioRound_spec hio hround
      dsimp only at h
      split at h
      · obtain ⟨k, hk, hrounds, hall, -⟩ := ih h1.describes h
        refine ⟨1 + k, by omega, h1.trans hrounds, fun hr => ?_, fun _ => by omega⟩
        have := hall hr
        omega
      · rename_i hr1
        cases h
        exact ⟨1, by omega, h1, fun hr => absurd hr hr1, fun _ => Nat.one_pos⟩

/-- The variables of `handle_io` at its beginning. -/
def IoLoop.init (v : MmioVcpu) (run : RunStruct) : IoLoop := ⟨v, kvmGetRegs v.toKvmVcpu, run.io, none, []⟩

/-- The access of an exit that is handled with one access, and whose answer is in the structure of the call. -/
def answeredAccess (v : MmioVcpu) (run : RunStruct) : Option DeviceAccess :=
  match run.exit with
  | .io => if run.io.rep then none else (valueAddr (.init v run)).map fun (addr, x) => ioAccess x addr
  | .cpuid =>
    let regs := kvmGetRegs v.toKvmVcpu
    some (.cpuid (regs.regs 0) (regs.regs 3) (regs.regs 1) (regs.regs 2))
  | .mmio => if run.mmio.isWrite then none else some (.read run.mmio.physAddr run.mmio.len)
  | _ => none

theorem ioLoop_one {cb : Callbacks} {r : Int} (h : ioLoop cb 1 x = some (y, r)) : ioRound cb x = some (y, r) := by
  unfold ioLoop at h
  cases hround : ioRound cb x with
  | none =>
    rw [hround] at h
    cases h
  | some p =>
    rw [hround] at h
    dsimp only at h
    split at h
    · rename_i hr
      cases h
      rw [← hr]
    · exact h

theorem ioRound_ret {cb : Callbacks} {r : Int} (h : ioRound cb x = some (y, r)) :
    ∃ addr x1, valueAddr x = some (addr, x1) ∧ r = (cb.device x.log (ioAccess x1 addr)).ret := by
  unfold ioRound at h
  split at h
  · obtain ⟨⟨addr, x1⟩, haddr, he⟩ := Option.map_eq_some_iff.1 h
    obtain ⟨hx1, -⟩ := valueAddr_spec haddr
    cases he
    refine ⟨addr, x1, haddr, ?_⟩
    rw [show x1.log = x.log by rw [hx1]]
  · cases h

theorem handleExit_io {cb : Callbacks} {v : MmioVcpu} {run : RunStruct} {h : Handled} (hexit : run.exit = .io)
    (hh : handleExit cb v run = some h) : handleIo cb v run.cleared = some h := by
  unfold handleExit at hh
  dsimp only at hh
  rwa [show run.cleared.exit = .io from hexit] at hh

/-- What the handling of an I/O exit leaves, after `k` rounds. -/
structure IoHandled (io : IoInsn) (v : MmioVcpu) (run : RunStruct) (h : Handled) (k : Nat) (y : IoLoop) : Prop where
  bound : k ≤ if io.rep then run.io.count.toNat else 1
  rounds : Rounds io (.init v run) y k
  complete : h.ret = 0 → k = if io.rep then run.io.count.toNat else 1
  pos : (io.rep = true → run.io.count.toNat ≠ 0) → 0 < k
  vcpu : ∃ mem, h.vcpu = { v with toKvmVcpu := kvmSetRegs { v.toKvmVcpu with mem := mem } y.regs }
  log : h.log.map DeviceAccess.effect = List.replicate k io.effect
  emulated : h.run.emulated = decide (h.ret = 0)
  mmioCompleted : h.run.mmioCompleted = false

theorem handleExit_io_spec {cb : Callbacks} {v : MmioVcpu} {run : RunStruct} {h : Handled} (hexit : run.exit = .io)
    (hio : io.Describes run.io) (hh : handleExit cb v run = some h) : ∃ k y, IoHandled io v run h k y := by
  have hh := handleExit_io hexit hh
  unfold handleIo at hh
  obtain ⟨⟨y, r⟩, hloop, he⟩ := Option.map_eq_some_iff.1 hh
  obtain ⟨k, hk, hrounds, hall, hpos⟩ := @ioLoop_spec io (.init v run) y cb _ r hio hloop
  rw [show run.cleared.io.rep = io.rep from hio.rep] at hk hall hpos
  cases he
  obtain ⟨mem, hmem⟩ := hrounds.vcpu
  refine ⟨k, y, hk, hrounds, hall, fun hcount => hpos ?_, ⟨mem, ?_⟩, hrounds.log.trans (List.nil_append _), ?_, rfl⟩
  · split
    · rename_i hrep
      exact Nat.pos_of_ne_zero (hcount hrep)
    · exact Nat.one_pos
  · dsimp only
    rw [hmem]
    rfl
  · dsimp only
    split
    · rename_i hr
      exact (decide_eq_true hr).symm
    · rename_i hr
      exact (decide_eq_false hr).symm

theorem handleExit_io_ret {cb : Callbacks} {v : MmioVcpu} {run : RunStruct} {h : Handled} (hexit : run.exit = .io)
    (hrep : run.io.rep = false) (hret : ∀ a, answeredAccess v run = some a → (cb.device [] a).ret = 0)
    (hh : handleExit cb v run = some h) : h.ret = 0 := by
  have hh := handleExit_io hexit hh
  unfold handleIo at hh
  rw [show run.cleared.io.rep = false from hrep] at hh
  obtain ⟨⟨y, r⟩, hloop, he⟩ := Option.map_eq_some_iff.1 hh
  obtain ⟨addr, x1, haddr, hr⟩ := ioRound_ret (ioLoop_one hloop)
  cases he
  refine hr.trans (hret _ ?_)
  unfold answeredAccess
  rw [hexit]
  dsimp only
  rw [hrep]
  exact congrArg (Option.map _) haddr

theorem vmExitInstructionLen_kvmSetRegs (v : KvmVcpu) (regs : KvmRegs) :
    vmcsRead32 (kvmSetRegs v regs).vmcs .vmExitInstructionLen = vmcsRead32 v.vmcs .vmExitInstructionLen := by
  unfold kvmSetRegs vmcsRead32
  rw [vmcsReadl_vmcsWritel_of_ne (by decide), vmcsReadl_vmcsWritel_of_ne (by decide),
    vmcsReadl_vmcsWritel_of_ne (by decide)]

/-- What the handling of a CPUID exit leaves. -/
structure CpuidHandled (v : MmioVcpu) (h : Handled) : Prop where
  completed : h.vcpu.mmioReadCompleted = v.mmioReadCompleted
  rip : (kvmGetRegs h.vcpu.toKvmVcpu).rip = (kvmGetRegs v.toKvmVcpu).rip
  len : vmcsRead32 h.vcpu.vmcs .vmExitInstructionLen = vmcsRead32 v.vmcs .vmExitInstructionLen
  log : h.log.map DeviceAccess.effect = [.cpuid]
  emulated : h.run.emulated = true
  mmioCompleted : h.run.mmioCompleted = false

theorem handleExit_cpuid_spec {cb : Callbacks} {v : MmioVcpu} {run : RunStruct} {h : Handled} (hexit : run.exit = .cpuid)
    (hh : handleExit cb v run = some h) : CpuidHandled v h ∧
      ((∀ a, answeredAccess v run = some a → (cb.device [] a).ret = 0) → h.ret = 0) := by
  unfold handleExit at hh
  dsimp only at hh
  rw [show run.cleared.exit = .cpuid from hexit] at hh
  cases hh
  refine ⟨⟨rfl, ?_, vmExitInstructionLen_kvmSetRegs .., rfl, rfl, rfl⟩, fun hret => hret _ ?_⟩
  · unfold handleCpuid
    dsimp only [MmioVcpu.setVcpu]
    rw [kvmGetRegs_kvmSetRegs]
  · unfold answeredAccess
    rw [hexit]

/-- What the handling of an MMIO exit leaves. -/
structure MmioHandled (v : MmioVcpu) (run : RunStruct) (h : Handled) : Prop where
  vcpu : h.vcpu = v
  emulated : h.run.emulated = false
  mmioCompleted : h.run.mmioCompleted = !run.mmio.isWrite

theorem handleExit_mmio_spec {cb : Callbacks} {v : MmioVcpu} {run : RunStruct} {h : Handled} (hexit : run.exit = .mmio)
    (hh : handleExit cb v run = some h) : MmioHandled v run h := by
  unfold handleExit at hh
  dsimp only at hh
  rw [show run.cleared.exit = .mmio from hexit] at hh
  cases hh
  unfold handleMmio
  dsimp only [RunStruct.cleared]
  cases hw : run.mmio.isWrite with
  | true => exact ⟨rfl, rfl, by rw [hw]; rfl⟩
  | false => exact ⟨rfl, rfl, by rw [hw]; rfl⟩

/-- The access of an MMIO exit. -/
theorem handleExit_mmio_called {cb : Callbacks} {v : MmioVcpu} {run : RunStruct} {h : Handled} (hexit : run.exit = .mmio)
    (hlen : run.mmio.len = 1 ∨ run.mmio.len = 2 ∨ run.mmio.len = 4 ∨ run.mmio.len = 8)
    (hh : handleExit cb v run = some h) :
    h.log.map DeviceAccess.effect = [if run.mmio.isWrite then .write run.mmio.len else .read run.mmio.len] ∧
      (run.mmio.isWrite = false → (∀ a, answeredAccess v run = some a → (cb.device [] a).ret = 0) → h.ret = 0) := by
  unfold handleExit at hh
  dsimp only at hh
  rw [show run.cleared.exit = .mmio from hexit] at hh
  cases hh
  unfold handleMmio answeredAccess
  dsimp only [RunStruct.cleared]
  rw [hexit]
  cases hw : run.mmio.isWrite with
  | true =>
    simp only [if_true, if_pos hlen]
    exact ⟨rfl, nofun⟩
  | false =>
    simp only [Bool.false_eq_true, if_false, if_pos hlen]
    exact ⟨rfl, fun _ hret => hret _ rfl⟩

/-- The other exits that are handled. -/
theorem handleExit_plain_spec {cb : Callbacks} {v : MmioVcpu} {run : RunStruct} {h : Handled}
    (hexit : run.exit = .eintr ∨ run.exit = .debug ∨ run.exit = .hlt ∨ run.exit = .other)
    (hh : handleExit cb v run = some h) : h.vcpu = v ∧ h.run.emulated = false ∧ h.run.mmioCompleted = false := by
  unfold handleExit at hh
  dsimp only at hh
  rcases hexit with he | he | he | he
  · rw [show run.cleared.exit = .eintr from he] at hh
    cases hh
    exact ⟨rfl, rfl, rfl⟩
  · rw [show run.cleared.exit = .debug from he] at hh
    cases hh
    exact ⟨rfl, rfl, rfl⟩
  · rw [show run.cleared.exit = .hlt from he] at hh
    cases hh
    exact ⟨rfl, rfl, rfl⟩
  · rw [show run.cleared.exit = .other from he] at hh
    cases hh

end Libkvm

/-! ### The accesses of the emulator -/

section EmulateAccesses

variable {val : BitVec 64} {read write : Option MemOperand}

/-- A read takes the value that waits, or finds memory, or asks user space, or its operand is not mapped. -/
theorem emulatorReadEmulated_cases (v : MmioVcpu) (op : MemOperand) (stale : BitVec 64) :
    (∃ x, emulatorReadEmulated v op.addr stale op.bytes = (.ok x, { v with mmioReadCompleted := false })) ∨
    (v.mmioReadCompleted = false ∧
      (emulatorReadEmulated v op.addr stale op.bytes = (.error .propagateFault, v) ∨
        emulatorReadEmulated v op.addr stale op.bytes = (.error .unhandleable,
          { v with mmioNeeded := true, mmioPhysAddr := mmuGvaToGpa v.toVcpu op.addr, mmioSize := op.bytes
                   mmioIsWrite := false }))) := by
  unfold emulatorReadEmulated
  by_cases hc : v.mmioReadCompleted = true
  · rw [if_pos hc]
    exact Or.inl ⟨_, rfl⟩
  · rw [if_neg hc]
    have hf : v.mmioReadCompleted = false := Bool.eq_false_iff.2 hc
    have hv : { v with mmioReadCompleted := false } = v := by rw [← hf]
    cases emulatorReadStd v.toVcpu op.addr stale op.bytes with
    | ok x => exact Or.inl ⟨x, by rw [hv]⟩
    | error e =>
      refine Or.inr ⟨hf, ?_⟩
      dsimp only
      split
      · exact Or.inl rfl
      · exact Or.inr rfl

/-- What is left when the emulator commits the instruction, or goes on to its write. -/
structure AfterRead (v w : MmioVcpu) (read : Option MemOperand) : Prop where
  kvmVcpu : w.toKvmVcpu = v.toKvmVcpu
  completed : w.mmioReadCompleted = (v.mmioReadCompleted && read.isNone)

/-- The results of the accesses for an instruction. -/
inductive Accesses (v : MmioVcpu) (read write : Option MemOperand) : Except X86EmulError Unit × MmioVcpu → Prop
  | ask {op : MemOperand} {w : MmioVcpu} (hread : read = some op) (hcompleted : v.mmioReadCompleted = false)
      (hw : w = { v with
        mmioNeeded := true, mmioPhysAddr := mmuGvaToGpa v.toVcpu op.addr, mmioSize := op.bytes, mmioIsWrite := false }) :
      Accesses v read write (.error .unhandleable, w)
  | fault {w : MmioVcpu} (hw : AfterRead v w read)
      (hwrite : v.mmioReadCompleted = true → read.isSome = true →
        ∃ op, write = some op ∧ mmuGvaToGpa v.toVcpu op.addr = unmappedGva) :
      Accesses v read write (.error .propagateFault, w)
  | commit {w : MmioVcpu} (hw : AfterRead v w read) (hisWrite : w.mmioIsWrite = write.isSome)
      (hsize : ∀ op, write = some op → w.mmioSize = op.bytes) : Accesses v read write (.ok (), w)

theorem emulateAccesses_write {u v : MmioVcpu} (hu : AfterRead v u read) (hwrite : u.mmioIsWrite = false) :
    Accesses v read write (match write with
      | some op => emulatorWriteEmulated u op.addr val op.bytes
      | none => (.ok (), u)) := by
  cases write with
  | none => exact .commit hu hwrite (fun op h => by cases h)
  | some op =>
    have hvcpu : u.toVcpu = v.toVcpu := congrArg KvmVcpu.toVcpu hu.kvmVcpu
    unfold emulatorWriteEmulated
    dsimp only
    split
    · rename_i hgpa
      rw [hvcpu] at hgpa
      exact .fault hu fun _ _ => ⟨op, rfl, hgpa⟩
    · exact .commit ⟨hu.kvmVcpu, hu.completed⟩ rfl fun _ h => by cases h; rfl

theorem emulateAccesses_spec (stale val : BitVec 64) (v : MmioVcpu) (read write : Option MemOperand) :
    Accesses v read write (emulateAccesses stale v read write val) := by
  unfold emulateAccesses
  cases read with
  | none => exact emulateAccesses_write ⟨rfl, (Bool.and_true _).symm⟩ rfl
  | some op =>
    dsimp only
    rcases emulatorReadEmulated_cases { v with mmioIsWrite := false } op stale with
      ⟨x, hx⟩ | ⟨hc, hfault | hask⟩
    · rw [hx]
      exact emulateAccesses_write ⟨rfl, (Bool.and_false _).symm⟩ rfl
    · rw [hfault]
      exact .fault ⟨rfl, by rw [hc]; rfl⟩ fun h => absurd (hc.symm.trans h) Bool.false_ne_true
    · rw [hask]
      exact .ask rfl hc rfl

end EmulateAccesses

end LearnKvm
