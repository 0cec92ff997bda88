import LearnKvm.ExitProtocol

/-!
# Exactly-once exits

`ExitInv` is the invariant of the runs in which no answer is lost and no value is taken by another instruction: every
execution of an instruction that accesses a device is finished or can go on (`Instance.Exact`), but for the one whose exit
is being handled (`Exiting`) and the one that has been answered (`Served`).
-/

namespace LearnKvm

open Relation

/-! ### REP instructions -/

namespace IoInsn

variable {i : IoInsn} {regs : KvmRegs} {j k : Nat}

theorem advance_rcx (i : IoInsn) (regs : KvmRegs) : (i.advance regs).regs 1 = regs.regs 1 - 1 := by
  unfold advance
  dsimp only
  rw [Function.update_self, Function.update_of_ne]
  split <;> decide

@[simp] theorem iterate_advance_rip (i : IoInsn) (k : Nat) (regs : KvmRegs) : (i.advance^[k] regs).rip = regs.rip := by
  induction k generalizing regs with
  | zero => rfl
  | succ k ih => exact ih _

theorem remaining_eq_mod (i : IoInsn) (regs : KvmRegs) :
    i.remaining regs = (regs.regs 1).toNat % 2 ^ (8 * i.addrBytes) := by
  unfold remaining
  rw [BitVec.toNat_and]
  rcases i.addrBytes_ok with h | h | h
  · rw [h]
    exact Nat.and_two_pow_sub_one_eq_mod _ 16
  · rw [h]
    exact Nat.and_two_pow_sub_one_eq_mod _ 32
  · rw [h]
    exact Nat.and_two_pow_sub_one_eq_mod _ 64

theorem remaining_advance (h : i.remaining regs ≠ 0) : i.remaining (i.advance regs) = i.remaining regs - 1 := by
  rw [remaining_eq_mod] at h ⊢
  rw [remaining_eq_mod, advance_rcx, BitVec.toNat_sub]
  have hlt := (regs.regs 1).isLt
  have h1 : BitVec.toNat (1 : BitVec 64) = 1 := rfl
  rw [h1]
  rcases i.addrBytes_ok with hb | hb | hb
  all_goals
    rw [hb] at h ⊢
    omega

theorem remaining_iterate (h : k ≤ i.remaining regs) : i.remaining (i.advance^[k] regs) = i.remaining regs - k := by
  induction k with
  | zero => rfl
  | succ k ih =>
    rw [Function.iterate_succ_apply', remaining_advance (by rw [ih (by omega)]; omega), ih (by omega)]
    omega

end IoInsn

/-! ### Instructions underway -/

namespace Instance

variable {i : Instance} {answered : Prop} {k : Nat}

theorem all_io {io : IoInsn} (h : i.insn = .io io) :
    i.all = List.replicate (if io.rep then io.remaining i.start else 1) io.effect := by
  unfold all
  rw [h]
  rfl

theorem all_cpuid (h : i.insn = .cpuid) : i.all = [.cpuid] := by
  unfold all
  rw [h]
  rfl

theorem all_mmio {read write : Option MemOperand} {device : Bool} (h : i.insn = .mmio read write device) :
    i.all = (if device then read.toList.map fun op => .read op.bytes else []) ++
      write.toList.map fun op => .write op.bytes := by
  unfold all
  rw [h]
  rfl

/-- The guest has not moved. -/
theorem Underway.rip (h : i.Underway answered k) : i.regs.rip = i.start.rip := by
  have hres := h.resumes
  cases hinsn : i.insn with
  | io io =>
    rw [hinsn] at hres
    rw [hres.2.1]
    exact io.iterate_advance_rip k i.start
  | cpuid =>
    rw [hinsn] at hres
    rw [hres.2.1]
  | mmio read write device =>
    rw [hinsn] at hres
    rw [hres.1]

theorem Underway.congr {answered' : Prop} (h : i.Underway answered k) (hiff : answered ↔ answered') :
    i.Underway answered' k := propext hiff ▸ h

theorem Exact.congr {answered' : Prop} (h : i.Exact answered) (hiff : answered ↔ answered') : i.Exact answered' :=
  propext hiff ▸ h

/-- An exact instruction that the guest has not continued after is underway. -/
theorem Exact.underway (h : i.Exact answered) (hcont : i.cont = none) : ∃ k, i.Underway answered k := by
  rcases h with hfin | hk
  · rw [hfin.cont] at hcont
    cases hcont
  · exact hk

end Instance

/-! ### The invariant -/

/-- The exit of the instruction is being handled. -/
inductive Exiting (s : ExitState) (id : Nat) (i : Instance) (run : RunStruct) : Prop
  | io {io : IoInsn} {k : Nat} (hinsn : i.insn = .io io) (hof : IoExitOf i io s.vcpu run) (hcur : s.cur = some id)
      (hwaits : ¬s.parked = some id) (hk : i.Underway False k) (hcount : io.rep = true → io.remaining i.regs ≠ 0)
  | cpuid (hinsn : i.insn = .cpuid) (hexit : run.exit = .cpuid)
      (hlen : vmcsRead32 s.vcpu.vmcs .vmExitInstructionLen = i.len) (hcur : s.cur = some id)
      (hwaits : ¬s.parked = some id) (hk : i.Underway False 0)
  | read {op : MemOperand} {write : Option MemOperand} (hinsn : i.insn = .mmio (some op) write true)
      (hexit : run.exit = .mmio) (hread : run.mmio.isWrite = false) (hsize : run.mmio.len = op.bytes)
      (hcur : s.cur = some id) (hparked : s.parked = none) (hk : i.Underway False 0)
  | write {read : Option MemOperand} {op : MemOperand} {device : Bool} (hinsn : i.insn = .mmio read (some op) device)
      (hexit : run.exit = .mmio) (hwrite : run.mmio.isWrite = true) (hsize : run.mmio.len = op.bytes)
      (hcur : s.cur = none) (hcont : i.cont = some i.nextRip) (heffects : i.effects = i.all.dropLast)
      (hexits : i.exits ≤ i.effects.length)

/-- All accesses of the instruction are made, and the module will be asked to skip it. -/
structure Served (v : MmioVcpu) (i : Instance) : Prop where
  cont : i.cont = none
  effects : i.effects = i.all
  exits : i.exits ≤ i.effects.length
  rip : i.regs.rip = i.start.rip
  len : vmcsRead32 v.vmcs .vmExitInstructionLen = i.len

/-- An instruction when `KVM_RUN` is called with `run`.  `answered`: the value of its read is in the structure of the
call. -/
structure Entering (v : MmioVcpu) (run : RunStruct) (isCur waits : Prop) (i : Instance) : Prop where
  served : isCur → run.emulated = true → Served v i
  answered : isCur → run.mmioCompleted = true → i.Underway True 1
  exact : (isCur → run.emulated = false ∧ run.mmioCompleted = false) → i.Exact waits

def ExitState.StageInv (s : ExitState) : Stage → Prop
  | .guest _ => ∀ id i, s.insts id = some i → i.Exact (s.parked = some id)
  | .enter run =>
    (run.emulated = true → run.mmioCompleted = false) ∧ (run.mmioCompleted = true → s.parked = none) ∧
    ∀ id i, s.insts id = some i → Entering s.vcpu run (s.cur = some id) (s.parked = some id) i
  | .user run owner =>
    (owner = none → run.exit = .eintr ∨ run.exit = .debug ∨ run.exit = .hlt ∨ run.exit = .other) ∧
    (∀ id, owner = some id → ∃ i, s.insts id = some i) ∧
    ∀ id i, s.insts id = some i → if owner = some id then Exiting s id i run else i.Exact (s.parked = some id)

structure ExitInv (s : ExitState) : Prop where
  current : ∀ id, s.cur = some id → ∃ i, s.insts id = some i ∧ i.cont = none ∧ i.regs = kvmGetRegs s.vcpu.toKvmVcpu
  parked : ∀ id, s.parked = some id → s.vcpu.mmioReadCompleted = true ∧ ∃ i, s.insts id = some i
  stage : s.StageInv s.stage

/-- What the instruction under a step needs so that no answer is lost, and no value is taken by another instruction: a
callback whose answer ends with the call returns 0, and the emulator reads a value only for the instruction that has asked
for it, and then commits it. -/
def ExitState.Keeps (s : ExitState) : ExitEvent → Prop
  | .handle cb => ∀ run owner a, s.stage = .user run owner → Libkvm.answeredAccess s.vcpu run = some a →
      (cb.device [] a).ret = 0
  | .emulate => ∀ id i read write device, s.cur = some id → s.insts id = some i → i.insn = .mmio read write device →
      s.vcpu.mmioReadCompleted = true → read.isSome = true →
      s.parked = some id ∧ ∀ op, write = some op → mmuGvaToGpa s.vcpu.toVcpu op.addr ≠ unmappedGva
  | _ => True

/-! ### `KVM_RUN` -/

section Run

variable {v : MmioVcpu} {run : RunStruct}

@[simp] theorem runStart_completed (v : MmioVcpu) (run : RunStruct) :
    (kvmDevIoctlRunStart v run).mmioReadCompleted = (run.mmioCompleted || v.mmioReadCompleted) := by
  unfold kvmDevIoctlRunStart
  cases run.mmioCompleted with
  | false =>
    cases run.emulated with
    | false => rfl
    | true => rfl
  | true => rfl

theorem runStart_kvmVcpu (v : MmioVcpu) (run : RunStruct) : (kvmDevIoctlRunStart v run).toKvmVcpu =
    if run.emulated then skipEmulatedInstruction v.toKvmVcpu else v.toKvmVcpu := by
  unfold kvmDevIoctlRunStart
  cases run.emulated with
  | false =>
    cases run.mmioCompleted with
    | false => rfl
    | true => rfl
  | true =>
    cases run.mmioCompleted with
    | false => rfl
    | true => rfl

variable {s : ExitState} {id : Nat} {i : Instance}

/-- An instruction whose length is not 0 ends. -/
theorem Served.finished (h : Served v i) (hregs : i.regs = kvmGetRegs v.toKvmVcpu) :
    vmcsReadl (skipEmulatedInstruction v.toKvmVcpu).vmcs .guestRip = i.nextRip ∧ i.nextRip ≠ i.regs.rip := by
  have hrip : vmcsReadl v.vmcs .guestRip = i.start.rip := by
    rw [← h.rip, hregs]
    rfl
  constructor
  · refine (skipEmulatedInstruction_rip _).trans ?_
    unfold Instance.nextRip
    rw [h.len]
    exact congrArg (· + _) hrip
  · rw [h.rip]
    unfold Instance.nextRip
    intro heq
    have hzero : i.len.setWidth 64 = 0#64 := by simpa using heq
    apply i.len_pos
    apply BitVec.eq_of_toNat_eq
    have := congrArg BitVec.toNat hzero
    rw [BitVec.toNat_setWidth] at this
    have hlt := i.len.isLt
    have hz : BitVec.toNat (0 : BitVec 32) = 0 := rfl
    rw [BitVec.toNat_ofNat] at this
    omega

theorem settle_of_same (s : ExitState)
    (h : ∀ id i, s.cur = some id → s.insts id = some i → vmcsReadl s.vcpu.vmcs .guestRip = i.regs.rip) : s.settle = s := by
  unfold ExitState.settle
  split
  · rfl
  · rename_i id hcur
    split
    · rfl
    · rename_i i hid
      exact if_pos (h id i hcur hid)

theorem settle_of_moved (s : ExitState) (hcur : s.cur = some id) (hid : s.insts id = some i)
    (hrip : vmcsReadl s.vcpu.vmcs .guestRip ≠ i.regs.rip) :
    s.settle = { s.setInst id { i with cont := some (vmcsReadl s.vcpu.vmcs .guestRip) } with cur := none } := by
  unfold ExitState.settle
  rw [hcur]
  dsimp only
  rw [hid]
  exact if_neg hrip

end Run

theorem setInst_self (s : ExitState) (id : Nat) (i : Instance) : (s.setInst id i).insts id = some i := Function.update_self ..

theorem setInst_of_ne (s : ExitState) {id id' : Nat} (i : Instance) (h : id' ≠ id) : (s.setInst id i).insts id' = s.insts id' :=
  Function.update_of_ne h ..

/-- Every instruction of the new state is the changed one or an old one. -/
theorem forall_setInst {s : ExitState} {id : Nat} {i : Instance} {P : Nat → Instance → Prop} (hself : P id i)
    (hne : ∀ id' i', id' ≠ id → s.insts id' = some i' → P id' i') :
    ∀ id' i', (s.setInst id i).insts id' = some i' → P id' i' := by
  intro id' i' h
  by_cases hid : id' = id
  · subst hid
    rw [setInst_self] at h
    cases h
    exact hself
  · rw [setInst_of_ne s i hid] at h
    exact hne id' i' hid h

theorem exists_setInst {s : ExitState} {id id' : Nat} (i : Instance) (h : ∃ i', s.insts id' = some i') :
    ∃ i', (s.setInst id i).insts id' = some i' := by
  by_cases hid : id' = id
  · rw [hid]
    exact ⟨i, setInst_self s id i⟩
  · rw [setInst_of_ne s i hid]
    exact h

/-- The instruction is skipped. -/
theorem ExitInv.beginRun_emulated {s : ExitState} {run : RunStruct} (hI : ExitInv s) (hs : s.stage = .enter run)
    (he : run.emulated = true) : ExitInv (s.beginRun run) := by
  have hstage := hI.stage
  rw [hs] at hstage
  obtain ⟨hexcl, -, hinst⟩ := hstage
  have hc := hexcl he
  have hvcpu := runStart_kvmVcpu s.vcpu run
  rw [if_pos he] at hvcpu
  have hcompleted : (s.takeAnswer run).vcpu.mmioReadCompleted = s.vcpu.mmioReadCompleted := by
    refine (runStart_completed s.vcpu run).trans ?_
    rw [hc, Bool.false_or]
  have hparked : (s.takeAnswer run).parked = s.parked := by
    unfold ExitState.takeAnswer
    simp only [hc, Bool.false_eq_true, if_false]
  have hrest : ∀ id i, s.cur ≠ some id → s.insts id = some i → i.Exact (s.parked = some id) := by
    intro id i hne hid
    exact (hinst id i hid).exact fun hcur => absurd hcur hne
  unfold ExitState.beginRun
  cases hcur : s.cur with
  | none =>
    rw [settle_of_same _ (fun id i h => by rw [show (s.takeAnswer run).cur = none from hcur] at h; cases h)]
    refine ⟨fun id h => ?_, fun id h => ?_, fun id i hid => ?_⟩
    · rw [show (s.takeAnswer run).cur = none from hcur] at h
      cases h
    · rw [hcompleted]
      exact hI.parked id (hparked ▸ h)
    · rw [hparked]
      exact hrest id i (by rw [hcur]; exact nofun) hid
  | some id =>
    obtain ⟨i, hid, hcont, hregs⟩ := hI.current id hcur
    have hserved : Served s.vcpu i := (hinst id i hid).served hcur he
    obtain ⟨hrip, hne⟩ := hserved.finished hregs
    rw [← hvcpu] at hrip
    have hmoved := @settle_of_moved id i (s.takeAnswer run) hcur hid (fun h => hne (hrip.symm.trans h))
    rw [hmoved]
    refine ⟨fun id h => (by cases h), fun id' h => ?_, ?_⟩
    · obtain ⟨h1, h2⟩ := hI.parked id' (hparked.symm.trans h)
      exact ⟨hcompleted.trans h1, exists_setInst _ h2⟩
    · refine forall_setInst (Or.inl ⟨congrArg some hrip, hserved.effects, hserved.exits⟩) fun id' i' hne' hid' => ?_
      change i'.Exact ((s.takeAnswer run).parked = some id')
      rw [hparked]
      exact hrest id' i' (fun h => hne' (Option.some.inj (h.symm.trans hcur))) hid'

/-- The guest goes on with the instruction. -/
theorem ExitInv.beginRun_again {s : ExitState} {run : RunStruct} (hI : ExitInv s) (hs : s.stage = .enter run)
    (he : run.emulated = false) : ExitInv (s.beginRun run) := by
  have hstage := hI.stage
  rw [hs] at hstage
  obtain ⟨-, hnone, hinst⟩ := hstage
  have hvcpu : (s.takeAnswer run).vcpu.toKvmVcpu = s.vcpu.toKvmVcpu := by
    refine (runStart_kvmVcpu s.vcpu run).trans ?_
    rw [he]
    exact if_neg Bool.false_ne_true
  have hcurrent : ∀ id, s.cur = some id →
      ∃ i, s.insts id = some i ∧ i.cont = none ∧ i.regs = kvmGetRegs (s.takeAnswer run).vcpu.toKvmVcpu := by
    rw [hvcpu]
    exact hI.current
  unfold ExitState.beginRun
  rw [settle_of_same]
  · refine ⟨hcurrent, fun id h => ?_, fun id i hid => ?_⟩
    · have hcompleted : (s.takeAnswer run).vcpu.mmioReadCompleted = _ := runStart_completed s.vcpu run
      rw [hcompleted]
      cases hc : run.mmioCompleted with
      | true =>
        obtain ⟨i, hid, -⟩ := hI.current id (by unfold ExitState.takeAnswer at h; simpa [hc] using h)
        exact ⟨rfl, i, hid⟩
      | false => exact hI.parked id (by unfold ExitState.takeAnswer at h; simpa [hc] using h)
    · have hent := hinst id i hid
      unfold ExitState.takeAnswer
      dsimp only
      cases hc : run.mmioCompleted with
      | true =>
        rw [if_pos rfl]
        by_cases hcur : s.cur = some id
        · exact Or.inr ⟨1, (hent.answered hcur hc).congr (iff_of_true trivial hcur)⟩
        · have hexact := hent.exact fun h => absurd h hcur
          exact hexact.congr (iff_of_false (by rw [hnone hc]; exact nofun) hcur)
      | false =>
        rw [if_neg Bool.false_ne_true]
        exact hent.exact fun _ => ⟨he, hc⟩
  · intro id i hcur hid
    obtain ⟨i', hid', -, hregs⟩ := hcurrent id hcur
    cases hid.symm.trans hid'
    rw [hregs]
    rfl

theorem ExitInv.beginRun {s : ExitState} {run : RunStruct} (hI : ExitInv s) (hs : s.stage = .enter run) :
    ExitInv (s.beginRun run) := by
  cases he : run.emulated with
  | true => exact hI.beginRun_emulated hs he
  | false => exact hI.beginRun_again hs he

/-! ### The guest -/

section Guest

variable {s : ExitState} {run : RunStruct} {v : MmioVcpu} {id : Nat} {i : Instance}

theorem ExitInv.exact (hI : ExitInv s) (hs : s.stage = .guest run) :
    ∀ id i, s.insts id = some i → i.Exact (s.parked = some id) := by
  have hstage := hI.stage
  rwa [hs] at hstage

/-- The invariant of a state in which the guest runs. -/
theorem exitInv_guest (hs : s.stage = .guest run)
    (hcurrent : ∀ id, s.cur = some id →
      ∃ i, s.insts id = some i ∧ i.cont = none ∧ i.regs = kvmGetRegs s.vcpu.toKvmVcpu)
    (hparked : ∀ id, s.parked = some id → s.vcpu.mmioReadCompleted = true ∧ ∃ i, s.insts id = some i)
    (hexact : ∀ id i, s.insts id = some i → i.Exact (s.parked = some id)) : ExitInv s := by
  refine ⟨hcurrent, hparked, ?_⟩
  rw [hs]
  exact hexact

theorem SameMmio.parked {parked : Option Nat} {insts : Nat → Option Instance} (hv : SameMmio s.vcpu v)
    (h : ∀ id, parked = some id → s.vcpu.mmioReadCompleted = true ∧ ∃ i, insts id = some i) :
    ∀ id, parked = some id → v.mmioReadCompleted = true ∧ ∃ i, insts id = some i :=
  fun id hid => ⟨hv.completed.trans (h id hid).1, (h id hid).2⟩

theorem ExitInv.quiet (hI : ExitInv s) (hs : s.stage = .guest run) (hv : GuestKept s.vcpu v) :
    ExitInv { s with vcpu := v } := by
  apply exitInv_guest
  · exact hs
  · intro id hcur
    rw [hv.regs]
    exact hI.current id hcur
  · exact hv.toSameMmio.parked hI.parked
  · exact hI.exact hs

theorem ExitInv.other (hI : ExitInv s) (hs : s.stage = .guest run) (hcur : s.cur = none) (hv : SameMmio s.vcpu v) :
    ExitInv { s with vcpu := v } := by
  apply exitInv_guest
  · exact hs
  · intro id h
    rw [show s.cur = some id from h] at hcur
    cases hcur
  · exact hv.parked hI.parked
  · exact hI.exact hs

/-- A new instruction has made no access yet. -/
theorem Instance.underway_start (hregs : i.regs = i.start) (heffects : i.effects = []) (hexits : i.exits = 0)
    (hcont : i.cont = none) : i.Underway False 0 := by
  refine ⟨hcont, Nat.zero_le _, heffects, hexits.le, ?_⟩
  cases i.insn with
  | io io => exact ⟨not_false, hregs, Or.inr rfl⟩
  | cpuid => exact ⟨not_false, hregs, rfl⟩
  | mmio read write device => exact ⟨hregs, False.elim, fun _ => rfl⟩

theorem ExitInv.start (hI : ExitInv s) (hs : s.stage = .guest run) (hv : SameMmio s.vcpu v) (hid : s.insts id = none)
    (hstart : i.start = kvmGetRegs v.toKvmVcpu) (hregs : i.regs = i.start) (heffects : i.effects = [])
    (hexits : i.exits = 0) (hcont : i.cont = none) : ExitInv { s.setInst id i with vcpu := v, cur := some id } := by
  have hparked : s.parked ≠ some id := by
    intro h
    obtain ⟨-, i', hi'⟩ := hI.parked id h
    rw [hid] at hi'
    cases hi'
  apply exitInv_guest
  · exact hs
  · intro id' hcur
    cases hcur
    exact ⟨i, setInst_self s id i, hcont, hregs.trans hstart⟩
  · exact hv.parked fun id' h => ⟨(hI.parked id' h).1, exists_setInst i (hI.parked id' h).2⟩
  · refine forall_setInst (Or.inr ⟨0, ?_⟩) fun id' i' _ hid' => hI.exact hs id' i' hid'
    exact (Instance.underway_start hregs heffects hexits hcont).congr (iff_of_false not_false hparked)

theorem ExitInv.leave (hI : ExitInv s) (hs : s.stage = .guest run) (hv : SameMmio s.vcpu v) :
    ExitInv { s with vcpu := v, cur := none, stayed := false } := by
  apply exitInv_guest
  · exact hs
  · exact fun id h => by cases h
  · exact hv.parked hI.parked
  · exact hI.exact hs

theorem ExitInv.resume (hI : ExitInv s) (hs : s.stage = .guest run) (hv : SameMmio s.vcpu v)
    (hid : s.insts id = some i) (hcont : i.cont = none) (hregs : kvmGetRegs v.toKvmVcpu = i.regs) :
    ExitInv { s with vcpu := v, cur := some id } := by
  apply exitInv_guest
  · exact hs
  · intro id' hcur
    cases hcur
    exact ⟨i, hid, hcont, hregs.symm⟩
  · exact hv.parked hI.parked
  · exact hI.exact hs

theorem ExitInv.repEnd {io : IoInsn} (hI : ExitInv s) (hs : s.stage = .guest run) (hcur : s.cur = some id)
    (hid : s.insts id = some i) (hio : i.insn = .io io) (hrep : io.rep = true) (hcount : io.remaining i.regs = 0)
    (hv : SameMmio s.vcpu v) (hrip : vmcsReadl v.vmcs .guestRip = i.regs.rip + i.len.setWidth 64) :
    ExitInv { s.setInst id { i with cont := some (vmcsReadl v.vmcs .guestRip) } with vcpu := v, cur := none } := by
  obtain ⟨i', hid', hcont, -⟩ := hI.current id hcur
  cases hid.symm.trans hid'
  obtain ⟨k, hk⟩ := (hI.exact hs id i hid).underway hcont
  apply exitInv_guest
  · exact hs
  · exact fun id h => by cases h
  · exact hv.parked fun id' h => ⟨(hI.parked id' h).1, exists_setInst _ (hI.parked id' h).2⟩
  · refine forall_setInst (Or.inl ⟨?_, ?_, ?_⟩) fun id' i' _ hid' => hI.exact hs id' i' hid'
    · rw [hrip, hk.rip]
      rfl
    · have hres := hk.resumes
      have hbound := hk.bound
      rw [hio] at hres
      rw [Instance.all_io hio, if_pos hrep, List.length_replicate] at hbound
      rw [hres.2.1, IoInsn.remaining_iterate hbound] at hcount
      have hall : i.all.length ≤ k := by
        rw [Instance.all_io hio, if_pos hrep, List.length_replicate]
        omega
      exact hk.effects.trans (List.take_of_length_le hall)
    · refine hk.exits.trans ?_
      rw [show (i.effects.length) = k by rw [hk.effects, List.length_take, min_eq_left hk.bound]]

end Guest

/-! ### Exits -/

section Exits

variable {s : ExitState} {run run' : RunStruct} {id : Nat} {i : Instance}

/-- The current instruction exits. -/
theorem ExitInv.exit (hI : ExitInv s) (hs : s.stage = .guest run) (hid : s.insts id = some i)
    (hexiting : Exiting { s with stage := .user run' (some id) } id i run') :
    ExitInv { s with stage := .user run' (some id) } := by
  refine ⟨hI.current, hI.parked, nofun, fun id' h => ?_, fun id' i' hid' => ?_⟩
  · cases h
    exact ⟨i, hid⟩
  · by_cases h : some id = some id'
    · rw [if_pos h]
      cases h
      cases hid.symm.trans hid'
      exact hexiting
    · rw [if_neg h]
      exact hI.exact hs id' i' hid'

theorem ExitInv.underway (hI : ExitInv s) (hs : s.stage = .guest run) (hcur : s.cur = some id)
    (hid : s.insts id = some i) : ∃ k, i.Underway (s.parked = some id) k := by
  obtain ⟨i', hid', hcont, -⟩ := hI.current id hcur
  cases hid.symm.trans hid'
  exact (hI.exact hs id i hid).underway hcont

theorem ExitInv.io {io : IoInsn} (hI : ExitInv s) (hs : s.stage = .guest run) (hcur : s.cur = some id)
    (hid : s.insts id = some i) (hio : i.insn = .io io) (hcount : io.rep = true → io.remaining i.regs ≠ 0)
    (hof : IoExitOf i io s.vcpu run') : ExitInv { s with stage := .user run' (some id) } := by
  apply hI.exit hs hid
  obtain ⟨k, hk⟩ := hI.underway hs hcur hid
  have hres := hk.resumes
  rw [hio] at hres
  exact .io hio hof hcur hres.1 (hk.congr (iff_of_false hres.1 not_false)) hcount

theorem ExitInv.cpuid (hI : ExitInv s) (hs : s.stage = .guest run) (hcur : s.cur = some id)
    (hid : s.insts id = some i) (hinsn : i.insn = .cpuid)
    (hlen : vmcsRead32 s.vcpu.vmcs .vmExitInstructionLen = i.len) :
    ExitInv { s with stage := .user (handleCpuid run) (some id) } := by
  apply hI.exit hs hid
  obtain ⟨k, hk⟩ := hI.underway hs hcur hid
  have hres := hk.resumes
  rw [hinsn] at hres
  obtain ⟨hnot, -, rfl⟩ := hres
  exact .cpuid hinsn rfl hlen hcur hnot (hk.congr (iff_of_false hnot not_false))

theorem ExitInv.plain {e : RunExit} (hI : ExitInv s) (hs : s.stage = .guest run)
    (he : e = .eintr ∨ e = .debug ∨ e = .hlt ∨ e = .other) :
    ExitInv { s with stage := .user { run with exit := e } none } := by
  refine ⟨hI.current, hI.parked, fun _ => he, nofun, fun id i hid => ?_⟩
  rw [if_neg nofun]
  exact hI.exact hs id i hid

end Exits

/-! ### The emulator -/

section Emulate

variable {s : ExitState} {run : RunStruct} {id : Nat} {i : Instance} {read write : Option MemOperand} {device : Bool}
  {v w : MmioVcpu}

/-- Nothing waits for a read that asks. -/
theorem ExitInv.parked_none (hI : ExitInv s) (hc : s.vcpu.mmioReadCompleted = false) : s.parked = none := by
  cases hp : s.parked with
  | none => rfl
  | some id =>
    rw [(hI.parked id hp).1] at hc
    cases hc

theorem ExitInv.ask (hI : ExitInv s) (hs : s.stage = .guest run) (hcur : s.cur = some id) (hid : s.insts id = some i)
    (hinsn : i.insn = .mmio read write device) (hdevice : device = true)
    (he : Accesses s.vcpu read write (.error .unhandleable, v)) :
    ExitInv { s with
      vcpu := v, stage := .user { run with exit := .mmio, mmio := v.request } (some id)
      asked := (v.mmioPhysAddr, v.mmioSize) } := by
  cases he with
  | @ask op _ hread hcompleted hw =>
    have hparked := hI.parked_none hcompleted
    obtain ⟨k, hk⟩ := hI.underway hs hcur hid
    subst hread hdevice hw
    have hnot : ¬s.parked = some id := by
      rw [hparked]
      exact nofun
    have hres := hk.resumes
    rw [hinsn] at hres
    obtain rfl := hres.2.2 hnot
    refine ⟨hI.current, fun id' h => ?_, nofun, fun id' h => ?_, fun id' i' hid' => ?_⟩
    · rw [show s.parked = some id' from h] at hparked
      cases hparked
    · cases h
      exact ⟨i, hid⟩
    · by_cases h : some id = some id'
      · rw [if_pos h]
        cases h
        cases hid.symm.trans hid'
        exact .read hinsn rfl rfl rfl hcur hparked (hk.congr (iff_of_false hnot not_false))
      · rw [if_neg h]
        exact hI.exact hs id' i' hid'

theorem takeReply_of_not (h : s.vcpu.mmioReadCompleted = true → read.isSome = true → False) : s.takeReply read = s := by
  unfold ExitState.takeReply
  cases read with
  | none => rfl
  | some op => exact if_neg fun hc => h hc rfl

theorem ExitInv.fault (hI : ExitInv s) (hs : s.stage = .guest run) (hcur : s.cur = some id) (hid : s.insts id = some i)
    (hinsn : i.insn = .mmio read write device) (hkeeps : s.Keeps .emulate)
    (he : Accesses s.vcpu read write (.error .propagateFault, v)) :
    ExitInv { s.takeReply read with vcpu := v } := by
  cases he with
  | fault hw hwrite =>
    have hnot : s.vcpu.mmioReadCompleted = true → read.isSome = true → False := by
      intro hc hread
      obtain ⟨op, hop, hgpa⟩ := hwrite hc hread
      exact (hkeeps id i read write device hcur hid hinsn hc hread).2 op hop hgpa
    rw [takeReply_of_not hnot]
    apply exitInv_guest
    · exact hs
    · intro id' h
      rw [show kvmGetRegs v.toKvmVcpu = _ from congrArg kvmGetRegs hw.kvmVcpu]
      exact hI.current id' h
    · intro id' h
      obtain ⟨hc, hsome⟩ := hI.parked id' h
      refine ⟨?_, hsome⟩
      rw [show v.mmioReadCompleted = _ from hw.completed, hc]
      cases read with
      | none => rfl
      | some op => exact (hnot hc rfl).elim
    · exact hI.exact hs

/-- The accesses that an instruction has made when the emulator commits it are all but its write. -/
theorem ExitInv.commit_effects (hI : ExitInv s) (hs : s.stage = .guest run) (hcur : s.cur = some id)
    (hid : s.insts id = some i) (hinsn : i.insn = .mmio read write device) (hkeeps : s.Keeps .emulate)
    (hdevice : s.vcpu.mmioReadCompleted = false → read.isSome = true → device = false) :
    i.all = i.effects ++ (write.toList.map fun op => Effect.write op.bytes) ∧ i.exits ≤ i.effects.length ∧
      i.regs.rip = i.start.rip := by
  obtain ⟨k, hk⟩ := hI.underway hs hcur hid
  have hres := hk.resumes
  rw [hinsn] at hres
  obtain ⟨-, hyes, hno⟩ := hres
  have hall := Instance.all_mmio hinsn
  have hlen : i.effects.length = k := by rw [hk.effects, List.length_take, min_eq_left hk.bound]
  refine ⟨?_, hlen.symm ▸ hk.exits, hk.rip⟩
  rw [hk.effects, hall]
  cases read with
  | none =>
    have hnot : ¬s.parked = some id := fun h => absurd (hyes h).2.1 Bool.false_ne_true
    rw [hno hnot]
    split
    · rfl
    · rfl
  | some op =>
    cases hc : s.vcpu.mmioReadCompleted with
    | true =>
      obtain ⟨rfl, -, rfl⟩ := hyes (hkeeps id i (some op) write device hcur hid hinsn hc rfl).1
      rfl
    | false =>
      have hnot : ¬s.parked = some id := by
        rw [hI.parked_none hc]
        exact nofun
      rw [hno hnot, hdevice hc rfl]
      rfl

/-- For another instruction it does not matter that a value was taken. -/
theorem takeReply_parked (hcur : s.cur = some id) (hid : s.insts id = some i)
    (hinsn : i.insn = .mmio read write device) (hkeeps : s.Keeps .emulate) {id' : Nat} (hne : id' ≠ id) :
    s.parked = some id' ↔ (s.takeReply read).parked = some id' := by
  unfold ExitState.takeReply
  cases read with
  | none => exact Iff.rfl
  | some op =>
    dsimp only
    split
    · rename_i hc
      rw [(hkeeps id i (some op) write device hcur hid hinsn hc rfl).1]
      exact iff_of_false (fun h => hne (Option.some.inj h).symm) nofun
    · exact Iff.rfl

@[simp] theorem takeReply_insts (s : ExitState) (read : Option MemOperand) : (s.takeReply read).insts = s.insts := by
  unfold ExitState.takeReply
  split
  · split
    · rfl
    · rfl
  · rfl

/-- A value that still waits after an instruction was not to be taken by it. -/
theorem ExitInv.takeReply_waits (hI : ExitInv s) {id' : Nat} (h : (s.takeReply read).parked = some id') :
    (s.vcpu.mmioReadCompleted && read.isNone) = true ∧ ∃ i, s.insts id' = some i := by
  unfold ExitState.takeReply at h
  cases read with
  | none =>
    obtain ⟨hc, hsome⟩ := hI.parked id' h
    exact ⟨(Bool.and_true _).trans hc, hsome⟩
  | some op =>
    dsimp only at h
    split at h
    · cases h
    · rename_i hc
      exact absurd (hI.parked id' h).1 hc

theorem ExitInv.commit (hI : ExitInv s) (hs : s.stage = .guest run) (hcur : s.cur = some id) (hid : s.insts id = some i)
    (hinsn : i.insn = .mmio read write device) (hkeeps : s.Keeps .emulate)
    (hdevice : s.vcpu.mmioReadCompleted = false → read.isSome = true → device = false)
    (he : Accesses s.vcpu read write (.ok (), v)) (hv : SameMmio v w)
    (hrip : vmcsReadl w.vmcs .guestRip = i.regs.rip + i.len.setWidth 64) :
    ExitInv { (s.takeReply read).setInst id { i with cont := some (vmcsReadl w.vmcs .guestRip) } with
      vcpu := w, cur := none
      stage := if v.mmioIsWrite then .user { run with exit := .mmio, mmio := v.request } (some id)
        else .guest run } := by
  obtain ⟨heffects, hexits, hstart⟩ := hI.commit_effects hs hcur hid hinsn hkeeps hdevice
  have hcont : some (vmcsReadl w.vmcs .guestRip) = some i.nextRip := by
    rw [hrip, hstart]
    rfl
  have hothers : ∀ id' i', id' ≠ id → (s.takeReply read).insts id' = some i' →
      i'.Exact ((s.takeReply read).parked = some id') := by
    intro id' i' hne hid'
    rw [takeReply_insts] at hid'
    exact (hI.exact hs id' i' hid').congr (takeReply_parked hcur hid hinsn hkeeps hne)
  have hparked : ∀ id', (s.takeReply read).parked = some id' → w.mmioReadCompleted = true ∧
      ∃ i', ((s.takeReply read).setInst id { i with cont := some (vmcsReadl w.vmcs .guestRip) }).insts id' =
        some i' := by
    intro id' h
    obtain ⟨hc, hsome⟩ := hI.takeReply_waits h
    cases he with
    | commit hw _ _ => exact ⟨(hv.completed.trans hw.completed).trans hc, exists_setInst _ (by rwa [takeReply_insts])⟩
  cases he with
  | commit hw hisWrite hsize =>
    cases write with
    | none =>
      rw [hisWrite]
      apply exitInv_guest
      · rfl
      · exact fun id h => by cases h
      · exact hparked
      · refine forall_setInst (Or.inl ⟨hcont, ?_, hexits⟩) hothers
        exact (heffects.trans (List.append_nil _)).symm
    | some op =>
      rw [hisWrite]
      refine ⟨fun id h => (by cases h), hparked, nofun, fun id' h => ?_, ?_⟩
      · cases h
        exact ⟨_, setInst_self ..⟩
      · refine forall_setInst ?_ fun id' i' hne hid' => ?_
        · rw [if_pos rfl]
          refine .write hinsn rfl hisWrite (hsize op rfl) rfl hcont ?_ hexits
          have hdrop := congrArg List.dropLast heffects
          rw [Option.toList_some, List.map_singleton, List.dropLast_concat] at hdrop
          exact hdrop.symm
        · rw [if_neg (fun h => hne (Option.some.inj h).symm)]
          exact hothers id' i' hne hid'

end Emulate

/-! ### The callbacks -/

section Handle

open Libkvm (Handled)

variable {s : ExitState} {run : RunStruct} {id : Nat} {i : Instance} {cb : Callbacks} {h : Handled}

/-- The structure with which `KVM_RUN` is called next. -/
def nextRun (h : Handled) : RunStruct := if h.ret = 0 then h.run else .fresh

/-- The instruction after the handling of its exit. -/
def Instance.served (i : Instance) (cur : Prop) [Decidable cur] (h : Handled) : Instance :=
  { i with
    effects := i.effects ++ h.log.map DeviceAccess.effect
    exits := i.exits + 1
    regs := if cur then kvmGetRegs h.vcpu.toKvmVcpu else i.regs }

theorem handled_eq (hid : s.insts id = some i) : s.handled (some id) h =
    { s.setInst id (i.served (s.cur = some id) h) with vcpu := h.vcpu, stage := .enter (nextRun h) } := by
  unfold ExitState.handled
  dsimp only
  rw [hid]
  rfl

/-- The exit of an instruction was handled: what is left to show is about the instruction. -/
theorem ExitInv.handled (hI : ExitInv s) (hs : s.stage = .user run (some id)) (hid : s.insts id = some i)
    (hcur : s.cur = some id ∨ s.cur = none) (hcompleted : h.vcpu.mmioReadCompleted = s.vcpu.mmioReadCompleted)
    (hexcl : (nextRun h).emulated = true → (nextRun h).mmioCompleted = false)
    (hnone : (nextRun h).mmioCompleted = true → s.parked = none)
    (hself : Entering h.vcpu (nextRun h) (s.cur = some id) (s.parked = some id) (i.served (s.cur = some id) h)) :
    ExitInv (s.handled (some id) h) := by
  have hstage := hI.stage
  rw [hs] at hstage
  rw [handled_eq hid]
  refine ⟨fun id' h' => ?_, fun id' h' => ?_, hexcl, hnone, ?_⟩
  · have hcur' : s.cur = some id' := h'
    rcases hcur with hc | hc
    · cases hc.symm.trans hcur'
      obtain ⟨i', hid', hcont, -⟩ := hI.current id hc
      cases hid.symm.trans hid'
      refine ⟨_, setInst_self .., hcont, ?_⟩
      unfold Instance.served
      dsimp only
      rw [if_pos hc]
    · rw [hc] at hcur'
      cases hcur'
  · obtain ⟨hc, hsome⟩ := hI.parked id' h'
    exact ⟨hcompleted.trans hc, exists_setInst _ hsome⟩
  · refine forall_setInst hself fun id' i' hne hid' => ?_
    have hncur : ¬s.cur = some id' := by
      rintro hc
      rcases hcur with hc' | hc'
      · exact hne (Option.some.inj (hc.symm.trans hc'))
      · rw [hc'] at hc
        cases hc
    have hexact := hstage.2.2 id' i' hid'
    rw [if_neg (fun h => hne (Option.some.inj h).symm)] at hexact
    exact ⟨fun h => absurd h hncur, fun h => absurd h hncur, fun _ => hexact⟩

/-- The structure after an exit that was not answered in it. -/
theorem nextRun_plain (he : h.run.emulated = false) (hm : h.run.mmioCompleted = false) :
    (nextRun h).emulated = false ∧ (nextRun h).mmioCompleted = false := by
  unfold nextRun
  split
  · exact ⟨he, hm⟩
  · exact ⟨rfl, rfl⟩

theorem nextRun_ret (hret : h.ret = 0) : nextRun h = h.run := if_pos hret

/-- A call that ends leaves no answer. -/
theorem nextRun_end (hret : h.ret ≠ 0) : (nextRun h).emulated = false ∧ (nextRun h).mmioCompleted = false := by
  unfold nextRun
  rw [if_neg hret]
  exact ⟨rfl, rfl⟩

/-- The part of an I/O instruction that an exit has transferred. -/
theorem Instance.Underway.io_served {io : IoInsn} {k n : Nat} {y : Libkvm.IoLoop} (hk : i.Underway False k)
    (hinsn : i.insn = .io io) (hregs : i.regs = kvmGetRegs s.vcpu.toKvmVcpu) (hcur : s.cur = some id)
    (hrounds : Libkvm.Rounds io (.init s.vcpu run) y n) (hpos : 0 < n)
    (hlog : h.log.map DeviceAccess.effect = List.replicate n io.effect)
    (hget : kvmGetRegs h.vcpu.toKvmVcpu = y.regs) :
    let j := i.served (s.cur = some id) h
    j.effects = List.replicate (k + n) io.effect ∧ j.exits ≤ k + n ∧ j.regs.rip = i.start.rip ∧
      (io.rep = true → j.regs = io.advance^[k + n] i.start) := by
  have heffects : i.effects = List.replicate k io.effect := by
    rw [hk.effects, Instance.all_io hinsn, List.take_replicate, min_eq_left]
    have hbound := hk.bound
    rwa [Instance.all_io hinsn, List.length_replicate] at hbound
  have hinit : (Libkvm.IoLoop.init s.vcpu run).regs = i.regs := hregs.symm
  have hres := hk.resumes
  rw [hinsn] at hres
  refine ⟨?_, Nat.add_le_add hk.exits hpos, ?_, fun hrep => ?_⟩
  · refine (congrArg₂ (· ++ ·) heffects hlog).trans ?_
    exact List.replicate_append_replicate
  · unfold Instance.served
    dsimp only
    rw [if_pos hcur, hget, hrounds.rip, hinit, hk.rip]
  · unfold Instance.served
    dsimp only
    rw [if_pos hcur, hget, hrounds.regs hrep, hinit, hres.2.1, ← Function.iterate_add_apply, Nat.add_comm]

/-- The count of an exit is what is left of the instruction. -/
theorem Instance.Underway.io_count {io : IoInsn} {k : Nat} (hk : i.Underway False k) (hinsn : i.insn = .io io)
    (hrep : io.rep = true) {count : Nat} (hcount : count = io.remaining i.regs) : k + count = io.remaining i.start := by
  have hres := hk.resumes
  rw [hinsn] at hres
  have hbound := hk.bound
  rw [Instance.all_io hinsn, if_pos hrep, List.length_replicate] at hbound
  rw [hcount, hres.2.1, IoInsn.remaining_iterate hbound]
  omega

theorem ExitInv.handle_io {io : IoInsn} {k : Nat} (hI : ExitInv s) (hs : s.stage = .user run (some id))
    (hid : s.insts id = some i) (hkeeps : s.Keeps (.handle cb)) (hinsn : i.insn = .io io)
    (hof : IoExitOf i io s.vcpu run) (hcur : s.cur = some id) (hwaits : ¬s.parked = some id) (hk : i.Underway False k)
    (hcount : io.rep = true → io.remaining i.regs ≠ 0) (hh : Libkvm.handleExit cb s.vcpu run = some h) :
    ExitInv (s.handled (some id) h) := by
  obtain ⟨i', hid', hcont, hregs⟩ := hI.current id hcur
  cases hid.symm.trans hid'
  obtain ⟨n, y, hn⟩ := Libkvm.handleExit_io_spec hof.exit hof.describes hh
  obtain ⟨mem, hvcpu⟩ := hn.vcpu
  have hres := hk.resumes
  rw [hinsn] at hres
  -- the count of the exit is what is left of the instruction
  have hleft : io.rep = true → run.io.count.toNat = io.remaining i.regs := by
    intro hrep
    rw [hof.count hrep, hregs]
    rfl
  have hget : kvmGetRegs h.vcpu.toKvmVcpu = y.regs := by
    rw [hvcpu]
    exact kvmGetRegs_kvmSetRegs ..
  have hlen : vmcsRead32 h.vcpu.vmcs .vmExitInstructionLen = i.len := by
    rw [hvcpu]
    exact (Libkvm.vmExitInstructionLen_kvmSetRegs ..).trans hof.len
  have hpos : 0 < n := hn.pos fun hrep => by
    rw [hleft hrep]
    exact hcount hrep
  obtain ⟨heffects, hexits, hrip, hrepRegs⟩ := hk.io_served hinsn hregs hcur hn.rounds hpos hn.log hget
  have hserved : k + n = (if io.rep then io.remaining i.start else 1) →
      Served h.vcpu (i.served (s.cur = some id) h) := by
    intro hall
    have hlength : (i.served (s.cur = some id) h).effects.length = k + n := by rw [heffects, List.length_replicate]
    exact ⟨hcont, heffects.trans (by rw [hall]; exact (Instance.all_io hinsn).symm), hlength.symm ▸ hexits, hrip, hlen⟩
  have hmmio : (nextRun h).mmioCompleted = false := by
    by_cases hret : h.ret = 0
    · rw [nextRun_ret hret, hn.mmioCompleted]
    · exact (nextRun_end hret).2
  have hnoanswer : (nextRun h).mmioCompleted ≠ true := by
    rw [hmmio]
    exact Bool.false_ne_true
  apply hI.handled hs hid (Or.inl hcur)
  · rw [hvcpu]
  · exact fun _ => hmmio
  · exact fun h => absurd h hnoanswer
  · by_cases hret : h.ret = 0
    · -- all elements are transferred
      refine ⟨fun _ _ => hserved ?_, fun _ h => absurd h hnoanswer, fun hno => ?_⟩
      · rw [hn.complete hret]
        cases hrep : io.rep with
        | true =>
          rw [if_pos rfl, if_pos rfl]
          exact hk.io_count hinsn hrep (hleft hrep)
        | false =>
          rw [if_neg Bool.false_ne_true, if_neg Bool.false_ne_true,
            hres.2.2.resolve_left (by rw [hrep]; exact Bool.false_ne_true)]
      · have hem := (hno hcur).1
        rw [nextRun_ret hret, hn.emulated, decide_eq_true hret] at hem
        cases hem
    · have hrep : io.rep = true := by
        cases hrep : io.rep with
        | true => rfl
        | false =>
          refine absurd ?_ hret
          exact Libkvm.handleExit_io_ret hof.exit (hof.describes.rep.trans hrep) (fun a => hkeeps run (some id) a hs) hh
      have hnoem : (nextRun h).emulated ≠ true := by
        rw [(nextRun_end hret).1]
        exact Bool.false_ne_true
      -- the instruction goes on with its first element that is not transferred
      refine ⟨fun _ h => absurd h hnoem, fun _ h => absurd h hnoanswer,
        fun _ => Or.inr ⟨k + n, Instance.Underway.congr ?_ (iff_of_false not_false hwaits)⟩⟩
      have hbound := hn.bound
      have hcount := hk.io_count hinsn hrep (hleft hrep)
      rw [if_pos hrep] at hbound
      have hall : (i.served (s.cur = some id) h).all = List.replicate (io.remaining i.start) io.effect := by
        refine (Instance.all_io hinsn).trans ?_
        rw [if_pos hrep]
      refine ⟨hcont, ?_, ?_, hexits, ?_⟩
      · rw [hall, List.length_replicate]
        omega
      · rw [heffects, hall, List.take_replicate, min_eq_left (by omega)]
      · change i.insn.ResumesAt _ _ _ _
        rw [hinsn]
        exact ⟨not_false, hrepRegs hrep, Or.inl hrep⟩

theorem ExitInv.handle_cpuid (hI : ExitInv s) (hs : s.stage = .user run (some id)) (hid : s.insts id = some i)
    (hkeeps : s.Keeps (.handle cb)) (hinsn : i.insn = .cpuid) (hexit : run.exit = .cpuid)
    (hlen : vmcsRead32 s.vcpu.vmcs .vmExitInstructionLen = i.len) (hcur : s.cur = some id) (hk : i.Underway False 0)
    (hh : Libkvm.handleExit cb s.vcpu run = some h) : ExitInv (s.handled (some id) h) := by
  obtain ⟨i', hid', hcont, hregs⟩ := hI.current id hcur
  cases hid.symm.trans hid'
  obtain ⟨hleft, hret⟩ := Libkvm.handleExit_cpuid_spec hexit hh
  have hret := hret fun a => hkeeps run (some id) a hs
  have heffects : i.effects = [] := hk.effects
  apply hI.handled hs hid (Or.inl hcur) hleft.completed
  · rw [nextRun_ret hret]
    exact fun _ => hleft.mmioCompleted
  · rw [nextRun_ret hret, hleft.mmioCompleted]
    exact nofun
  · rw [nextRun_ret hret]
    have hserved : (i.served (s.cur = some id) h).effects = [.cpuid] := by
      unfold Instance.served
      dsimp only
      rw [heffects, hleft.log]
      rfl
    refine ⟨fun _ _ => ⟨hcont, ?_, ?_, ?_, hleft.len.trans hlen⟩, fun _ h => ?_, fun hno => ?_⟩
    · exact hserved.trans (Instance.all_cpuid hinsn).symm
    · rw [hserved]
      exact Nat.succ_le_succ hk.exits
    · unfold Instance.served
      dsimp only
      rw [if_pos hcur, hleft.rip, ← hregs, hk.rip]
    · rw [hleft.mmioCompleted] at h
      cases h
    · have := (hno hcur).1
      rw [hleft.emulated] at this
      cases this

theorem ExitInv.handle_read {op : MemOperand} {write : Option MemOperand} (hI : ExitInv s)
    (hs : s.stage = .user run (some id)) (hid : s.insts id = some i) (hkeeps : s.Keeps (.handle cb))
    (hinsn : i.insn = .mmio (some op) write true) (hexit : run.exit = .mmio) (hread : run.mmio.isWrite = false)
    (hsize : run.mmio.len = op.bytes) (hcur : s.cur = some id) (hparked : s.parked = none) (hk : i.Underway False 0)
    (hh : Libkvm.handleExit cb s.vcpu run = some h) : ExitInv (s.handled (some id) h) := by
  obtain ⟨i', hid', hcont, hregs⟩ := hI.current id hcur
  cases hid.symm.trans hid'
  have hleft := Libkvm.handleExit_mmio_spec hexit hh
  obtain ⟨hlog, hret⟩ := Libkvm.handleExit_mmio_called hexit (hsize ▸ op.bytes_ok) hh
  have hret := hret hread fun a => hkeeps run (some id) a hs
  have heffects : i.effects = [] := hk.effects
  have hmmio := hleft.mmioCompleted
  rw [hread, if_neg Bool.false_ne_true] at hlog
  rw [hread] at hmmio
  apply hI.handled hs hid (Or.inl hcur)
  · rw [hleft.vcpu]
  · rw [nextRun_ret hret, hleft.emulated]
    exact nofun
  · exact fun _ => hparked
  · rw [nextRun_ret hret]
    refine ⟨fun _ h => ?_, fun _ _ => ⟨hcont, ?_, ?_, Nat.succ_le_succ hk.exits, ?_⟩, fun hno => ?_⟩
    · rw [hleft.emulated] at h
      cases h
    · change 1 ≤ i.all.length
      rw [Instance.all_mmio hinsn]
      exact Nat.succ_le_succ (Nat.zero_le _)
    · change i.effects ++ h.log.map DeviceAccess.effect = i.all.take 1
      rw [heffects, hlog, hsize, Instance.all_mmio hinsn]
      rfl
    · have hres := hk.resumes
      rw [hinsn] at hres
      have hsame : (i.served (s.cur = some id) h).regs = i.regs := by
        unfold Instance.served
        dsimp only
        rw [if_pos hcur, hleft.vcpu, hregs]
      rw [hsame]
      change i.insn.ResumesAt i.start 1 True i.regs
      rw [hinsn]
      exact ⟨hres.1, fun _ => ⟨rfl, rfl, rfl⟩, fun h => absurd trivial h⟩
    · have := (hno hcur).2
      rw [hmmio] at this
      cases this

theorem ExitInv.handle_write {read : Option MemOperand} {op : MemOperand} {device : Bool} (hI : ExitInv s)
    (hs : s.stage = .user run (some id)) (hid : s.insts id = some i) (hinsn : i.insn = .mmio read (some op) device)
    (hexit : run.exit = .mmio) (hwrite : run.mmio.isWrite = true) (hsize : run.mmio.len = op.bytes)
    (hcur : s.cur = none) (hcont : i.cont = some i.nextRip) (heffects : i.effects = i.all.dropLast)
    (hexits : i.exits ≤ i.effects.length) (hh : Libkvm.handleExit cb s.vcpu run = some h) :
    ExitInv (s.handled (some id) h) := by
  have hleft := Libkvm.handleExit_mmio_spec hexit hh
  obtain ⟨hlog, -⟩ := Libkvm.handleExit_mmio_called hexit (hsize ▸ op.bytes_ok) hh
  have hmmio := hleft.mmioCompleted
  rw [hwrite, if_pos rfl] at hlog
  rw [hwrite] at hmmio
  obtain ⟨hem, hcompleted⟩ := nextRun_plain hleft.emulated hmmio
  have hncur : ¬s.cur = some id := by
    rw [hcur]
    exact nofun
  apply hI.handled hs hid (Or.inr hcur)
  · rw [hleft.vcpu]
  · exact fun _ => hcompleted
  · rw [hcompleted]
    exact nofun
  · refine ⟨fun h => absurd h hncur, fun h => absurd h hncur, fun _ => Or.inl ⟨hcont, ?_, ?_⟩⟩
    · change i.effects ++ h.log.map DeviceAccess.effect = i.all
      rw [heffects, hlog, hsize, Instance.all_mmio hinsn, Option.toList_some, List.map_singleton, List.dropLast_concat]
    · change i.exits + 1 ≤ (i.effects ++ h.log.map DeviceAccess.effect).length
      rw [hlog, List.length_append]
      exact Nat.succ_le_succ hexits

theorem ExitInv.handle_plain (hI : ExitInv s) (hs : s.stage = .user run none)
    (hh : Libkvm.handleExit cb s.vcpu run = some h) : ExitInv (s.handled none h) := by
  have hstage := hI.stage
  rw [hs] at hstage
  obtain ⟨hvcpu, he, hm⟩ := Libkvm.handleExit_plain_spec (hstage.1 rfl) hh
  obtain ⟨hem, hcompleted⟩ := nextRun_plain he hm
  unfold ExitState.handled
  refine ⟨fun id hcur => ?_, fun id h => ?_, fun _ => hcompleted, fun h => ?_, fun id i hid => ?_⟩
  · rw [show kvmGetRegs h.vcpu.toKvmVcpu = kvmGetRegs s.vcpu.toKvmVcpu by rw [hvcpu]]
    exact hI.current id hcur
  · rw [hvcpu]
    exact hI.parked id h
  · exact absurd (hcompleted.symm.trans h) Bool.false_ne_true
  · have hexact := hstage.2.2 id i hid
    rw [if_neg nofun] at hexact
    exact ⟨fun _ h => absurd (hem.symm.trans h) Bool.false_ne_true,
      fun _ h => absurd (hcompleted.symm.trans h) Bool.false_ne_true, fun _ => hexact⟩

theorem ExitInv.handle {owner : Option Nat} (hI : ExitInv s) (hs : s.stage = .user run owner)
    (hkeeps : s.Keeps (.handle cb)) (hh : Libkvm.handleExit cb s.vcpu run = some h) : ExitInv (s.handled owner h) := by
  cases owner with
  | none => exact hI.handle_plain hs hh
  | some id =>
    have hstage := hI.stage
    rw [hs] at hstage
    obtain ⟨i, hid⟩ := hstage.2.1 id rfl
    have hexiting := hstage.2.2 id i hid
    rw [if_pos rfl] at hexiting
    cases hexiting with
    | io hinsn hof hcur hwaits hk hcount => exact hI.handle_io hs hid hkeeps hinsn hof hcur hwaits hk hcount hh
    | cpuid hinsn hexit hlen hcur hwaits hk => exact hI.handle_cpuid hs hid hkeeps hinsn hexit hlen hcur hk hh
    | read hinsn hexit hread hsize hcur hparked hk =>
      exact hI.handle_read hs hid hkeeps hinsn hexit hread hsize hcur hparked hk hh
    | write hinsn hexit hwrite hsize hcur hcont heffects hexits =>
      exact hI.handle_write hs hid hinsn hexit hwrite hsize hcur hcont heffects hexits hh

end Handle

/-! ### Runs -/

/-- A new vcpu, before the first call of `kvm_run`. -/
structure ExitState.Initial (s : ExitState) : Prop where
  stage : s.stage = .enter .fresh
  completed : s.vcpu.mmioReadCompleted = false
  insts : ∀ id, s.insts id = none
  cur : s.cur = none
  parked : s.parked = none
  stayed : s.stayed = false
  taken : s.taken = []

theorem exitInv_initial {s : ExitState} (h : s.Initial) : ExitInv s := by
  refine ⟨fun id hcur => ?_, fun id hp => ?_, ?_⟩
  · rw [h.cur] at hcur
    cases hcur
  · rw [h.parked] at hp
    cases hp
  · rw [h.stage]
    refine ⟨fun _ => rfl, nofun, fun id i hid => ?_⟩
    rw [h.insts id] at hid
    cases hid

theorem ExitInv.step {s t : ExitState} {e : ExitEvent} (hI : ExitInv s) (hkeeps : s.Keeps e) (h : ExitStep s e t) :
    ExitInv t := by
  cases h with
  | run hs => exact hI.beginRun hs
  | quiet hs hv => exact hI.quiet hs hv
  | other hs hcur hv => exact hI.other hs hcur hv
  | start hs hcur hv hid hstart hregs heffects hexits hcont =>
    exact hI.start hs hv hid hstart hregs heffects hexits hcont
  | leave hs hv => exact hI.leave hs hv
  | resume hs hcur hv hid hcont hregs => exact hI.resume hs hv hid hcont hregs
  | repEnd hs hcur hid hio hrep hcount hv hrip => exact hI.repEnd hs hcur hid hio hrep hcount hv hrip
  | io hs hcur hid hio hcount hexit hof => exact hI.io hs hcur hid hio hcount hof
  | cpuid hs hcur hid hinsn hlen => exact hI.cpuid hs hcur hid hinsn hlen
  | plain hs he => exact hI.plain hs he
  | ask hs hcur hid hinsn hdevice he =>
    exact hI.ask hs hcur hid hinsn hdevice (he ▸ emulateAccesses_spec ..)
  | fault hs hcur hid hinsn he => exact hI.fault hs hcur hid hinsn hkeeps (he ▸ emulateAccesses_spec ..)
  | commit hs hcur hid hinsn hdevice he hv hrip =>
    exact hI.commit hs hcur hid hinsn hkeeps hdevice (he ▸ emulateAccesses_spec ..) hv hrip
  | handle hs hh => exact hI.handle hs hkeeps hh

/-- The invariant holds along the runs in which no answer is lost and no value is taken by another instruction. -/
theorem ExitInv.run {s t : ExitState} (hI : ExitInv s) (h : ReflTransGen (fun s t => ∃ e, s.Keeps e ∧ ExitStep s e t) s t) :
    ExitInv t := by
  induction h with
  | refl => exact hI
  | tail _ hstep ih =>
    obtain ⟨e, hkeeps, hstep⟩ := hstep
    exact ih.step hkeeps hstep

/-- The value of the read of the instruction waits in the vcpu. -/
def ExitState.Waits (s : ExitState) (id : Nat) : Prop := s.parked = some id ∧ s.vcpu.mmioReadCompleted = true

/-- In the runs from a state, whenever the guest runs, each instruction has had each of its accesses made once before it
ends, and goes on with the next one until then. -/
def ExitState.ExactlyOnce (s : ExitState) (step : ExitState → ExitState → Prop) : Prop :=
  s.Initial → ∀ t run, ReflTransGen step s t → t.stage = .guest run →
    ∀ id i, t.insts id = some i → i.Exact (t.Waits id)

/-- **Exactly-once exits**. -/
def ExactlyOnce (step : ExitState → ExitState → Prop) : Prop := ∀ s : ExitState, s.ExactlyOnce step

/-- Each access is made once in the runs in which no answer is lost and no value is taken by another instruction. -/
theorem exits_exactlyOnce (s : ExitState) : s.ExactlyOnce fun s t => ∃ e, s.Keeps e ∧ ExitStep s e t := by
  intro hinit t run hrun hs id i hid
  have hI : ExitInv t := (exitInv_initial hinit).run hrun
  exact (hI.exact hs id i hid).congr ⟨fun h => ⟨h, (hI.parked id h).1⟩, fun h => h.1⟩

/-- A guest at a CPUID instruction. -/
def cpuidVcpu : MmioVcpu :=
  { (default : KvmVcpu) with
    vmcs := fun field => if field = .vmExitInstructionLen then 2 else 0
    mmioNeeded := false
    mmioReadCompleted := false
    mmioIsWrite := false
    mmioData := 0
    mmioSize := 0
    mmioPhysAddr := 0 }

theorem two_ne_zero : (2 : BitVec 32) ≠ 0 := by decide

def cpuidInstance (v : MmioVcpu) : Instance :=
  ⟨.cpuid, 2, kvmGetRegs v.toKvmVcpu, kvmGetRegs v.toKvmVcpu, [], 0, none, two_ne_zero⟩

/-- Callbacks of which the one for CPUID does not return 0. -/
def stopCallbacks : Callbacks := ⟨fun _ _ => ⟨1, 0, fun _ => 0⟩, 0, 0, 0⟩

/-- A CPUID instruction that has been executed has ended. -/
theorem not_exact_of_cpuid {i : Instance} {answered : Prop} (hinsn : i.insn = .cpuid) (hcont : i.cont = none)
    (heffects : i.effects ≠ []) : ¬i.Exact answered := by
  intro h
  obtain ⟨k, hk⟩ := h.underway hcont
  have hres := hk.resumes
  rw [hinsn] at hres
  rw [hk.effects, hres.2.2] at heffects
  exact heffects rfl

/-- The callback of CPUID returns 1: in the next call the instruction is executed again. -/
theorem cpuid_repeated : ¬ExactlyOnce fun s t => ∃ e, ExitStep s e t := by
  intro hall
  let s0 : ExitState := ⟨cpuidVcpu, .enter .fresh, fun _ => none, none, none, false, (0, 0), []⟩
  let s1 := s0.beginRun .fresh
  let s2 : ExitState := { s1.setInst 0 (cpuidInstance s1.vcpu) with cur := some 0 }
  let s3 : ExitState := { s2 with stage := .user (handleCpuid .fresh) (some 0) }
  let h := Libkvm.handleCpuid stopCallbacks s3.vcpu (handleCpuid .fresh)
  let s4 := s3.handled (some 0) h
  let s5 := s4.beginRun .fresh
  have h1 : ExitStep s0 .run s1 := .run rfl
  have h2 : ExitStep s1 .guest s2 := .start rfl rfl ⟨rfl, rfl, rfl⟩ rfl rfl rfl rfl rfl rfl
  have h3 : ExitStep s2 .exit s3 := .cpuid rfl rfl rfl rfl rfl
  have h4 : ExitStep s3 (.handle stopCallbacks) s4 := .handle rfl rfl
  have h5 : ExitStep s4 .run s5 := .run rfl
  have hrun : ReflTransGen (fun s t => ∃ e, ExitStep s e t) s0 s5 :=
    ((((ReflTransGen.single ⟨_, h1⟩).tail ⟨_, h2⟩).tail ⟨_, h3⟩).tail ⟨_, h4⟩).tail ⟨_, h5⟩
  obtain ⟨i, hid, hinsn, hcont, heffects⟩ :
      ∃ i, s5.insts 0 = some i ∧ i.insn = .cpuid ∧ i.cont = none ∧ i.effects = [.cpuid] := ⟨_, rfl, rfl, rfl, rfl⟩
  have hexact := hall s0 ⟨rfl, rfl, fun _ => rfl, rfl, rfl, rfl, rfl⟩ s5 _ hrun rfl 0 i hid
  exact not_exact_of_cpuid hinsn hcont (by rw [heffects]; exact nofun) hexact

end LearnKvm
