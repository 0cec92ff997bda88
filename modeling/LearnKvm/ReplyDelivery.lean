import LearnKvm.ExactlyOnce

/-!
# Replies to reads of device memory

The value of a read waits in the vcpu without an address.  It is the value of the next read of the emulator, so it reaches
the read it answers if the instruction that has asked is executed again before the guest does anything else
(`replies_delivered`), and an interrupt can come in between (`reply_misdelivered`).
-/

namespace LearnKvm

open Relation

/-! ### The invariant -/

/-- The instruction has asked for the value of its read. -/
def ExitState.Asks (s : ExitState) (id : Nat) : Prop :=
  ∃ i op write device, s.insts id = some i ∧ i.insn = .mmio (some op) write device ∧
    s.asked = (mmuGvaToGpa s.vcpu.toVcpu op.addr, op.bytes)

/-- The current instruction accesses no memory. -/
def ExitState.AtPort (s : ExitState) : Prop :=
  ∃ id i, s.cur = some id ∧ s.insts id = some i ∧ ∀ read write device, i.insn ≠ .mmio read write device

/-- A value is on its way to the current instruction. -/
def ExitState.StageAsks (s : ExitState) : Stage → Prop
  | .guest _ => True
  | .enter run => (run.mmioCompleted = true → ∃ id, s.cur = some id ∧ s.Asks id) ∧ (run.emulated = true → s.AtPort)
  | .user run owner =>
    (run.exit = .mmio → run.mmio.isWrite = false → ∃ id, s.cur = some id ∧ s.Asks id) ∧
    (run.exit = .io ∨ run.exit = .cpuid → owner = s.cur ∧ s.AtPort) ∧
    (run.exit = .io → ∃ io : IoInsn, io.Describes run.io) ∧ ∀ id, owner = some id → ∃ i, s.insts id = some i

structure ReplyInv (s : ExitState) : Prop where
  taken : ∀ p ∈ s.taken, p.1 = p.2
  current : ∀ id, s.cur = some id → ∃ i, s.insts id = some i ∧ i.regs = kvmGetRegs s.vcpu.toKvmVcpu
  direct : s.vcpu.mmioReadCompleted = true → s.stayed = true → ∀ id, s.parked = some id → s.cur = some id ∧ s.Asks id
  stage : s.StageAsks s.stage

/-- While a value waits, the emulator reads only for the instruction that has asked for it, and the guest has executed
nothing in between. -/
def ExitState.Direct (s : ExitState) : ExitEvent → Prop
  | .emulate => ∀ id i read write device, s.cur = some id → s.insts id = some i → i.insn = .mmio read write device →
      s.vcpu.mmioReadCompleted = true → read.isSome = true → s.parked = some id ∧ s.stayed = true
  | _ => True

/-! ### Steps -/

section Steps

variable {s : ExitState} {run run' : RunStruct} {v w : MmioVcpu} {id : Nat} {i j : Instance}

/-- An instruction record that changes keeps its instruction. -/
theorem ExitState.Asks.setInst {t : ExitState} {id' : Nat} (h : s.Asks id') (hid : s.insts id = some i)
    (hinsn : j.insn = i.insn) (hinsts : t.insts = (s.setInst id j).insts) (hasked : t.asked = s.asked)
    (hgva : ∀ addr, mmuGvaToGpa t.vcpu.toVcpu addr = mmuGvaToGpa s.vcpu.toVcpu addr) : t.Asks id' := by
  obtain ⟨i', op, write, device, hid', hmmio, heq⟩ := h
  by_cases hne : id' = id
  · subst hne
    cases hid.symm.trans hid'
    refine ⟨j, op, write, device, ?_, hinsn.trans hmmio, ?_⟩
    · rw [hinsts]
      exact setInst_self ..
    · rw [hasked, hgva, heq]
  · refine ⟨i', op, write, device, ?_, hmmio, ?_⟩
    · rw [hinsts]
      exact (setInst_of_ne _ _ hne).trans hid'
    · rw [hasked, hgva, heq]

theorem ExitState.Asks.same {t : ExitState} (h : s.Asks id) (hinsts : t.insts = s.insts) (hasked : t.asked = s.asked)
    (hgva : ∀ addr, mmuGvaToGpa t.vcpu.toVcpu addr = mmuGvaToGpa s.vcpu.toVcpu addr) : t.Asks id := by
  obtain ⟨i, op, write, device, hid, hmmio, heq⟩ := h
  exact ⟨i, op, write, device, by rw [hinsts]; exact hid, hmmio, by rw [hasked, hgva, heq]⟩

/-- The current instruction does not both access memory and not. -/
theorem ExitState.AtPort.not_asks (h : s.AtPort) (hcur : s.cur = some id) (hasks : s.Asks id) : False := by
  obtain ⟨id', i', hcur', hid', hport⟩ := h
  obtain ⟨i, op, write, device, hid, hmmio, -⟩ := hasks
  cases hcur.symm.trans hcur'
  cases hid.symm.trans hid'
  exact hport _ _ _ hmmio

theorem settle_cases (s : ExitState) :
    (s.settle = s ∧ ∀ id i, s.cur = some id → s.insts id = some i → vmcsReadl s.vcpu.vmcs .guestRip = i.regs.rip) ∨
    ∃ id i, s.cur = some id ∧ s.insts id = some i ∧ vmcsReadl s.vcpu.vmcs .guestRip ≠ i.regs.rip ∧
      s.settle = { s.setInst id { i with cont := some (vmcsReadl s.vcpu.vmcs .guestRip) } with cur := none } := by
  by_cases h : ∀ id i, s.cur = some id → s.insts id = some i → vmcsReadl s.vcpu.vmcs .guestRip = i.regs.rip
  · exact Or.inl ⟨settle_of_same s h, h⟩
  · push Not at h
    obtain ⟨id, i, hcur, hid, hrip⟩ := h
    exact Or.inr ⟨id, i, hcur, hid, hrip, settle_of_moved s hcur hid hrip⟩

theorem kvmGetRegs_skipEmulatedInstruction (v : KvmVcpu)
    (h : vmcsReadl (skipEmulatedInstruction v).vmcs .guestRip = vmcsReadl v.vmcs .guestRip) :
    kvmGetRegs (skipEmulatedInstruction v) = kvmGetRegs v := by
  unfold kvmGetRegs
  have hrsp : vmcsReadl (skipEmulatedInstruction v).vmcs .guestRsp = vmcsReadl v.vmcs .guestRsp :=
    skipEmulatedInstruction_vmcs v (by decide) (by decide)
  have hrflags : vmcsReadl (skipEmulatedInstruction v).vmcs .guestRflags = vmcsReadl v.vmcs .guestRflags :=
    skipEmulatedInstruction_vmcs v (by decide) (by decide)
  rw [h, hrsp, hrflags]
  rfl

/-- The value that `KVM_RUN` takes is for the current instruction. -/
theorem ReplyInv.takeAnswer (hI : ReplyInv s) (hs : s.stage = .enter run)
    (hc : (s.takeAnswer run).vcpu.mmioReadCompleted = true) (hst : (s.takeAnswer run).stayed = true)
    (hp : (s.takeAnswer run).parked = some id) :
    s.cur = some id ∧ s.Asks id ∧ (s.takeAnswer run).vcpu.toKvmVcpu = s.vcpu.toKvmVcpu := by
  have hstage := hI.stage
  rw [hs] at hstage
  obtain ⟨hmmio, hport⟩ := hstage
  have hask : s.cur = some id ∧ s.Asks id := by
    cases hm : run.mmioCompleted with
    | true =>
      obtain ⟨id', hcur, hasks⟩ := hmmio hm
      have hp' : s.cur = some id := by
        unfold ExitState.takeAnswer at hp
        simpa only [hm, if_true] using hp
      cases hcur.symm.trans hp'
      exact ⟨hcur, hasks⟩
    | false =>
      apply hI.direct
      · have := (runStart_completed s.vcpu run).symm.trans hc
        rwa [hm, Bool.false_or] at this
      · unfold ExitState.takeAnswer at hst
        simpa only [hm, Bool.false_or] using hst
      · unfold ExitState.takeAnswer at hp
        simpa only [hm, Bool.false_eq_true, if_false] using hp
  refine ⟨hask.1, hask.2, (runStart_kvmVcpu s.vcpu run).trans ?_⟩
  split
  · rename_i he
    exact ((hport he).not_asks hask.1 hask.2).elim
  · rfl

theorem ReplyInv.beginRun (hI : ReplyInv s) (hs : s.stage = .enter run) : ReplyInv (s.beginRun run) := by
  have hvcpu : (s.takeAnswer run).vcpu.toKvmVcpu = _ := runStart_kvmVcpu s.vcpu run
  unfold ExitState.beginRun
  rcases settle_cases (s.takeAnswer run) with ⟨hsettle, hrip⟩ | ⟨id, i, hcur, hid, hrip, hsettle⟩
  · rw [hsettle]
    refine ⟨hI.taken, fun id hcur => ?_, fun hc hst id hp => ?_, trivial⟩
    · obtain ⟨i, hid, hregs⟩ := hI.current id hcur
      refine ⟨i, hid, hregs.trans ?_⟩
      have hmoved := hrip id i hcur hid
      rw [hvcpu] at hmoved ⊢
      split
      · rename_i he
        rw [if_pos he, hregs] at hmoved
        exact (kvmGetRegs_skipEmulatedInstruction _ hmoved).symm
      · rfl
    · obtain ⟨hcur, hasks, hsame⟩ := hI.takeAnswer hs hc hst hp
      exact ⟨hcur, hasks.same rfl rfl fun addr => by rw [show (s.takeAnswer run).vcpu.toVcpu = s.vcpu.toVcpu from
        congrArg KvmVcpu.toVcpu hsame]⟩
  · rw [hsettle]
    refine ⟨hI.taken, fun id h => (by cases h), fun hc hst id' hp => ?_, trivial⟩
    -- the guest has not moved on if a value waits for the current instruction
    obtain ⟨-, -, hsame⟩ := hI.takeAnswer hs hc hst hp
    obtain ⟨i', hid', hregs⟩ := hI.current id hcur
    cases hid.symm.trans hid'
    rw [hsame, hregs] at hrip
    exact (hrip rfl).elim

/-! ### The guest -/

/-- While the guest is not at an instruction, no value waits for one. -/
theorem ReplyInv.not_direct (hI : ReplyInv s) (hcur : s.cur = none) (hc : s.vcpu.mmioReadCompleted = true)
    (hst : s.stayed = true) (hp : s.parked = some id) : False := by
  rw [(hI.direct hc hst id hp).1] at hcur
  cases hcur

theorem ReplyInv.quiet (hI : ReplyInv s) (hs : s.stage = .guest run) (hv : GuestKept s.vcpu v) :
    ReplyInv { s with vcpu := v } := by
  refine ⟨hI.taken, fun id hcur => ?_, fun hc hst id hp => ?_, ?_⟩
  · rw [hv.regs]
    exact hI.current id hcur
  · obtain ⟨hcur, hasks⟩ := hI.direct (hv.completed.symm.trans hc) hst id hp
    exact ⟨hcur, hasks.same rfl rfl hv.gva⟩
  · rw [show ({ s with vcpu := v } : ExitState).stage = .guest run from hs]
    exact trivial

theorem ReplyInv.other (hI : ReplyInv s) (hs : s.stage = .guest run) (hcur : s.cur = none) (hv : SameMmio s.vcpu v) :
    ReplyInv { s with vcpu := v } := by
  refine ⟨hI.taken, fun id h => ?_, fun hc hst id hp => ?_, ?_⟩
  · rw [show s.cur = some id from h] at hcur
    cases hcur
  · exact (hI.not_direct hcur (hv.completed.symm.trans hc) hst hp).elim
  · rw [show ({ s with vcpu := v } : ExitState).stage = .guest run from hs]
    exact trivial

theorem ReplyInv.start (hI : ReplyInv s) (hs : s.stage = .guest run) (hcur : s.cur = none) (hv : SameMmio s.vcpu v)
    (hregs : i.regs = kvmGetRegs v.toKvmVcpu) : ReplyInv { s.setInst id i with vcpu := v, cur := some id } := by
  refine ⟨hI.taken, fun id' h => ?_, fun hc hst id' hp => ?_, ?_⟩
  · cases h
    exact ⟨i, setInst_self .., hregs⟩
  · exact (hI.not_direct hcur (hv.completed.symm.trans hc) hst hp).elim
  · rw [show ({ s.setInst id i with vcpu := v, cur := some id } : ExitState).stage = .guest run from hs]
    exact trivial

theorem ReplyInv.leave (hI : ReplyInv s) (hs : s.stage = .guest run) :
    ReplyInv { s with vcpu := v, cur := none, stayed := false } := by
  refine ⟨hI.taken, fun id h => (by cases h), fun _ h => (by cases h), ?_⟩
  rw [show ({ s with vcpu := v, cur := none, stayed := false } : ExitState).stage = .guest run from hs]
  exact trivial

theorem ReplyInv.resume (hI : ReplyInv s) (hs : s.stage = .guest run) (hcur : s.cur = none) (hv : SameMmio s.vcpu v)
    (hid : s.insts id = some i) (hregs : kvmGetRegs v.toKvmVcpu = i.regs) :
    ReplyInv { s with vcpu := v, cur := some id } := by
  refine ⟨hI.taken, fun id' h => ?_, fun hc hst id' hp => ?_, ?_⟩
  · cases h
    exact ⟨i, hid, hregs.symm⟩
  · exact (hI.not_direct hcur (hv.completed.symm.trans hc) hst hp).elim
  · rw [show ({ s with vcpu := v, cur := some id } : ExitState).stage = .guest run from hs]
    exact trivial

theorem ReplyInv.repEnd {io : IoInsn} (hI : ReplyInv s) (hs : s.stage = .guest run) (hcur : s.cur = some id)
    (hid : s.insts id = some i) (hio : i.insn = .io io) (hv : SameMmio s.vcpu v) {rip : BitVec 64} :
    ReplyInv { s.setInst id { i with cont := some rip } with vcpu := v, cur := none } := by
  refine ⟨hI.taken, fun id h => (by cases h), fun hc hst id' hp => ?_, ?_⟩
  · obtain ⟨hcur', i', op, write, device, hid', hmmio, -⟩ := hI.direct (hv.completed.symm.trans hc) hst id' hp
    cases hcur.symm.trans hcur'
    cases hid.symm.trans hid'
    rw [hio] at hmmio
    cases hmmio
  · rw [show ({ s.setInst id { i with cont := some rip } with vcpu := v, cur := none } : ExitState).stage =
      .guest run from hs]
    exact trivial

/-! ### Exits -/

theorem ReplyInv.port (hI : ReplyInv s) (hcur : s.cur = some id) (hid : s.insts id = some i)
    (hport : ∀ read write device, i.insn ≠ .mmio read write device) (hexit : run'.exit = .io ∨ run'.exit = .cpuid)
    (hio : run'.exit = .io → ∃ io : IoInsn, io.Describes run'.io) :
    ReplyInv { s with stage := .user run' (some id) } := by
  refine ⟨hI.taken, hI.current, hI.direct, fun h => ?_, fun _ => ⟨hcur.symm, id, i, hcur, hid, hport⟩,
    hio, fun id' h => ?_⟩
  · rcases hexit with he | he
    · rw [he] at h
      cases h
    · rw [he] at h
      cases h
  · cases h
    exact ⟨i, hid⟩

theorem ReplyInv.plain {e : RunExit} (hI : ReplyInv s) (he : e = .eintr ∨ e = .debug ∨ e = .hlt ∨ e = .other) :
    ReplyInv { s with stage := .user { run with exit := e } none } := by
  refine ⟨hI.taken, hI.current, hI.direct, fun h => ?_, fun h => ?_, fun h => ?_, nofun⟩
  · rw [show e = .mmio from h] at he
    simp at he
  · rcases h with h | h
    · rw [show e = .io from h] at he
      simp at he
    · rw [show e = .cpuid from h] at he
      simp at he
  · rw [show e = .io from h] at he
    simp at he

/-! ### The emulator -/

variable {read write : Option MemOperand} {device : Bool}

theorem ReplyInv.ask (hI : ReplyInv s) (hcur : s.cur = some id) (hid : s.insts id = some i)
    (hinsn : i.insn = .mmio read write device) (he : Accesses s.vcpu read write (.error .unhandleable, v)) :
    ReplyInv { s with
      vcpu := v, stage := .user { run with exit := .mmio, mmio := v.request } (some id)
      asked := (v.mmioPhysAddr, v.mmioSize) } := by
  cases he with
  | @ask op _ hread hcompleted hw =>
    subst hread hw
    refine ⟨hI.taken, hI.current, fun hc => ?_, fun _ _ => ?_, fun h => ?_, nofun, fun id' h => ?_⟩
    · exact absurd (hcompleted.symm.trans hc) Bool.false_ne_true
    · exact ⟨id, hcur, i, op, write, device, hid, hinsn, rfl⟩
    · rcases h with h | h
      · cases h
      · cases h
    · cases h
      exact ⟨i, hid⟩

/-- A value that an instruction takes is the one that it has asked for. -/
theorem ReplyInv.takeReply (hI : ReplyInv s) (hcur : s.cur = some id) (hid : s.insts id = some i)
    (hinsn : i.insn = .mmio read write device) (hkeeps : s.Direct .emulate) :
    ∀ p ∈ (s.takeReply read).taken, p.1 = p.2 := by
  unfold ExitState.takeReply
  cases read with
  | none => exact hI.taken
  | some op =>
    dsimp only
    split
    · rename_i hc
      obtain ⟨hp, hst⟩ := hkeeps id i (some op) write device hcur hid hinsn hc rfl
      obtain ⟨-, i', op', write', device', hid', hmmio, hasked⟩ := hI.direct hc hst id hp
      cases hid.symm.trans hid'
      cases hinsn.symm.trans hmmio
      intro p hp
      rcases List.mem_append.1 hp with hold | hnew
      · exact hI.taken p hold
      · cases List.mem_singleton.1 hnew
        exact hasked
    · exact hI.taken

/-- After an instruction that reads, or one that does not ask, no value waits. -/
theorem ReplyInv.after (hI : ReplyInv s) (hcur : s.cur = some id) (hid : s.insts id = some i)
    (hinsn : i.insn = .mmio read write device) (hw : AfterRead s.vcpu v read)
    (hc : v.mmioReadCompleted = true) (hst : (s.takeReply read).stayed = true) {id' : Nat}
    (hp : (s.takeReply read).parked = some id') : False := by
  rw [hw.completed, Bool.and_eq_true] at hc
  cases read with
  | some op => exact absurd hc.2 Bool.false_ne_true
  | none =>
    obtain ⟨hcur', i', op', write', device', hid', hmmio, -⟩ := hI.direct hc.1 hst id' hp
    cases hcur.symm.trans hcur'
    cases hid.symm.trans hid'
    cases hinsn.symm.trans hmmio

theorem takeReply_cur (s : ExitState) (read : Option MemOperand) :
    (s.takeReply read).cur = s.cur ∧ (s.takeReply read).stage = s.stage ∧ (s.takeReply read).stayed = s.stayed := by
  unfold ExitState.takeReply
  split
  · split
    · exact ⟨rfl, rfl, rfl⟩
    · exact ⟨rfl, rfl, rfl⟩
  · exact ⟨rfl, rfl, rfl⟩

theorem ReplyInv.fault (hI : ReplyInv s) (hs : s.stage = .guest run) (hcur : s.cur = some id) (hid : s.insts id = some i)
    (hinsn : i.insn = .mmio read write device) (hkeeps : s.Direct .emulate)
    (he : Accesses s.vcpu read write (.error .propagateFault, v)) : ReplyInv { s.takeReply read with vcpu := v } := by
  obtain ⟨hcur', hstage, -⟩ := takeReply_cur s read
  cases he with
  | fault hw hwrite =>
    refine ⟨hI.takeReply hcur hid hinsn hkeeps, fun id' h => ?_, fun hc hst id' hp => ?_, ?_⟩
    · rw [show kvmGetRegs v.toKvmVcpu = _ from congrArg kvmGetRegs hw.kvmVcpu]
      dsimp only
      rw [takeReply_insts]
      exact hI.current id' (hcur'.symm.trans h)
    · exact (hI.after hcur hid hinsn hw hc hst hp).elim
    · rw [show ({ s.takeReply read with vcpu := v } : ExitState).stage = .guest run from hstage.trans hs]
      exact trivial

theorem ReplyInv.commit (hI : ReplyInv s) (hcur : s.cur = some id) (hid : s.insts id = some i)
    (hinsn : i.insn = .mmio read write device) (hkeeps : s.Direct .emulate)
    (he : Accesses s.vcpu read write (.ok (), v)) (hv : SameMmio v w) {rip : BitVec 64} :
    ReplyInv { (s.takeReply read).setInst id { i with cont := some rip } with
      vcpu := w, cur := none
      stage := if v.mmioIsWrite then .user { run with exit := .mmio, mmio := v.request } (some id)
        else .guest run } := by
  cases he with
  | commit hw hisWrite hsize =>
    refine ⟨hI.takeReply hcur hid hinsn hkeeps, fun id h => (by cases h), fun hc hst id' hp => ?_, ?_⟩
    · exact (hI.after hcur hid hinsn hw (hv.completed.symm.trans hc) hst hp).elim
    · cases hwrite : v.mmioIsWrite with
      | true =>
        refine ⟨fun _ h => ?_, fun h => ?_, nofun, fun id' h => ?_⟩
        · rw [show v.request.isWrite = true from hwrite] at h
          cases h
        · rcases h with h | h
          · cases h
          · cases h
        · cases h
          exact ⟨_, setInst_self ..⟩
      | false => exact trivial

/-! ### The callbacks -/

section Handle

open Libkvm (Handled)

variable {cb : Callbacks} {h : Handled} {owner : Option Nat}

/-- The state after the handling of an exit: only the record of its instruction has changed. -/
theorem handled_cases (s : ExitState) (owner : Option Nat) (h : Handled) (howner : ∀ id, owner = some id → ∃ i, s.insts id = some i) :
    (owner = none ∧ s.handled owner h = { s with vcpu := h.vcpu, stage := .enter (nextRun h) }) ∨
    ∃ id i, owner = some id ∧ s.insts id = some i ∧ s.handled owner h =
      { s.setInst id (i.served (s.cur = some id) h) with vcpu := h.vcpu, stage := .enter (nextRun h) } := by
  cases owner with
  | none => exact Or.inl ⟨rfl, rfl⟩
  | some id =>
    obtain ⟨i, hid⟩ := howner id rfl
    exact Or.inr ⟨id, i, rfl, hid, handled_eq hid⟩

theorem handled_fields (s : ExitState) (owner : Option Nat) (h : Handled)
    (howner : ∀ id, owner = some id → ∃ i, s.insts id = some i) :
    (s.handled owner h).taken = s.taken ∧ (s.handled owner h).cur = s.cur ∧ (s.handled owner h).parked = s.parked ∧
      (s.handled owner h).stayed = s.stayed ∧ (s.handled owner h).asked = s.asked ∧
      (s.handled owner h).vcpu = h.vcpu ∧ (s.handled owner h).stage = .enter (nextRun h) := by
  rcases handled_cases s owner h howner with ⟨-, heq⟩ | ⟨id, i, -, -, heq⟩
  · rw [heq]
    exact ⟨rfl, rfl, rfl, rfl, rfl, rfl, rfl⟩
  · rw [heq]
    exact ⟨rfl, rfl, rfl, rfl, rfl, rfl, rfl⟩

theorem ExitState.Asks.handled (hasks : s.Asks id) (howner : ∀ id, owner = some id → ∃ i, s.insts id = some i)
    (hvcpu : h.vcpu = s.vcpu) : (s.handled owner h).Asks id := by
  rcases handled_cases s owner h howner with ⟨-, heq⟩ | ⟨id', i, -, hid, heq⟩
  · rw [heq]
    exact hasks.same rfl rfl fun addr => by rw [hvcpu]
  · rw [heq]
    exact hasks.setInst (j := i.served (s.cur = some id') h) hid rfl rfl rfl fun addr => by rw [hvcpu]

/-- An exit that leaves the vcpu as it is. -/
theorem ReplyInv.handle_same (hI : ReplyInv s) (hs : s.stage = .user run owner) (hvcpu : h.vcpu = s.vcpu)
    (he : h.run.emulated = false) (hm : h.run.mmioCompleted = true → run.exit = .mmio ∧ run.mmio.isWrite = false) :
    ReplyInv (s.handled owner h) := by
  have hstage := hI.stage
  rw [hs] at hstage
  obtain ⟨hmmio, -, -, howner⟩ := hstage
  obtain ⟨htaken, hcur, hparked, hstayed, -, hv, hst⟩ := handled_fields s owner h howner
  refine ⟨by rw [htaken]; exact hI.taken, fun id hid => ?_, fun hc hs' id hp => ?_, ?_⟩
  · obtain ⟨i, hi, hregs⟩ := hI.current id (hcur ▸ hid)
    rw [hv, hvcpu]
    rcases handled_cases s owner h howner with ⟨-, heq⟩ | ⟨id', i', -, hi', heq⟩
    · rw [heq]
      exact ⟨i, hi, hregs⟩
    · rw [heq]
      by_cases hne : id = id'
      · subst hne
        refine ⟨_, setInst_self .., ?_⟩
        unfold Instance.served
        dsimp only
        rw [if_pos (hcur.symm.trans hid), hvcpu]
      · exact ⟨i, (setInst_of_ne _ _ hne).trans hi, hregs⟩
  · rw [hv, hvcpu] at hc
    rw [hstayed] at hs'
    rw [hparked] at hp
    obtain ⟨hc', hasks⟩ := hI.direct hc hs' id hp
    exact ⟨hcur.trans hc', hasks.handled howner hvcpu⟩
  · rw [hst]
    refine ⟨fun hn => ?_, fun hn => ?_⟩
    · have hret : h.ret = 0 := by
        by_contra hret
        rw [(nextRun_end hret).2] at hn
        cases hn
      rw [nextRun_ret hret] at hn
      obtain ⟨hexit, hwrite⟩ := hm hn
      obtain ⟨id, hc', hasks⟩ := hmmio hexit hwrite
      exact ⟨id, hcur.trans hc', hasks.handled howner hvcpu⟩
    · unfold nextRun at hn
      split at hn
      · rw [he] at hn
        cases hn
      · cases hn

/-- The exit of an instruction at a port. -/
theorem ReplyInv.handle_port (hI : ReplyInv s) (hs : s.stage = .user run owner)
    (hexit : run.exit = .io ∨ run.exit = .cpuid) (hcompleted : h.vcpu.mmioReadCompleted = s.vcpu.mmioReadCompleted)
    (hm : h.run.mmioCompleted = false) : ReplyInv (s.handled owner h) := by
  have hstage := hI.stage
  rw [hs] at hstage
  obtain ⟨-, hport, -, howner⟩ := hstage
  obtain ⟨rfl, hatport⟩ := hport hexit
  obtain ⟨htaken, hcur, hparked, hstayed, -, hv, hst⟩ := handled_fields s s.cur h howner
  obtain ⟨id, i, hc, hid, hinsn⟩ := hatport
  have heq : s.handled s.cur h =
      { s.setInst id (i.served (s.cur = some id) h) with vcpu := h.vcpu, stage := .enter (nextRun h) } := by
    rw [hc, handled_eq hid, hc]
  refine ⟨by rw [htaken]; exact hI.taken, fun id' hid' => ?_, fun hc' hs' id' hp => ?_, ?_⟩
  · cases hc.symm.trans (hcur.symm.trans hid')
    rw [heq]
    refine ⟨_, setInst_self .., ?_⟩
    unfold Instance.served
    dsimp only
    rw [if_pos hc]
  · rw [hv, hcompleted] at hc'
    obtain ⟨hcur', hasks⟩ := hI.direct hc' (hstayed ▸ hs') id' (hparked ▸ hp)
    exact (ExitState.AtPort.not_asks ⟨id, i, hc, hid, hinsn⟩ hcur' hasks).elim
  · rw [hst]
    refine ⟨fun hn => ?_, fun _ => ?_⟩
    · unfold nextRun at hn
      split at hn
      · rw [hm] at hn
        cases hn
      · cases hn
    · rw [heq]
      exact ⟨id, _, hc, setInst_self .., hinsn⟩

theorem ReplyInv.handle (hI : ReplyInv s) (hs : s.stage = .user run owner)
    (hh : Libkvm.handleExit cb s.vcpu run = some h) : ReplyInv (s.handled owner h) := by
  have hstage := hI.stage
  rw [hs] at hstage
  have hplain : (run.exit = .eintr ∨ run.exit = .debug ∨ run.exit = .hlt ∨ run.exit = .other) →
      ReplyInv (s.handled owner h) := by
    intro hexit
    obtain ⟨hvcpu, he, hm⟩ := Libkvm.handleExit_plain_spec hexit hh
    exact hI.handle_same hs hvcpu he fun h => absurd (hm.symm.trans h) Bool.false_ne_true
  cases hexit : run.exit with
  | eintr => exact hplain (Or.inl hexit)
  | debug => exact hplain (Or.inr (Or.inl hexit))
  | hlt => exact hplain (Or.inr (Or.inr (Or.inl hexit)))
  | other => exact hplain (Or.inr (Or.inr (Or.inr hexit)))
  | mmio =>
    have hleft := Libkvm.handleExit_mmio_spec hexit hh
    refine hI.handle_same hs hleft.vcpu hleft.emulated fun hm => ⟨hexit, ?_⟩
    rw [hleft.mmioCompleted] at hm
    simpa using hm
  | io =>
    obtain ⟨io, hio⟩ := hstage.2.2.1 hexit
    obtain ⟨k, y, hleft⟩ := Libkvm.handleExit_io_spec hexit hio hh
    obtain ⟨mem, hvcpu⟩ := hleft.vcpu
    exact hI.handle_port hs (Or.inl hexit) (by rw [hvcpu]) hleft.mmioCompleted
  | cpuid =>
    obtain ⟨hleft, -⟩ := Libkvm.handleExit_cpuid_spec hexit hh
    exact hI.handle_port hs (Or.inr hexit) hleft.completed hleft.mmioCompleted

end Handle

end Steps

/-! ### Runs -/

theorem replyInv_initial {s : ExitState} (h : s.Initial) : ReplyInv s := by
  refine ⟨by rw [h.taken]; exact nofun, fun id hcur => ?_, fun hc => ?_, ?_⟩
  · rw [h.cur] at hcur
    cases hcur
  · exact absurd (h.completed.symm.trans hc) Bool.false_ne_true
  · rw [h.stage]
    exact ⟨nofun, nofun⟩

theorem ReplyInv.step {s t : ExitState} {e : ExitEvent} (hI : ReplyInv s) (hkeeps : s.Direct e) (h : ExitStep s e t) :
    ReplyInv t := by
  cases h with
  | run hs => exact hI.beginRun hs
  | quiet hs hv => exact hI.quiet hs hv
  | other hs hcur hv => exact hI.other hs hcur hv
  | start hs hcur hv hid hstart hregs heffects hexits hcont => exact hI.start hs hcur hv (hregs.trans hstart)
  | leave hs hv => exact hI.leave hs
  | resume hs hcur hv hid hcont hregs => exact hI.resume hs hcur hv hid hregs
  | repEnd hs hcur hid hio hrep hcount hv hrip => exact hI.repEnd hs hcur hid hio hv
  | io hs hcur hid hio hcount hexit hof =>
    exact hI.port hcur hid (fun _ _ _ h => by rw [hio] at h; cases h) (Or.inl hof.exit) fun _ => ⟨_, hof.describes⟩
  | cpuid hs hcur hid hinsn hlen =>
    exact hI.port hcur hid (fun _ _ _ h => by rw [hinsn] at h; cases h) (Or.inr rfl) nofun
  | plain hs he => exact hI.plain he
  | ask hs hcur hid hinsn hdevice he => exact hI.ask hcur hid hinsn (he ▸ emulateAccesses_spec ..)
  | fault hs hcur hid hinsn he => exact hI.fault hs hcur hid hinsn hkeeps (he ▸ emulateAccesses_spec ..)
  | commit hs hcur hid hinsn hdevice he hv hrip =>
    exact hI.commit hcur hid hinsn hkeeps (he ▸ emulateAccesses_spec ..) hv
  | handle hs hh => exact hI.handle hs hh

theorem ReplyInv.run {s t : ExitState} (hI : ReplyInv s) (h : ReflTransGen (fun s t => ∃ e, s.Direct e ∧ ExitStep s e t) s t) :
    ReplyInv t := by
  induction h with
  | refl => exact hI
  | tail _ hstep ih =>
    obtain ⟨e, hkeeps, hstep⟩ := hstep
    exact ih.step hkeeps hstep

/-- In the runs from a state, the address and the size that a read has taken a value for are those of the exit whose
answer it was. -/
def ExitState.RepliesDelivered (s : ExitState) (step : ExitState → ExitState → Prop) : Prop :=
  s.Initial → ∀ t, ReflTransGen step s t → ∀ p ∈ t.taken, p.1 = p.2

/-- **Replies reach the read they answer**. -/
def RepliesDelivered (step : ExitState → ExitState → Prop) : Prop := ∀ s : ExitState, s.RepliesDelivered step

/-- Every value reaches the read it answers in the runs in which it is read for the instruction that has asked, before the
guest executes anything else. -/
theorem replies_delivered (s : ExitState) : s.RepliesDelivered fun s t => ∃ e, s.Direct e ∧ ExitStep s e t := by
  intro hinit t hrun
  exact ((replyInv_initial hinit).run hrun).taken

theorem one_byte : (1 : Nat) = 1 ∨ (1 : Nat) = 2 ∨ (1 : Nat) = 4 ∨ (1 : Nat) = 8 := Or.inl rfl

def byteAt (addr : BitVec 64) : MemOperand := ⟨addr, 1, one_byte⟩

/-- A read of a byte of device memory. -/
def readInstance (v : MmioVcpu) (addr : BitVec 64) : Instance :=
  ⟨.mmio (some (byteAt addr)) none true, 2, kvmGetRegs v.toKvmVcpu, kvmGetRegs v.toKvmVcpu, [], 0, none, two_ne_zero⟩

def quietCallbacks : Callbacks := ⟨fun _ _ => ⟨0, 0, fun _ => 0⟩, 0, 0, 0⟩

/-- An interrupt is delivered after the answer, and its handler reads at another address. -/
theorem reply_misdelivered : ¬RepliesDelivered fun s t => ∃ e, ExitStep s e t := by
  intro hall
  let s0 : ExitState := ⟨cpuidVcpu, .enter .fresh, fun _ => none, none, none, false, (0, 0), []⟩
  let s1 := s0.beginRun .fresh
  let s2 : ExitState := { s1.setInst 0 (readInstance s1.vcpu 0x1000) with cur := some 0 }
  let v2 := (emulateAccesses 0 s2.vcpu (some (byteAt 0x1000)) none 0).2
  let asked : RunStruct := { RunStruct.fresh with exit := .mmio, mmio := v2.request }
  let s3 : ExitState := { s2 with
    vcpu := v2, stage := .user asked (some 0), asked := (v2.mmioPhysAddr, v2.mmioSize) }
  let h := Libkvm.handleMmio quietCallbacks s3.vcpu asked.cleared
  let s4 := s3.handled (some 0) h
  let s5 := s4.beginRun h.run
  let s6 : ExitState := { s5 with cur := none, stayed := false }
  let s7 : ExitState := { s6.setInst 1 (readInstance s6.vcpu 0x2000) with cur := some 1 }
  let v7 := (emulateAccesses 0 s7.vcpu (some (byteAt 0x2000)) none 0).2
  let w7 := v7.setVcpu (v7.setVmcs (vmcsWritel v7.vmcs .guestRip 2))
  let s8 : ExitState := { (s7.takeReply (some (byteAt 0x2000))).setInst 1
    { readInstance s6.vcpu 0x2000 with cont := some (vmcsReadl w7.vmcs .guestRip) } with
      vcpu := w7, cur := none
      stage := if v7.mmioIsWrite then .user { h.run with exit := .mmio, mmio := v7.request } (some 1) else .guest h.run }
  have h1 : ExitStep s0 .run s1 := .run rfl
  have h2 : ExitStep s1 .guest s2 := .start rfl rfl ⟨rfl, rfl, rfl⟩ rfl rfl rfl rfl rfl rfl
  have he3 : emulateAccesses 0 s2.vcpu (some (byteAt 0x1000)) none 0 = (.error .unhandleable, v2) := rfl
  have h3 : ExitStep s2 .emulate s3 := .ask rfl rfl rfl rfl rfl he3
  have h4 : ExitStep s3 (.handle quietCallbacks) s4 := .handle rfl rfl
  have h5 : ExitStep s4 .run s5 := .run rfl
  have h6 : ExitStep s5 .guest s6 := .leave rfl ⟨rfl, rfl, rfl⟩
  have h7 : ExitStep s6 .guest s7 := .start rfl rfl ⟨rfl, rfl, rfl⟩ rfl rfl rfl rfl rfl rfl
  have he8 : emulateAccesses 0 s7.vcpu (some (byteAt 0x2000)) none 0 = (.ok (), v7) := rfl
  have h8 : ExitStep s7 .emulate s8 := .commit rfl rfl rfl rfl nofun he8 ⟨rfl, rfl, rfl⟩ rfl
  have hrun : ReflTransGen (fun s t => ∃ e, ExitStep s e t) s0 s8 :=
    (((((((ReflTransGen.single ⟨_, h1⟩).tail ⟨_, h2⟩).tail ⟨_, h3⟩).tail ⟨_, h4⟩).tail ⟨_, h5⟩).tail ⟨_, h6⟩).tail
      ⟨_, h7⟩).tail ⟨_, h8⟩
  have htaken : s8.taken = [((0x1000, 1), (0x2000, 1))] := rfl
  have heq := hall s0 ⟨rfl, rfl, fun _ => rfl, rfl, rfl, rfl, rfl⟩ s8 hrun _ (htaken ▸ List.mem_singleton_self _)
  exact absurd heq (by decide)

end LearnKvm
