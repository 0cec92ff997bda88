import LearnKvm.Emulate.Instruction

/-!
# Emulation and unmapped addresses (`kvm_main.c`)

A callback that meets an address which the guest has not mapped returns X86EMUL_PROPAGATE_FAULT, but places no exception
in the VMCS.  The emulator returns 0 without a commit, and `emulate_instruction` takes this for success: the guest is
entered again at the same instruction.  This happens exactly if an access of the instruction is to an unmapped address
(`emulateInstruction_progresses`).
-/

namespace LearnKvm

open Calls

/-! ### Accesses to unmapped addresses -/

/-- Of the pages of an access, the first that does not lie in a slot is not mapped. -/
inductive UnmappedRead (s : Vcpu) : BitVec 64 → Nat → Prop where
  | here {addr : BitVec 64} {bytes : Nat} (hpos : 0 < bytes) (hgpa : mmuGvaToGpa s addr = unmappedGva) :
    UnmappedRead s addr bytes
  | next {addr : BitVec 64} {bytes : Nat} {memslot : Fin 4} (hgpa : mmuGvaToGpa s addr ≠ unmappedGva)
    (hslot : gfnToMemslot s.kvm (gfnOf (mmuGvaToGpa s addr)) = some memslot) (hlt : restOfPage addr < bytes)
    (hrest : UnmappedRead s (addr + BitVec.ofNat 64 (restOfPage addr)) (bytes - restOfPage addr)) :
    UnmappedRead s addr bytes

/-- The call accesses an address that the guest has not mapped.  Only the first byte of an access to device memory
counts, and none if the reply to a read is there. -/
def OpCall.Unmapped : OpCall .x86_64 → OpsState → Prop
  | .readStd addr bytes, s => UnmappedRead s.vcpu.toVcpu addr bytes
  | .readEmulated addr bytes, s =>
    s.vcpu.mmioReadCompleted = false ∧ 0 < bytes ∧ mmuGvaToGpa s.vcpu.toVcpu addr = unmappedGva
  | .writeEmulated addr _ _, s => mmuGvaToGpa s.vcpu.toVcpu addr = unmappedGva
  | .cmpxchgEmulated addr _ _ _, s => mmuGvaToGpa s.vcpu.toVcpu addr = unmappedGva
  | _, _ => False

variable {s : Vcpu}

theorem unmappedRead_iff {addr : BitVec 64} {bytes : Nat} : UnmappedRead s addr bytes ↔
    (0 < bytes ∧ mmuGvaToGpa s addr = unmappedGva) ∨
    (mmuGvaToGpa s addr ≠ unmappedGva ∧ (∃ memslot, gfnToMemslot s.kvm (gfnOf (mmuGvaToGpa s addr)) = some memslot) ∧
      restOfPage addr < bytes ∧
      UnmappedRead s (addr + BitVec.ofNat 64 (restOfPage addr)) (bytes - restOfPage addr)) := by
  constructor
  · rintro (⟨hpos, hgpa⟩ | ⟨hgpa, hslot, hlt, hrest⟩)
    · exact Or.inl ⟨hpos, hgpa⟩
    · exact Or.inr ⟨hgpa, ⟨_, hslot⟩, hlt, hrest⟩
  · rintro (⟨hpos, hgpa⟩ | ⟨hgpa, ⟨memslot, hslot⟩, hlt, hrest⟩)
    · exact .here hpos hgpa
    · exact .next hgpa hslot hlt hrest

theorem readStdLoop_zero (rounds : Nat) (addr : BitVec 64) : readStdLoop s rounds addr 0 = .ok 0 := by
  cases rounds with
  | zero => rfl
  | succ rounds => rfl

theorem readStdLoop_unmapped {rounds : Nat} {addr : BitVec 64} {bytes : Nat} (hrounds : bytes ≤ rounds) :
    readStdLoop s rounds addr bytes = .error .propagateFault ↔ UnmappedRead s addr bytes := by
  induction rounds generalizing addr bytes with
  | zero =>
    have h0 : bytes = 0 := by omega
    subst h0
    rw [readStdLoop_zero, unmappedRead_iff]
    simp
  | succ rounds ih =>
    have hpos := restOfPage_pos addr
    by_cases h0 : bytes = 0
    · subst h0
      rw [readStdLoop_zero, unmappedRead_iff]
      simp
    unfold readStdLoop
    dsimp only
    rw [if_neg h0, unmappedRead_iff]
    by_cases hgpa : mmuGvaToGpa s addr = unmappedGva
    · simp [hgpa, Nat.pos_of_ne_zero h0]
    rw [if_neg hgpa]
    cases hslot : gfnToMemslot s.kvm (gfnOf (mmuGvaToGpa s addr)) with
    | none => simp [hgpa]
    | some memslot =>
      by_cases hlt : restOfPage addr < bytes
      · -- the access goes on in the next page
        rw [Nat.min_eq_right (by omega), ← ih (by omega)]
        dsimp only
        cases readStdLoop s rounds (addr + BitVec.ofNat 64 (restOfPage addr)) (bytes - restOfPage addr) with
        | ok rest => simp [hgpa]
        | error rc => simp [hgpa, hlt]
      · rw [Nat.min_eq_left (by omega), Nat.sub_self, readStdLoop_zero]
        simp [hgpa, hlt]

theorem emulatorReadStd_unmapped {addr val : BitVec 64} {bytes : Nat} :
    emulatorReadStd s addr val bytes = .error .propagateFault ↔ UnmappedRead s addr bytes := by
  rw [← readStdLoop_unmapped le_rfl]
  unfold emulatorReadStd
  cases readStdLoop s bytes addr bytes with
  | ok data => simp [Except.map]
  | error rc => simp [Except.map]

/-- Where the first byte is not mapped, nothing is read. -/
theorem emulatorReadStd_of_unmapped {addr val : BitVec 64} {bytes : Nat} (hpos : 0 < bytes)
    (hgpa : mmuGvaToGpa s addr = unmappedGva) : emulatorReadStd s addr val bytes = .error .propagateFault :=
  emulatorReadStd_unmapped.2 (.here hpos hgpa)

theorem emulatorReadEmulated_unmapped {s : MmioVcpu} {addr val : BitVec 64} {bytes : Nat} :
    (emulatorReadEmulated s addr val bytes).1 = .error .propagateFault ↔
      s.mmioReadCompleted = false ∧ 0 < bytes ∧ mmuGvaToGpa s.toVcpu addr = unmappedGva := by
  unfold emulatorReadEmulated
  cases hc : s.mmioReadCompleted with
  | true => simp
  | false =>
    by_cases h : 0 < bytes ∧ mmuGvaToGpa s.toVcpu addr = unmappedGva
    · simp [emulatorReadStd_of_unmapped h.1 h.2, h]
    · cases hr : emulatorReadStd s.toVcpu addr val bytes with
      | ok val => simpa using h
      | error rc =>
        have hpos : 0 < bytes := by
          by_contra h0
          have h0 : bytes = 0 := by omega
          subst h0
          cases hr
        have hgpa : mmuGvaToGpa s.toVcpu addr ≠ unmappedGva := fun hgpa => h ⟨hpos, hgpa⟩
        simp [hgpa]

theorem emulatorWriteEmulated_unmapped {s : MmioVcpu} {addr val : BitVec 64} {bytes : Nat} :
    (emulatorWriteEmulated s addr val bytes).1 = .error .propagateFault ↔ mmuGvaToGpa s.toVcpu addr = unmappedGva := by
  unfold emulatorWriteEmulated
  by_cases hgpa : mmuGvaToGpa s.toVcpu addr = unmappedGva
  · simp [hgpa]
  · simp [hgpa]

/-- A callback propagates a fault exactly for an access to an unmapped address. -/
theorem refusal_unmapped (stale : OpCall .x86_64 → BitVec 64) (c : OpCall .x86_64) (s : OpsState) :
    c.refusal (emulateOps stale c s).1 = some (.done .propagateFault) ↔ c.Unmapped s := by
  cases c with
  | readStd addr bytes => exact errorOf_eq.trans emulatorReadStd_unmapped
  | writeStd addr val bytes => exact ⟨fun h => (by cases h), fun h => h.elim⟩
  | readEmulated addr bytes => exact errorOf_eq.trans emulatorReadEmulated_unmapped
  | writeEmulated addr val bytes => exact errorOf_eq.trans emulatorWriteEmulated_unmapped
  | cmpxchgEmulated addr old new bytes => exact errorOf_eq.trans emulatorWriteEmulated_unmapped
  | cmpxchg8bEmulated addr oldLo oldHi newLo newHi => exact ⟨fun h => (by cases h), fun h => h.elim⟩
  | realmodeLgdt limit base => exact ⟨fun h => (by cases h), fun h => h.elim⟩
  | realmodeLidt limit base => exact ⟨fun h => (by cases h), fun h => h.elim⟩
  | realmodeLmsw msw rflags => exact ⟨fun h => (by cases h), fun h => h.elim⟩
  | realmodeGetCr cr => exact ⟨fun h => (by cases h), fun h => h.elim⟩
  | realmodeSetCr cr val rflags => exact ⟨fun h => (by cases h), fun h => h.elim⟩

/-! ### What the calls leave alone -/

/-- What calls without effect keep. -/
structure OpsKept (s t : OpsState) : Prop where
  kvmVcpu : t.vcpu.toKvmVcpu = s.vcpu.toKvmVcpu
  isWrite : s.vcpu.mmioIsWrite = false → t.vcpu.mmioIsWrite = false
  oops : t.oops = s.oops

theorem OpsKept.refl (s : OpsState) : OpsKept s s := ⟨rfl, fun h => h, rfl⟩

theorem OpsKept.trans {s t u : OpsState} (h1 : OpsKept s t) (h2 : OpsKept t u) : OpsKept s u :=
  ⟨h2.kvmVcpu.trans h1.kvmVcpu, fun h => h2.isWrite (h1.isWrite h), h2.oops.trans h1.oops⟩

theorem emulatorReadEmulated_kept (s : OpsState) (addr val : BitVec 64) (bytes : Nat) :
    OpsKept s (s.reply (emulatorReadEmulated s.vcpu addr val bytes)).2 := by
  unfold emulatorReadEmulated OpsState.reply
  split
  · exact ⟨rfl, fun h => h, rfl⟩
  · split
    · exact ⟨rfl, fun h => h, rfl⟩
    · dsimp only
      split
      · exact ⟨rfl, fun h => h, rfl⟩
      · exact ⟨rfl, fun _ => rfl, rfl⟩

theorem emulatorWriteEmulated_kept {s : OpsState} {addr val : BitVec 64} {bytes : Nat} {e : Exit .x86_64}
    (he : errorOf (emulatorWriteEmulated s.vcpu addr val bytes).1 = some e) :
    OpsKept s (s.reply (emulatorWriteEmulated s.vcpu addr val bytes)).2 := by
  unfold emulatorWriteEmulated at he ⊢
  by_cases hgpa : mmuGvaToGpa s.vcpu.toVcpu addr = unmappedGva
  · simp only [if_pos hgpa]
    exact OpsKept.refl s
  · simp only [if_neg hgpa] at he
    cases he

theorem emulateOps_kept (stale : OpCall .x86_64 → BitVec 64) (c : OpCall .x86_64) (s : OpsState)
    (hn : ¬ Event.Effect OpCall.refusal (fun c => c.hasEffect = true) ⟨c, (emulateOps stale c s).1⟩) :
    OpsKept s (emulateOps stale c s).2 := by
  have refused : c.hasEffect = true → ∃ e, c.refusal (emulateOps stale c s).1 = some e := fun hc =>
    Option.ne_none_iff_exists'.1 fun hr => hn ⟨hc, hr⟩
  cases c with
  | readStd addr bytes => exact OpsKept.refl s
  | writeStd addr val bytes => exact OpsKept.refl s
  | readEmulated addr bytes => exact emulatorReadEmulated_kept s _ _ _
  | writeEmulated addr val bytes =>
    obtain ⟨e, he⟩ := refused rfl
    exact emulatorWriteEmulated_kept he
  | cmpxchgEmulated addr old new bytes =>
    obtain ⟨e, he⟩ := refused rfl
    exact emulatorWriteEmulated_kept he
  | cmpxchg8bEmulated addr oldLo oldHi newLo newHi => exact OpsKept.refl s
  | realmodeLgdt limit base => exact absurd ⟨rfl, rfl⟩ hn
  | realmodeLidt limit base => exact absurd ⟨rfl, rfl⟩ hn
  | realmodeLmsw msw rflags => exact absurd ⟨rfl, rfl⟩ hn
  | realmodeGetCr cr => exact OpsKept.refl s
  | realmodeSetCr cr val rflags => exact absurd ⟨rfl, rfl⟩ hn

/-! ### Progress -/

variable (stale : OpCall .x86_64 → BitVec 64) (cpu : HostCpu .x86_64)

/-- No access of the instruction is to an unmapped address. -/
def AccessesMapped (s : MmioVcpu) (cr2 : BitVec 64) : Prop :=
  (emulate cpu false (emulateCtxt (emulateVcpu s).toKvmVcpu cr2)).Visits (emulateOps stale)
    (fun c t => ¬ c.Unmapped t) ⟨emulateVcpu s, false⟩

theorem accessesMapped_iff (s : MmioVcpu) (cr2 : BitVec 64) :
    AccessesMapped stale cpu s cr2 ↔ (emulateRun stale cpu s cr2).result ≠ .error (.done .propagateFault) := by
  have hfails := (emulate_atomic cpu false (emulateCtxt (emulateVcpu s).toKvmVcpu cr2)).fails_iff (emulateOps stale)
    (fun h => h rfl) ⟨emulateVcpu s, false⟩
  have hvisits := Prog.visits_iff (emulateOps stale)
    (B := fun e => e.1.refusal e.2 = some (.done .propagateFault))
    (fun c t => not_congr (refusal_unmapped stale c t).symm)
    (emulate cpu false (emulateCtxt (emulateVcpu s).toKvmVcpu cr2)) ⟨emulateVcpu s, false⟩
  unfold AccessesMapped emulateRun
  rw [hvisits, Ne, hfails]
  push Not
  rfl

/-- The outcome of the emulator is in the registers, in RIP and in RFLAGS: that of an instruction or of an iteration of
REP, or the end of a string instruction whose count is 0. -/
def Committed (s : MmioVcpu) (cr2 : BitVec 64) (t : MmioVcpu) : Prop :=
  (∃ x, (emulateRun stale cpu s cr2).result = .ok x ∧ t.regs = (fun r => x.regs (BitVec.ofFin r)) ∧ t.rip = x.eip ∧
    vmcsReadl t.vmcs .guestRip = x.eip ∧ vmcsReadl t.vmcs .guestRflags = x.eflags) ∨
  ∃ eip, (emulateRun stale cpu s cr2).result = .error (.repDone eip) ∧ t.rip = eip ∧ vmcsReadl t.vmcs .guestRip = eip

/-- An exception for the guest has been placed in the VMCS. -/
def ExceptionPlaced (s t : Vcpu) : Prop :=
  vmcsRead32 t.vmcs .vmEntryIntrInfoField &&& intrInfoValidMask ≠ 0 ∧
    vmcsReadl t.vmcs .vmEntryIntrInfoField ≠ vmcsReadl s.vmcs .vmEntryIntrInfoField

/-- If the guest is to be entered again, its instruction has been executed, or an exception was placed. -/
def Progresses (s : MmioVcpu) (run : Option MmioRequest) (cr2 : BitVec 64) : Prop :=
  ∀ t run', emulateInstruction stale cpu s run cr2 = some (.done, t, run') →
    Committed stale cpu s cr2 t ∨ ExceptionPlaced s.toVcpu t.toVcpu

theorem putCtxt_guestRip (s : MmioVcpu) (ctxt : X86EmulateCtxt .x86_64) :
    vmcsReadl ((s.setRegs ctxt).putCtxt ctxt).vmcs .guestRip = ctxt.rip :=
  (vmcsReadl_vmcsWritel_of_ne (by decide)).trans (vmcsReadl_vmcsWritel_self ..)

theorem putCtxt_guestRflags (s : MmioVcpu) (ctxt : X86EmulateCtxt .x86_64) :
    vmcsReadl ((s.setRegs ctxt).putCtxt ctxt).vmcs .guestRflags = ctxt.eflags :=
  vmcsReadl_vmcsWritel_self ..

theorem putCtxt_intrInfo (s : MmioVcpu) (ctxt : X86EmulateCtxt .x86_64) :
    vmcsReadl ((s.setRegs ctxt).putCtxt ctxt).vmcs .vmEntryIntrInfoField = vmcsReadl s.vmcs .vmEntryIntrInfoField :=
  (vmcsReadl_vmcsWritel_of_ne (by decide)).trans
    ((vmcsReadl_vmcsWritel_of_ne (by decide)).trans (vmcsReadl_vmcsWritel_of_ne (by decide)))

variable {stale cpu} {s : MmioVcpu} {run : Option MmioRequest} {cr2 : BitVec 64}

/-- The case that the emulator returns 0. -/
theorem emulateInstruction_done {t : MmioVcpu} {run' : Option MmioRequest}
    (h : emulateInstruction stale cpu s run cr2 = some (.done, t, run')) :
    let r := (emulateCtxt (emulateVcpu s).toKvmVcpu cr2).finish (emulateRun stale cpu s cr2).result
    r.1 = 0 ∧ t = ((emulateRun stale cpu s cr2).state.vcpu.setRegs r.2).putCtxt r.2 := by
  intro r
  unfold emulateInstruction at h
  dsimp only at h
  split at h
  · cases h
  · by_cases hr : r.1 = 0
    · refine ⟨hr, ?_⟩
      rw [if_neg (not_not.2 hr)] at h
      simp only [Option.some.injEq, Prod.mk.injEq] at h
      exact h.2.1.symm
    · rw [if_pos hr] at h
      split at h <;> cases h

theorem committed_of_done {t : MmioVcpu} {run' : Option MmioRequest}
    (h : emulateInstruction stale cpu s run cr2 = some (.done, t, run'))
    (hr : (emulateRun stale cpu s cr2).result ≠ .error (.done .propagateFault)) : Committed stale cpu s cr2 t := by
  obtain ⟨h0, ht⟩ := emulateInstruction_done h
  subst ht
  cases hres : (emulateRun stale cpu s cr2).result with
  | ok x =>
    exact Or.inl ⟨x, hres, rfl, rfl, putCtxt_guestRip _ _, putCtxt_guestRflags _ _⟩
  | error e =>
    rw [hres] at h0 hr
    cases e with
    | done rc =>
      cases rc with
      | unhandleable => cases h0
      | propagateFault => exact absurd rfl hr
    | cannotEmulate => cases h0
    | repDone eip => exact Or.inr ⟨eip, hres, rfl, putCtxt_guestRip _ _⟩

/-- A call that fails has changed nothing but the fields of an access to device memory. -/
theorem emulateRun_kept {e : Exit .x86_64} (hr : (emulateRun stale cpu s cr2).result = .error e) :
    OpsKept ⟨emulateVcpu s, false⟩ (emulateRun stale cpu s cr2).state := by
  have hno := ((emulate_atomic cpu false (emulateCtxt (emulateVcpu s).toKvmVcpu cr2)).run (emulateOps stale)
    ⟨emulateVcpu s, false⟩).2 e hr
  exact Prog.run_keeps (emulateOps stale) (fun c u hn hu => hu.trans (emulateOps_kept stale c u hn)) hno.2 (.refl _)

/-- With a fault propagated the guest is entered again, and nothing else has happened. -/
theorem emulateInstruction_of_fault
    (hr : (emulateRun stale cpu s cr2).result = .error (.done .propagateFault)) :
    ∃ t, emulateInstruction stale cpu s run cr2 = some (.done, t, run) ∧
      vmcsReadl t.vmcs .vmEntryIntrInfoField = vmcsReadl s.vmcs .vmEntryIntrInfoField := by
  have hkept := emulateRun_kept hr
  have hwrite : (emulateRun stale cpu s cr2).state.vcpu.mmioIsWrite = false := hkept.isWrite rfl
  let ctxt := emulateCtxt (emulateVcpu s).toKvmVcpu cr2
  refine ⟨((emulateRun stale cpu s cr2).state.vcpu.setRegs ctxt).putCtxt ctxt, ?_, ?_⟩
  · unfold emulateInstruction
    dsimp only
    rw [hr, if_neg (by rw [hkept.oops]; exact Bool.false_ne_true)]
    simp [X86EmulateCtxt.finish, MmioVcpu.setRegs, hwrite, ctxt]
  · rw [putCtxt_intrInfo, hkept.kvmVcpu]
    rfl

theorem not_progresses_of_fault (hr : (emulateRun stale cpu s cr2).result = .error (.done .propagateFault)) :
    ¬ Progresses stale cpu s run cr2 := by
  intro h
  obtain ⟨t, ht, hinfo⟩ := @emulateInstruction_of_fault stale cpu s run cr2 hr
  rcases h t run ht with (⟨x, hx, -⟩ | ⟨eip, hx, -⟩) | ⟨-, hne⟩
  · rw [hr] at hx
    cases hx
  · rw [hr] at hx
    cases hx
  · exact hne hinfo

/-- **Emulation and progress**: the instruction has been executed, or an exception placed, whenever the guest is to be
entered again, exactly if no access of the instruction is to an unmapped address. -/
theorem emulateInstruction_progresses (stale : OpCall .x86_64 → BitVec 64) (cpu : HostCpu .x86_64) (s : MmioVcpu)
    (run : Option MmioRequest) (cr2 : BitVec 64) :
    Progresses stale cpu s run cr2 ↔ AccessesMapped stale cpu s cr2 := by
  rw [accessesMapped_iff]
  constructor
  · intro h hr
    exact not_progresses_of_fault hr h
  · intro hr t run' h
    exact Or.inl (committed_of_done h hr)

/-- A 32-bit guest with large pages at 0 and at 0x800000, of which only the first two small ones are memory.  Its
instruction moves a byte from 0x800000, for which the reply is there, to 0x400000. -/
def movsVcpu : MmioVcpu :=
  { (default : KvmVcpu) with
    kvm := { (default : Kvm) with
      nmemslots := 1
      memslots := fun _ => { baseGfn := 0, npages := 2, flags := 0, physMem := 1, dirtyBitmap := 0 }
      pageArray := fun _ n => BitVec.ofNat 40 (n + 1) }
    vmcs := fun field => match field with
      | .cr0ReadShadow => cr0PgMask ||| cr0PeMask
      | .cr4ReadShadow => cr4PseMask
      | .guestCsArBytes => 0x409b
      | .guestRip => 0x1000
      | _ => 0
    mmu := { ops := .paging32, rootHpa := none, rootLevel := 2, shadowRootLevel := 3 }
    mem := fun a => if a = 0x1000 ∨ a = 0x1008 then 0x83 else if a = 0x100a then 0x80 else if a = 0x2000 then 0xa4 else 0
    regs := fun r => if r = 6 then 0x800000 else if r = 7 then 0x400000 else 0
    mmioNeeded := false
    mmioReadCompleted := true
    mmioIsWrite := false
    mmioData := 0x55
    mmioSize := 1
    mmioPhysAddr := 0x800000 }

/-- A host whose arithmetic leaves everything as it was. -/
def idleCpu : HostCpu .x86_64 := ⟨fun _ _ _ dst eflags => (dst, eflags), fun _ _ dst eflags => (dst, eflags)⟩

/-- The destination is not mapped: the guest is entered again at the same instruction. -/
theorem movs_stalls : ¬ ∀ (stale : OpCall .x86_64 → BitVec 64) (cpu : HostCpu .x86_64) (s : MmioVcpu)
    (run : Option MmioRequest) (cr2 : BitVec 64), Progresses stale cpu s run cr2 := by
  intro hall
  have hfault : (emulateRun (fun _ => 0) idleCpu movsVcpu 0x800000).result = .error (.done .propagateFault) := rfl
  exact not_progresses_of_fault hfault (hall (fun _ => 0) idleCpu movsVcpu none 0x800000)

end LearnKvm
