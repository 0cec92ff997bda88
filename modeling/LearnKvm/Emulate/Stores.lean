import LearnKvm.Emulate.Progress
import LearnKvm.Emulate.Exchange
import LearnKvm.ModuleWrites

/-!
# Emulated stores (`kvm_main.c`)

`emulator_write_emulated` stores nothing: it notes one request for user space, with the guest-physical address of the
first byte.  `handle_exception` hands the request over, but for an exception in emulated real mode it passes no `kvm_run`,
and then the request is lost.  So a byte in a memory slot never gets its value.  A byte in device memory gets it only
after a page fault, and only if the frame of the first byte is also its own (`handleException_stores`).
-/

namespace LearnKvm

open Calls

/-! ### Destinations in memory -/

/-- Instructions whose memory operand is only read: cmp, test, bt and push. -/
def Insn.readsOnly {arch : Arch} (i : Insn arch) : Bool :=
  if i.twobyte then i.b = 0xa3 || i.b = 0xba && i.modrmReg &&& 3 = 0
  else
    inCase i.b 0x38 0x3d || inCase i.b 0x80 0x83 && i.modrmReg &&& 7 = 7 || inCase i.b 0x84 0x85 ||
      inCase i.b 0xf6 0xf7 && (i.modrmReg = 0 || i.modrmReg = 1) || inCase i.b 0xfe 0xff && i.modrmReg = 6

/-- A destination in memory and its value: the operand of the emulator.  `stored`: it is written back. -/
structure Destination where
  addr : BitVec 64
  bytes : Nat
  val : BitVec 64
  stored : Bool
  deriving DecidableEq

/-- A destination of an instruction, with the address at which the instruction stores. -/
structure GuestStore extends Destination where
  target : BitVec 64
  deriving DecidableEq

/-- The destination in memory of an instruction that is committed as `x`.  A cmpxchg8b has one if it succeeds. -/
def memDestination (i : Insn .x86_64) (x : Exec .x86_64) : Option Destination :=
  if i.twobyte = true ∧ i.b = 0xc7 then
    if x.flag eflgZf then
      some ⟨i.cr2, 8, (x.regs vcpuRegsRcx <<< 32) ||| lowBytes 4 (x.regs vcpuRegsRbx), true⟩
    else none
  else if i.readsOnly then none
  else
    match x.dst.ptr with
    | .mem addr => some ⟨addr, x.dst.bytes, x.dst.val, x.mov || x.dst.origVal != x.dst.val⟩
    | _ => none

/-- For stos and for mov to a displacement, the emulator takes cr2 in place of the address of the instruction. -/
def storeTarget (s : Vcpu) (ctxt : X86EmulateCtxt .x86_64) (i : Insn .x86_64) (addr : BitVec 64) : BitVec 64 :=
  if i.twobyte then addr
  else if inCase i.b 0xaa 0xab then registerAddress i.adBytes ctxt.esBase (ctxt.regs vcpuRegsRdi)
  else if inCase i.b 0xa2 0xa3 then
    let base : BitVec 64 := i.overrideBase.elim ctxt.dsBase ctxt.base
    match emulatorReadStd s (i.eip + ctxt.csBase) 0 i.adBytes with
    | .ok disp => base + disp
    | .error _ => addr
  else addr

/-! ### The request for user space -/

def byteOf (x : BitVec 64) (k : Nat) : BitVec 8 := Bits.field (8 * k) 8 x

/-- The bytes that are stored over a word. -/
theorem byteOf_setLow (old x : BitVec 64) {bytes k : Nat} (hk : k < bytes) :
    byteOf (@setLow .x86_64 bytes old x) k = byteOf x k := by
  apply Bits.field_congr
  intro i _ hi
  exact (@hasBit_setLow .x86_64 bytes old x i).trans (if_pos (by omega))

/-- The store waits for user space. -/
structure StoreQueued (s t : OpsState) (dest : Destination) : Prop where
  kvmVcpu : t.vcpu.toKvmVcpu = s.vcpu.toKvmVcpu
  oops : t.oops = s.oops
  mapped : mmuGvaToGpa s.vcpu.toVcpu dest.addr ≠ unmappedGva
  isWrite : t.vcpu.mmioIsWrite = true
  physAddr : t.vcpu.mmioPhysAddr = mmuGvaToGpa s.vcpu.toVcpu dest.addr
  size : t.vcpu.mmioSize = dest.bytes
  data : ∀ k < dest.bytes, byteOf t.vcpu.mmioData k = byteOf dest.val k

/-- What the run leaves of a destination. -/
def StoreLeft (s t : OpsState) (dest : Destination) : Prop :=
  if dest.stored then StoreQueued s t dest else OpsKept s t

variable {stale : OpCall .x86_64 → BitVec 64}

theorem StoreQueued.after {s t u : OpsState} {dest : Destination} (h1 : OpsKept s t) (h2 : StoreQueued t u dest) :
    StoreQueued s u dest := by
  have hvcpu : t.vcpu.toVcpu = s.vcpu.toVcpu := congrArg KvmVcpu.toVcpu h1.kvmVcpu
  exact ⟨h2.kvmVcpu.trans h1.kvmVcpu, h2.oops.trans h1.oops, hvcpu ▸ h2.mapped, h2.isWrite, hvcpu ▸ h2.physAddr,
    h2.size, h2.data⟩

theorem StoreLeft.after {s t u : OpsState} {dest : Destination} (h1 : OpsKept s t) (h2 : StoreLeft t u dest) :
    StoreLeft s u dest := by
  unfold StoreLeft at h2 ⊢
  split at h2
  · rename_i hs
    rw [if_pos hs]
    exact h2.after h1
  · rename_i hs
    rw [if_neg hs]
    exact h1.trans h2

theorem emulatorWriteEmulated_queued {s : OpsState} {addr val : BitVec 64} {bytes : Nat}
    (hr : (emulatorWriteEmulated s.vcpu addr val bytes).1 = .ok ()) :
    StoreQueued s (s.reply (emulatorWriteEmulated s.vcpu addr val bytes)).2 ⟨addr, bytes, val, true⟩ := by
  unfold emulatorWriteEmulated at hr ⊢
  by_cases hgpa : mmuGvaToGpa s.vcpu.toVcpu addr = unmappedGva
  · simp only [if_pos hgpa] at hr
    cases hr
  · simp only [if_neg hgpa]
    exact ⟨rfl, rfl, hgpa, rfl, rfl, rfl, fun k hk => byteOf_setLow _ _ hk⟩

/-- A store and then a value. -/
theorem writeEmulated_run {α : Type} {s : OpsState} {addr val : BitVec 64} {bytes : Nat} {a b : α}
    (hr : (((Emul.writeEmulated addr val bytes : Emul .x86_64 Unit) >>= fun _ => Prog.ret a).run (emulateOps stale)
      s).result = .ok b) :
    b = a ∧ StoreQueued s (((Emul.writeEmulated addr val bytes : Emul .x86_64 Unit) >>= fun _ => Prog.ret a).run
      (emulateOps stale) s).state ⟨addr, bytes, val, true⟩ := by
  have hqueued := @emulatorWriteEmulated_queued s addr val bytes
  change ((Emul.orDone (emulatorWriteEmulated s.vcpu addr val bytes).1 >>= fun _ => Prog.ret a : Emul .x86_64 α).run
    (emulateOps stale) (s.reply (emulatorWriteEmulated s.vcpu addr val bytes)).2).result = _ at hr
  change _ ∧ StoreQueued s ((Emul.orDone (emulatorWriteEmulated s.vcpu addr val bytes).1 >>= fun _ => Prog.ret a :
    Emul .x86_64 α).run (emulateOps stale) (s.reply (emulatorWriteEmulated s.vcpu addr val bytes)).2).state _
  cases hw : (emulatorWriteEmulated s.vcpu addr val bytes).1 with
  | ok u =>
    rw [hw] at hr
    cases hr
    exact ⟨rfl, hqueued hw⟩
  | error rc =>
    rw [hw] at hr
    cases hr

/-- An exchange leaves what a store leaves. -/
theorem cmpxchgEmulated_run {α : Type} {s : OpsState} {addr old new : BitVec 64} {bytes : Nat} {a b : α}
    (hr : (((Emul.cmpxchgEmulated addr old new bytes : Emul .x86_64 Unit) >>= fun _ => Prog.ret a).run
      (emulateOps stale) s).result = .ok b) :
    b = a ∧ StoreQueued s (((Emul.cmpxchgEmulated addr old new bytes : Emul .x86_64 Unit) >>= fun _ => Prog.ret a).run
      (emulateOps stale) s).state ⟨addr, bytes, new, true⟩ :=
  writeEmulated_run hr

theorem writeback_run {s : OpsState} {x y : Exec .x86_64} {addr : BitVec 64} (hptr : y.dst.ptr = .mem addr)
    (hr : ((writeback y).run (emulateOps stale) s).result = .ok x) :
    x = y ∧ StoreLeft s ((writeback y).run (emulateOps stale) s).state
      ⟨addr, y.dst.bytes, y.dst.val, y.mov || y.dst.origVal != y.dst.val⟩ := by
  unfold writeback at hr ⊢
  unfold StoreLeft
  by_cases hst : (y.mov || y.dst.origVal != y.dst.val) = true
  · simp only [hst, if_true, hptr] at hr ⊢
    by_cases hlock : y.lockPrefix = true
    · simp only [hlock, if_true] at hr ⊢
      exact cmpxchgEmulated_run hr
    · simp only [hlock] at hr ⊢
      exact writeEmulated_run hr
  · simp only [hst] at hr ⊢
    cases hr
    exact ⟨rfl, OpsKept.refl s⟩

/-! ### cmpxchg8b -/

/-- A read and then a program. -/
theorem readEmulated_run {α : Type} {s : OpsState} {addr : BitVec 64} {bytes : Nat} {f : BitVec 64 → Emul .x86_64 α}
    {x : α} (hr : (((Emul.readEmulated addr bytes : Emul .x86_64 _) >>= f).run (emulateOps stale) s).result = .ok x) :
    ∃ val t, OpsKept s t ∧ ((f val).run (emulateOps stale) t).result = .ok x ∧
      (((Emul.readEmulated addr bytes : Emul .x86_64 _) >>= f).run (emulateOps stale) s).state =
        ((f val).run (emulateOps stale) t).state := by
  have hkept := emulatorReadEmulated_kept s addr (stale (.readEmulated addr bytes)) bytes
  generalize hread : emulatorReadEmulated s.vcpu addr (stale (.readEmulated addr bytes)) bytes = r at hkept
  change ((Emul.orDone (emulatorReadEmulated s.vcpu addr (stale (.readEmulated addr bytes)) bytes).1 >>= f :
    Emul .x86_64 α).run (emulateOps stale)
    (s.reply (emulatorReadEmulated s.vcpu addr (stale (.readEmulated addr bytes)) bytes)).2).result = _ at hr
  change ∃ val t, OpsKept s t ∧ _ ∧ ((Emul.orDone
    (emulatorReadEmulated s.vcpu addr (stale (.readEmulated addr bytes)) bytes).1 >>= f : Emul .x86_64 α).run
    (emulateOps stale) (s.reply (emulatorReadEmulated s.vcpu addr (stale (.readEmulated addr bytes)) bytes)).2).state =
    _
  rw [hread] at hr ⊢
  cases hv : r.1 with
  | ok val =>
    rw [hv] at hr
    exact ⟨val, _, hkept, hr, rfl⟩
  | error rc =>
    rw [hv] at hr
    cases hr

/-- What a cmpxchg8b does with the old value. -/
def cmpxchg8bStore (i : Insn .x86_64) (x : Exec .x86_64) (old : ULong .x86_64) : Emul .x86_64 (Exec .x86_64) :=
  if lowBytes 4 old ≠ lowBytes 4 (x.regs vcpuRegsRax) ∨ lowBytes 4 (old >>> 32) ≠ lowBytes 4 (x.regs vcpuRegsRdx) then
    return ((x.setReg vcpuRegsRax (lowBytes 4 old)).setReg vcpuRegsRdx (lowBytes 4 (old >>> 32))).clearZf
  else do
    let new := (x.regs vcpuRegsRcx <<< 32) ||| lowBytes 4 (x.regs vcpuRegsRbx)
    Emul.cmpxchgEmulated i.cr2 old new 8
    return x.setZf

theorem cmpxchg8b_eq (i : Insn .x86_64) (x : Exec .x86_64) :
    cmpxchg8bX86_64 i x >>= writeback =
      (Emul.readEmulated i.cr2 8 : Emul .x86_64 _) >>= fun old => cmpxchg8bStore i x old >>= writeback :=
  Prog.bind_assoc (Emul.readEmulated i.cr2 8) (cmpxchg8bStore i x) writeback

/-- A cmpxchg8b that succeeds stores ECX:EBX. -/
theorem cmpxchg8bX86_64_store {s : OpsState} {ctxt : X86EmulateCtxt .x86_64} {i : Insn .x86_64} {x : Exec .x86_64}
    (hr : ((cmpxchg8bX86_64 i (specialExec ctxt i) >>= writeback).run (emulateOps stale) s).result = .ok x)
    (hz : x.flag eflgZf = true) :
    StoreLeft s ((cmpxchg8bX86_64 i (specialExec ctxt i) >>= writeback).run (emulateOps stale) s).state
      ⟨i.cr2, 8, (x.regs vcpuRegsRcx <<< 32) ||| lowBytes 4 (x.regs vcpuRegsRbx), true⟩ := by
  rw [cmpxchg8b_eq] at hr ⊢
  obtain ⟨old, t, hkept, hres, hstate⟩ := readEmulated_run hr
  rw [hstate]
  apply StoreLeft.after hkept
  unfold cmpxchg8bStore at hres ⊢
  split at hres
  · rw [Prog.pure_eq, Prog.ret_bind, writeback_imm rfl] at hres
    cases hres
    rw [clearZf_flag] at hz
    cases hz
  · rename_i hcmp
    rw [if_neg hcmp]
    rw [Prog.bind_assoc] at hres ⊢
    simp only [Prog.pure_eq, Prog.ret_bind] at hres ⊢
    rw [writeback_imm rfl] at hres ⊢
    obtain ⟨rfl, hq⟩ := cmpxchgEmulated_run hres
    exact hq

/-! ### The whole instruction -/

theorem run_kept {α : Type} {p : Emul .x86_64 α} {s : OpsState}
    (hno : ∀ e ∈ (p.run (emulateOps stale) s).trace, ¬ e.Effect OpCall.refusal fun c => c.hasEffect = true) :
    OpsKept s (p.run (emulateOps stale) s).state :=
  Prog.run_keeps (emulateOps stale) (fun c u hn hu => hu.trans (emulateOps_kept stale c u hn)) hno (.refl _)

theorem readsOnly_of_isPush {arch : Arch} {i : Insn arch} (hi : i.IsPush) : i.readsOnly = true := by
  obtain ⟨ht, hb, hreg⟩ := hi
  unfold Insn.readsOnly
  rw [if_neg (by rw [ht]; exact Bool.false_ne_true), hb, hreg]
  simp

theorem writeback_within {arch : Arch} (y : Exec arch) : (writeback y).Within (fun _ => True) fun x => x.dst = y.dst := by
  unfold writeback
  split
  · split
    · rfl
    · split
      · refine ⟨trivial, fun r => ?_⟩
        cases r with
        | ok u => rfl
        | error rc => trivial
      · refine ⟨trivial, fun r => ?_⟩
        cases r with
        | ok u => rfl
        | error rc => trivial
    · rfl
  · rfl

/-- An instruction with a destination in memory has made no effect of its own before the writeback. -/
theorem execute_run_kept (cpu : HostCpu .x86_64) (ctxt : X86EmulateCtxt .x86_64) {s : OpsState} {i : Insn .x86_64}
    {y : Exec .x86_64} {addr : BitVec 64} (hy : ((execute cpu false ctxt i).run (emulateOps stale) s).result = .ok y)
    (hreads : i.readsOnly = false) (hptr : y.dst.ptr = .mem addr) :
    OpsKept s ((execute cpu false ctxt i).run (emulateOps stale) s).state := by
  obtain ⟨-, -, hsettled⟩ := ((execute_atomic cpu false ctxt i).run (emulateOps stale) s).1 y hy
  apply run_kept
  intro e he hE
  rcases hsettled ⟨e, he, hE⟩ with hno | ⟨hpush, -⟩
  · exact hno addr hptr
  · rw [readsOnly_of_isPush hpush] at hreads
    cases hreads

variable {cpu : HostCpu .x86_64}

/-- What the run of an instruction leaves of its destination in memory. -/
theorem executeAndWriteback_store {ctxt : X86EmulateCtxt .x86_64} {s : OpsState} {i : Insn .x86_64} {x : Exec .x86_64}
    {dest : Destination}
    (hx : ((executeAndWriteback cpu false ctxt i).run (emulateOps stale) s).result = .ok x)
    (hdest : memDestination i x = some dest) :
    StoreLeft s ((executeAndWriteback cpu false ctxt i).run (emulateOps stale) s).state dest := by
  unfold memDestination at hdest
  unfold executeAndWriteback at hx ⊢
  split at hdest
  · rename_i hi
    split at hdest
    · rename_i hz
      cases hdest
      have hexec : execute cpu false ctxt i = cmpxchg8bX86_64 i (specialExec ctxt i) :=
        execute_cmpxchg8b cpu false ctxt hi.1 hi.2
      rw [hexec] at hx ⊢
      exact cmpxchg8bX86_64_store hx hz
    · cases hdest
  · split at hdest
    · cases hdest
    · rename_i hreads
      rw [Prog.run_bind] at hx ⊢
      cases hy : ((execute cpu false ctxt i).run (emulateOps stale) s).result with
      | error e =>
        rw [hy] at hx
        cases hx
      | ok y =>
        rw [hy] at hx
        have hdst : x.dst = y.dst := ((writeback_within y).run (emulateOps stale) _).2 x hx
        split at hdest
        · rename_i addr hptr
          rw [hdst] at hptr
          obtain ⟨rfl, hleft⟩ := writeback_run hptr hx
          cases hdest
          exact hleft.after (execute_run_kept cpu ctxt hy (by simpa using hreads) hptr)
        · cases hdest

theorem emulateRun_store {s : MmioVcpu} {cr2 : BitVec 64} {i : Insn .x86_64} {x : Exec .x86_64} {dest : Destination}
    (hd : ((decode (emulateCtxt (emulateVcpu s).toKvmVcpu cr2)).run (emulateOps stale) ⟨emulateVcpu s, false⟩).result =
      .ok i)
    (hx : (emulateRun stale cpu s cr2).result = .ok x) (hdest : memDestination i x = some dest) :
    StoreLeft ⟨emulateVcpu s, false⟩ (emulateRun stale cpu s cr2).state dest := by
  have hrun : emulateRun stale cpu s cr2 = _ := emulate_run (emulateOps stale) cpu false hd
  rw [hrun] at hx ⊢
  apply StoreLeft.after _ (executeAndWriteback_store hx hdest)
  apply run_kept
  obtain ⟨-, -, hq⟩ := ((@decode_quiet .x86_64 (fun e => e = .cannotEmulate) _ rfl).run (emulateOps stale) _).1 i hd
  exact fun e he hE => hq ⟨e, he, hE⟩

/-! ### `emulate_instruction` -/

/-- The instruction that is emulated. -/
def emulatedInsn (stale : OpCall .x86_64 → BitVec 64) (s : MmioVcpu) (cr2 : BitVec 64) : Except (Exit .x86_64)
    (Insn .x86_64) :=
  ((decode (emulateCtxt (emulateVcpu s).toKvmVcpu cr2)).run (emulateOps stale) ⟨emulateVcpu s, false⟩).result

/-- The store of the instruction, if it is committed with a destination in memory. -/
def committedStore (stale : OpCall .x86_64 → BitVec 64) (cpu : HostCpu .x86_64) (s : MmioVcpu) (cr2 : BitVec 64) :
    Option GuestStore :=
  (emulatedInsn stale s cr2).toOption.bind fun i =>
    (emulateRun stale cpu s cr2).result.toOption.bind fun x =>
      (memDestination i x).map fun dest =>
        ⟨dest, storeTarget s.toVcpu (emulateCtxt (emulateVcpu s).toKvmVcpu cr2) i dest.addr⟩

theorem of_committedStore {s : MmioVcpu} {cr2 : BitVec 64} {st : GuestStore}
    (h : committedStore stale cpu s cr2 = some st) :
    ∃ i x, emulatedInsn stale s cr2 = .ok i ∧ (emulateRun stale cpu s cr2).result = .ok x ∧
      memDestination i x = some st.toDestination := by
  unfold committedStore at h
  obtain ⟨i, hi, h⟩ := Option.bind_eq_some_iff.1 h
  obtain ⟨x, hx, h⟩ := Option.bind_eq_some_iff.1 h
  obtain ⟨dest, hdest, rfl⟩ := Option.map_eq_some_iff.1 h
  cases hd : emulatedInsn stale s cr2 with
  | error e =>
    rw [hd] at hi
    cases hi
  | ok i' =>
    rw [hd] at hi
    cases hi
    cases hr : (emulateRun stale cpu s cr2).result with
    | error e =>
      rw [hr] at hx
      cases hx
    | ok x' =>
      rw [hr] at hx
      cases hx
      exact ⟨i, x, rfl, rfl, hdest⟩

/-- The request asks for the store. -/
structure MmioRequest.Asks (q : MmioRequest) (s : Vcpu) (dest : Destination) : Prop where
  isWrite : q.isWrite = true
  len : q.len = dest.bytes
  physAddr : q.physAddr = mmuGvaToGpa s dest.addr
  data : ∀ k < dest.bytes, byteOf q.data k = byteOf dest.val k

/-- The store is not made: it is a request for user space, if there is a `kvm_run`. -/
theorem emulateInstruction_store {s : MmioVcpu} {run : Option MmioRequest} {cr2 : BitVec 64} {dest : GuestStore}
    (h : committedStore stale cpu s cr2 = some dest) :
    ∃ t run', emulateInstruction stale cpu s run cr2 = some (if dest.stored then .doMmio else .done, t, run') ∧
      t.mem = s.mem ∧ t.kvm = s.kvm ∧
      (dest.stored = true → run.isSome = true → ∃ q, run' = some q ∧ q.Asks s.toVcpu dest.toDestination) := by
  obtain ⟨i, x, hd, hx, hdest⟩ := of_committedStore h
  have hleft := emulateRun_store hd hx hdest
  unfold StoreLeft at hleft
  unfold emulateInstruction
  dsimp only
  rw [hx]
  cases hst : dest.stored with
  | true =>
    rw [if_pos hst] at hleft
    have hoops : (emulateRun stale cpu s cr2).state.oops = false := hleft.oops
    have hmem : (emulateRun stale cpu s cr2).state.vcpu.mem = s.mem := by rw [hleft.kvmVcpu]; rfl
    have hkvm : (emulateRun stale cpu s cr2).state.vcpu.kvm = s.kvm := by rw [hleft.kvmVcpu]; rfl
    simp only [hoops, X86EmulateCtxt.finish, MmioVcpu.setRegs, hleft.isWrite]
    refine ⟨_, _, rfl, hmem, hkvm, fun _ hrun => ?_⟩
    obtain ⟨r, rfl⟩ := Option.isSome_iff_exists.1 hrun
    exact ⟨_, rfl, rfl, hleft.size, hleft.physAddr, hleft.data⟩
  | false =>
    rw [if_neg (by rw [hst]; exact Bool.false_ne_true)] at hleft
    have hoops : (emulateRun stale cpu s cr2).state.oops = false := hleft.oops
    have hmem : (emulateRun stale cpu s cr2).state.vcpu.mem = s.mem := by rw [hleft.kvmVcpu]; rfl
    have hkvm : (emulateRun stale cpu s cr2).state.vcpu.kvm = s.kvm := by rw [hleft.kvmVcpu]; rfl
    have hwrite : (emulateRun stale cpu s cr2).state.vcpu.mmioIsWrite = false := hleft.isWrite rfl
    simp only [hoops, X86EmulateCtxt.finish, MmioVcpu.setRegs, hwrite]
    exact ⟨_, _, rfl, hmem, hkvm, fun h => absurd h Bool.false_ne_true⟩

/-! ### `handle_exception` -/

/-- A call of `emulate_instruction`: the vcpu, whether there is a `kvm_run`, and `cr2`. -/
structure Emulation where
  vcpu : MmioVcpu
  withRun : Bool
  cr2 : BitVec 64

/-- The emulation in the handling of an exit: after a page fault, or after #GP in emulated real mode. -/
def exitEmulation (s : MmioVcpu) (fuel : Nat) : Option Emulation :=
  let intrInfo := vmcsRead32 s.vmcs .vmExitIntrInfo
  if isNmi intrInfo then none
  else if isPageFault intrInfo then
    match mmuPageFault s.toVcpu (vmcsReadl s.vmcs .exitQualification) (exitErrorCode s.vmcs) fuel with
    | some (v, true) => some ⟨{ s with toVcpu := v }, true, vmcsReadl s.vmcs .exitQualification⟩
    | _ => none
  else if s.rmode.active = true ∧ intrInfo &&& intrInfoVectorMask = gpVector ∧ exitErrorCode s.vmcs = 0 then
    some ⟨s, false, 0⟩
  else none

/-- What the exit of an emulated store leaves. -/
structure StoreExit (e : Emulation) (dest : GuestStore) (t : MmioVcpu) (run : KvmRun) (enters : Bool) : Prop where
  mem : t.mem = e.vcpu.mem
  kvm : t.kvm = e.vcpu.kvm
  asked : e.withRun = true → dest.stored = true →
    enters = false ∧ run.exitReason = .mmio ∧ run.mmio.Asks e.vcpu.toVcpu dest.toDestination
  only : enters = false → run.exitReason = .mmio → e.withRun = true ∧ dest.stored = true

theorem handleException_store {s : MmioVcpu} {run : KvmRun} {fuel : Nat} {e : Emulation} {dest : GuestStore}
    (he : exitEmulation s fuel = some e) (hc : committedStore stale cpu e.vcpu e.cr2 = some dest) :
    ∃ t run' enters, handleException stale cpu s run fuel = some (t, run', enters) ∧ StoreExit e dest t run' enters := by
  unfold exitEmulation at he
  unfold handleException
  dsimp only at he ⊢
  split at he
  · cases he
  rename_i hnmi
  rw [if_neg hnmi]
  split at he
  · -- a page fault
    rename_i hpf
    rw [if_pos hpf]
    split at he
    · rename_i v hfault
      rw [hfault]
      cases he
      obtain ⟨t, run', hemul, hmem, hkvm, hasks⟩ := @emulateInstruction_store stale cpu _ (some run.mmio) _ _ hc
      dsimp only at hemul hmem hkvm hasks ⊢
      rw [hemul]
      cases hst : dest.stored with
      | true =>
        obtain ⟨q, rfl, hq⟩ := hasks hst rfl
        exact ⟨_, _, _, rfl, hmem, hkvm, fun _ _ => ⟨rfl, rfl, hq⟩, fun _ _ => ⟨rfl, hst⟩⟩
      | false =>
        exact ⟨_, _, _, rfl, hmem, hkvm, fun _ h => absurd (hst.symm.trans h) Bool.false_ne_true,
          fun h => (by cases h)⟩
    · cases he
  · rename_i hpf
    rw [if_neg hpf]
    split at he
    · -- #GP in emulated real mode
      rename_i hgp
      cases he
      obtain ⟨t, run', hemul, hmem, hkvm, -⟩ := @emulateInstruction_store stale cpu _ none _ _ hc
      dsimp only at hemul hmem hkvm
      unfold handleOtherException handleRmodeException
      rw [if_pos hgp.1, hgp.1, if_neg (by decide), if_pos hgp.2, hemul]
      cases hst : dest.stored with
      | true =>
        have hundone : decide (EmulationResult.doMmio = .done) = false := rfl
        simp only [Option.map_some, if_true, hundone]
        by_cases hdb : vmcsRead32 s.vmcs .vmExitIntrInfo &&& (intrInfoIntrTypeMask ||| intrInfoVectorMask) =
            (intrTypeException ||| 1)
        · rw [if_pos hdb]
          exact ⟨_, _, _, rfl, hmem, hkvm, fun h => absurd h Bool.false_ne_true, fun _ h => (by cases h)⟩
        · rw [if_neg hdb]
          exact ⟨_, _, _, rfl, hmem, hkvm, fun h => absurd h Bool.false_ne_true, fun _ h => (by cases h)⟩
      | false => exact ⟨_, _, _, rfl, hmem, hkvm, fun h => (by cases h), fun h => (by cases h)⟩
    · cases he

/-! ### Delivery -/

/-- The destination byte `k` is in guest memory and its page is marked, or user space is asked to store it. -/
def ByteDelivered (s : Vcpu) (dest : GuestStore) (t : MmioVcpu) (run : KvmRun) (enters : Bool) (k : Nat) : Prop :=
  let gpa := mmuGvaToGpa s (dest.target + BitVec.ofNat 64 k)
  gpa ≠ unmappedGva ∧
    if (gfnToMemslot s.kvm (gfnOf gpa)).isSome then
      t.mem (gpaToHpa s.kvm gpa) = byteOf dest.val k ∧ GfnMarked t.kvm (gfnOf gpa)
    else
      enters = false ∧ run.exitReason = .mmio ∧ run.mmio.isWrite = true ∧ run.mmio.len = dest.bytes ∧
        run.mmio.physAddr + BitVec.ofNat 64 k = gpa ∧ byteOf run.mmio.data k = byteOf dest.val k

/-- The byte needs no store to guest memory.  A byte of device memory needs a `kvm_run` and a writeback, and its address is
that of the operand of the emulator, plus `k`. -/
def ByteReached (e : Emulation) (dest : GuestStore) (k : Nat) : Prop :=
  let s := e.vcpu.toVcpu
  let gpa := mmuGvaToGpa s (dest.target + BitVec.ofNat 64 k)
  gpa ≠ unmappedGva ∧
    if (gfnToMemslot s.kvm (gfnOf gpa)).isSome then
      s.mem (gpaToHpa s.kvm gpa) = byteOf dest.val k ∧ GfnMarked s.kvm (gfnOf gpa)
    else
      e.withRun = true ∧ dest.stored = true ∧ mmuGvaToGpa s dest.addr + BitVec.ofNat 64 k = gpa

theorem StoreExit.delivered_iff {e : Emulation} {dest : GuestStore} {t : MmioVcpu} {run : KvmRun} {enters : Bool}
    (h : StoreExit e dest t run enters) {k : Nat} (hk : k < dest.bytes) :
    ByteDelivered e.vcpu.toVcpu dest t run enters k ↔ ByteReached e dest k := by
  unfold ByteDelivered ByteReached
  dsimp only
  apply and_congr_right
  intro _
  split
  · rw [h.mem, h.kvm]
  · constructor
    · rintro ⟨henters, hreason, -, -, haddr, -⟩
      obtain ⟨hrun, hst⟩ := h.only henters hreason
      obtain ⟨-, -, hq⟩ := h.asked hrun hst
      rw [hq.physAddr] at haddr
      exact ⟨hrun, hst, haddr⟩
    · rintro ⟨hrun, hst, haddr⟩
      obtain ⟨henters, hreason, hq⟩ := h.asked hrun hst
      rw [← hq.physAddr] at haddr
      exact ⟨henters, hreason, hq.isWrite, hq.len, haddr, hq.data k hk⟩

/-- A store that the handling of an exit emulates is delivered before the guest is entered again. -/
def StoresDelivered (stale : OpCall .x86_64 → BitVec 64) (cpu : HostCpu .x86_64) (s : MmioVcpu) (run : KvmRun)
    (fuel : Nat) : Prop :=
  ∀ e dest, exitEmulation s fuel = some e → committedStore stale cpu e.vcpu e.cr2 = some dest →
    ∀ t run' enters, handleException stale cpu s run fuel = some (t, run', enters) →
      ∀ k < dest.bytes, ByteDelivered e.vcpu.toVcpu dest t run' enters k

/-- The condition for it. -/
def StoresReached (stale : OpCall .x86_64 → BitVec 64) (cpu : HostCpu .x86_64) (s : MmioVcpu) (fuel : Nat) : Prop :=
  ∀ e dest, exitEmulation s fuel = some e → committedStore stale cpu e.vcpu e.cr2 = some dest →
    ∀ k < dest.bytes, ByteReached e dest k

/-- **Emulated stores**: every byte is delivered exactly if the bytes in memory slots are there already and the others
follow the first one, with a `kvm_run` and a writeback. -/
theorem handleException_stores (stale : OpCall .x86_64 → BitVec 64) (cpu : HostCpu .x86_64) (s : MmioVcpu)
    (run : KvmRun) (fuel : Nat) : StoresDelivered stale cpu s run fuel ↔ StoresReached stale cpu s fuel := by
  constructor
  · intro h e dest he hc k hk
    obtain ⟨t, run', enters, hexit, hleft⟩ := @handleException_store stale cpu s run fuel e dest he hc
    exact (hleft.delivered_iff hk).1 (h e dest he hc t run' enters hexit k hk)
  · intro h e dest he hc t run' enters hexit k hk
    obtain ⟨t₀, run₀, enters₀, hexit₀, hleft⟩ := @handleException_store stale cpu s run fuel e dest he hc
    cases hexit₀.symm.trans hexit
    exact (hleft.delivered_iff hk).2 (h e dest he hc k hk)

/-- Emulated real mode: a #GP at `stosb`, with 0x55 in al, to a byte of the only page of memory that is 0. -/
def stosVcpu : MmioVcpu :=
  { (default : KvmVcpu) with
    kvm := { (default : Kvm) with
      nmemslots := 1
      memslots := fun _ => { baseGfn := 0, npages := 1, flags := 0, physMem := 1, dirtyBitmap := 0 }
      pageArray := fun _ _ => 1 }
    vmcs := fun field => match field with
      | .guestRflags => x86EflagsVm
      | .guestRip => 0x100
      | .vmExitIntrInfo => 0x80000b0d
      | _ => 0
    rmode := { (default : KvmVcpu).rmode with active := true }
    mem := fun a => if a = 0x1100 then 0xaa else 0
    regs := fun r => if r = 0 then 0x55 else if r = 7 then 0x600 else 0
    mmioNeeded := false
    mmioReadCompleted := false
    mmioIsWrite := false
    mmioData := 0
    mmioSize := 0
    mmioPhysAddr := 0 }

def idleRun : KvmRun := ⟨.none, ⟨0, 0, 0, false⟩, 0, 0⟩

/-- The byte is lost. -/
theorem stos_lost : ¬ ∀ (stale : OpCall .x86_64 → BitVec 64) (cpu : HostCpu .x86_64) (s : MmioVcpu) (run : KvmRun)
    (fuel : Nat), StoresDelivered stale cpu s run fuel := by
  intro h
  let e : Emulation := ⟨stosVcpu, false, 0⟩
  let dest : GuestStore := ⟨⟨0, 1, 0x55, true⟩, 0x600⟩
  have he : exitEmulation stosVcpu 0 = some e := rfl
  have hc : committedStore (fun _ => 0) idleCpu stosVcpu 0 = some dest := by decide +kernel
  obtain ⟨t, run', enters, hexit, hleft⟩ := @handleException_store (fun _ => 0) idleCpu stosVcpu idleRun 0 e dest he hc
  have hdel := h (fun _ => 0) idleCpu stosVcpu idleRun 0 e dest he hc t run' enters hexit 0 Nat.one_pos
  obtain ⟨-, hbyte⟩ := (hleft.delivered_iff Nat.one_pos).1 hdel
  have hslot : (gfnToMemslot stosVcpu.kvm (gfnOf (mmuGvaToGpa stosVcpu.toVcpu (0x600 + 0#64)))).isSome = true := rfl
  rw [if_pos hslot] at hbyte
  have hmem : stosVcpu.mem (gpaToHpa stosVcpu.kvm 0x600) ≠ byteOf 0x55 0 := by decide
  exact hmem hbyte.1

end LearnKvm
