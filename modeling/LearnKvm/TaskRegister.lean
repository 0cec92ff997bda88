import LearnKvm.RealMode
import LearnKvm.SregsRoundTrip

/-!
# The task register across real mode (`enter_rmode`, `enter_pmode`)

While real mode is emulated, TR and RFLAGS hold what virtual-8086 mode needs, and `rmode` keeps the task register and the
privilege level of the guest, which `enter_pmode` brings back.  KVM_SET_SREGS loads TR and sets `rmode.active` itself, so
the copy is stale when it loads real mode with another task register, or from protected mode with another privilege level.
`TrVcpu` records what has been established.  The copy, or the hardware in protected mode, agrees with it along all runs
without such a load (`taskRegister_restored`), and each such load breaks it (`TrOp.run_iff`).
-/

namespace LearnKvm

open Relation

/-! ### What is established -/

structure TaskReg where
  base : BitVec 64
  limit : BitVec 32
  ar : BitVec 32
  deriving DecidableEq

/-- The task register in the VMCS. -/
def hardwareTr (v : Vmcs) : TaskReg where
  base := vmcsReadl v .guestTrBase
  limit := vmcsRead32 v .guestTrLimit
  ar := vmcsRead32 v .guestTrArBytes

/-- `rmode.tr`. -/
def Rmode.tr (r : Rmode) : TaskReg := ⟨r.trBase, r.trLimit, r.trAr⟩

def KvmSregs.tr (sregs : KvmSregs) : TaskReg :=
  ⟨(sregs.segment .tr).base, (sregs.segment .tr).limit, (sregs.segment .tr).ar⟩

/-- The task register that `kvm_vcpu_setup` writes. -/
def resetTr : TaskReg := ⟨0, 0xffff, 0x8b⟩

/-- RFLAGS.IOPL. -/
def guestIopl (v : Vmcs) : BitVec 2 := Bits.field 12 2 (vmcsReadl v .guestRflags)

/-- CR0.PE, as the guest sees it. -/
def guestPe (v : Vmcs) : Bool := (guestCr0 v).hasBit 0

/-- A vcpu, with the task register that was established last, by the guest in protected mode or by KVM_SET_SREGS, and the
privilege level of the guest when it last cleared PE. -/
structure TrVcpu extends KvmVcpu where
  tr : TaskReg
  iopl : BitVec 2

/-- The operations that change CR0 or the task register outside of the guest. -/
inductive TrOp where
  | cr0 (v : BitVec 64)
  | lmsw (msw : BitVec 64)
  | setSregs (sregs : KvmSregs)

def TrOp.exec (s : KvmVcpu) : TrOp → Option KvmVcpu
  | cr0 v => setCr0 s v
  | lmsw msw => some (LearnKvm.lmsw s msw)
  | setSregs sregs => LearnKvm.setSregs s sregs

/-- Only KVM_SET_SREGS establishes a task register. -/
def TrOp.established (tr : TaskReg) : TrOp → TaskReg
  | setSregs sregs => sregs.tr
  | _ => tr

/-- The state after an operation that leaves the registers `t`. -/
def TrOp.after (s : TrVcpu) (op : TrOp) (t : KvmVcpu) : TrVcpu where
  toKvmVcpu := t
  tr := op.established s.tr
  iopl := if guestPe s.vmcs && !guestPe t.vmcs then guestIopl s.vmcs else s.iopl

def TrOp.run (s : TrVcpu) (op : TrOp) : Option TrVcpu := (op.exec s.toKvmVcpu).map (op.after s)

/-- Everything else: CR0.PE and what real mode hides stay, and protected mode establishes the task register that it
loads. -/
structure TrElse (s t : TrVcpu) : Prop where
  pe : guestPe t.vmcs = guestPe s.vmcs
  rmode : t.rmode = s.rmode
  tr : t.tr = if guestPe s.vmcs then hardwareTr t.vmcs else s.tr
  iopl : t.iopl = s.iopl

/-- The hardware has what was established. -/
structure TrRestored (s : TrVcpu) : Prop where
  tr : hardwareTr s.vmcs = s.tr
  vm : vmcsReadl s.vmcs .guestRflags &&& x86EflagsVm = 0
  iopl : guestIopl s.vmcs = s.iopl

/-- The operation enters protected mode, other than by KVM_SET_SREGS. -/
def TrOp.EntersPmode (s t : TrVcpu) : TrOp → Prop
  | setSregs _ => False
  | _ => guestPe s.vmcs = false ∧ guestPe t.vmcs = true

/-- The operation changes the task register: `enter_lmode` makes it a 64-bit one.  Or it loads real mode and leaves the
copy stale. -/
def TrOp.Loses (s : TrVcpu) : TrOp → Prop
  | cr0 v => cr0Faults s.toKvmVcpu v = some false ∧ entersLmode s.toKvmVcpu v = true ∧
      s.tr.ar &&& arTypeMask ≠ arTypeBusy64Tss
  | lmsw _ => False
  | setSregs sregs => sregs.cr0.hasBit 0 = false ∧
      (s.rmode.tr ≠ sregs.tr ∨ guestPe s.vmcs = true ∧ s.rmode.saveIopl ≠ (guestIopl s.vmcs).setWidth 8)

/-- What was established is in the hardware in protected mode, and in the copy in real mode. -/
structure TrKept (s : TrVcpu) : Prop where
  mode : s.rmode.active = !guestPe s.vmcs
  pmode : guestPe s.vmcs = true → hardwareTr s.vmcs = s.tr
  copyTr : guestPe s.vmcs = false → s.rmode.tr = s.tr
  copyIopl : guestPe s.vmcs = false → s.rmode.saveIopl = s.iopl.setWidth 8

/-! ### The switches -/

variable {s t : KvmVcpu}

theorem guestPe_shadow (v : Vmcs) : guestPe v = (v .cr0ReadShadow).hasBit 0 := hasBit_guestCr0 v (by decide)

theorem hardwareTr_congr {v v' : Vmcs} (h : ∀ f ∈ [VmcsField.guestTrBase, .guestTrLimit, .guestTrArBytes], v' f = v f) :
    hardwareTr v' = hardwareTr v := by
  unfold hardwareTr vmcsRead32 vmcsReadl
  rw [h .guestTrBase (by decide), h .guestTrLimit (by decide), h .guestTrArBytes (by decide)]

theorem guestIopl_congr {v v' : Vmcs} (h : v' .guestRflags = v .guestRflags) : guestIopl v' = guestIopl v := by
  unfold guestIopl vmcsReadl
  rw [h]

theorem enterPmode_tr (s : KvmVcpu) : hardwareTr (enterPmode s).vmcs = s.rmode.tr := by
  have hbase : vmcsReadl (enterPmode s).vmcs .guestTrBase = s.rmode.trBase := rfl
  have hlimit : vmcsRead32 (enterPmode s).vmcs .guestTrLimit = s.rmode.trLimit :=
    vmcsRead32_vmcsWrite32 s.vmcs .guestTrLimit s.rmode.trLimit
  have har : vmcsRead32 (enterPmode s).vmcs .guestTrArBytes = s.rmode.trAr :=
    vmcsRead32_vmcsWrite32 s.vmcs .guestTrArBytes s.rmode.trAr
  unfold hardwareTr
  rw [hbase, hlimit, har]
  rfl

theorem enterRmode_tr (s : KvmVcpu) : (enterRmode s).rmode.tr = hardwareTr s.vmcs := rfl

/-- RFLAGS after `enter_pmode`: VM is off, and IOPL is the copy. -/
theorem enterPmode_rflags (s : KvmVcpu) : vmcsReadl (enterPmode s).vmcs .guestRflags =
    vmcsReadl s.vmcs .guestRflags &&& ~~~(ioplMask ||| x86EflagsVm) |||
      (s.rmode.saveIopl.setWidth 64 : BitVec 64) <<< ioplShift := rfl

theorem ioplMask_hasBit (i : Nat) : ioplMask.hasBit i = decide (i = 12 ∨ i = 13) := by
  have hmask : ioplMask = 1#64 <<< 12 ||| 1#64 <<< 13 := by decide
  rw [hmask, BitVec.hasBit_or, Bits.hasBit_one_shiftLeft (by decide), Bits.hasBit_one_shiftLeft (by decide),
    Bool.decide_or]

theorem vm_hasBit (i : Nat) : x86EflagsVm.hasBit i = decide (i = 17) := by
  have hmask : x86EflagsVm = 1#64 <<< 17 := by decide
  rw [hmask, Bits.hasBit_one_shiftLeft (by decide)]

theorem enterPmode_iopl {iopl : BitVec 2} (h : s.rmode.saveIopl = iopl.setWidth 8) : guestIopl (enterPmode s).vmcs = iopl := by
  unfold guestIopl
  rw [enterPmode_rflags, h]
  apply BitVec.eq_of_hasBit
  intro i hi
  have hcases : i = 0 ∨ i = 1 := by omega
  rcases hcases with rfl | rfl <;> simp [ioplMask_hasBit, vm_hasBit, ioplShift]

theorem enterPmode_vm {iopl : BitVec 2} (h : s.rmode.saveIopl = iopl.setWidth 8) :
    vmcsReadl (enterPmode s).vmcs .guestRflags &&& x86EflagsVm = 0 := by
  rw [enterPmode_rflags, h]
  apply BitVec.eq_of_hasBit
  intro i hi
  by_cases h17 : i = 17
  · subst h17
    have hiopl : iopl.hasBit 5 = false := BitVec.hasBit_of_ge _ (by omega)
    simp [ioplMask_hasBit, vm_hasBit, ioplShift, hiopl]
  · simp [vm_hasBit, h17]

theorem enterRmode_iopl (s : KvmVcpu) : (enterRmode s).rmode.saveIopl = (guestIopl s.vmcs).setWidth 8 := by
  have hcopy : (enterRmode s).rmode.saveIopl =
      ((vmcsReadl s.vmcs .guestRflags &&& ioplMask) >>> ioplShift).setWidth 8 := rfl
  rw [hcopy]
  unfold guestIopl
  apply BitVec.eq_of_hasBit
  intro i hi
  by_cases hlow : i < 2
  · have hcases : i = 0 ∨ i = 1 := by omega
    rcases hcases with rfl | rfl <;> simp [ioplMask_hasBit, ioplShift]
  · have hbit : ioplMask.hasBit (12 + i) = false := by
      rw [ioplMask_hasBit, decide_eq_false_iff_not]
      omega
    simp [ioplShift, hbit, hlow]

/-! ### Writes of CR0 -/

/-- The access rights after the fix of `enter_lmode`. -/
def busy64Ar (ar : BitVec 32) : BitVec 32 :=
  if ar &&& arTypeMask != arTypeBusy64Tss then (ar &&& ~~~arTypeMask) ||| arTypeBusy64Tss else ar

theorem busy64Ar_eq_iff (ar : BitVec 32) : busy64Ar ar = ar ↔ ar &&& arTypeMask = arTypeBusy64Tss := by
  unfold busy64Ar
  by_cases htype : ar &&& arTypeMask = arTypeBusy64Tss
  · rw [htype, if_neg (by decide)]
    exact iff_of_true rfl rfl
  · rw [if_pos (by simpa using htype)]
    refine iff_of_false (fun heq => htype ?_) htype
    rw [← heq, BitVec.and_or_distrib_right, BitVec.and_assoc]
    have hoff : ~~~arTypeMask &&& arTypeMask = 0 := by decide
    have hon : arTypeBusy64Tss &&& arTypeMask = arTypeBusy64Tss := by decide
    rw [hoff, hon]
    exact (congrArg (· ||| arTypeBusy64Tss) BitVec.and_zero).trans BitVec.zero_or

/-- RFLAGS and what real mode hides are the same. -/
structure CopyKept (s t : KvmVcpu) : Prop where
  rmode : t.rmode = s.rmode
  rflags : t.vmcs .guestRflags = s.vmcs .guestRflags

theorem enterLmode_tr (h : enterLmode s = some t) :
    CopyKept s t ∧ hardwareTr t.vmcs = { hardwareTr s.vmcs with ar := busy64Ar (hardwareTr s.vmcs).ar } := by
  have hspec := enterLmode_spec h
  refine ⟨⟨by rw [hspec.eq], hspec.kept _ (by decide) (by decide)⟩, ?_⟩
  have hbase : t.vmcs .guestTrBase = s.vmcs .guestTrBase := hspec.kept _ (by decide) (by decide)
  have hlimit : t.vmcs .guestTrLimit = s.vmcs .guestTrLimit := hspec.kept _ (by decide) (by decide)
  have har : vmcsRead32 t.vmcs .guestTrArBytes = busy64Ar (vmcsRead32 s.vmcs .guestTrArBytes) := by
    have hentry : ∀ (v : Vmcs) x, vmcsRead32 (vmcsWrite32 v .vmEntryControls x) .guestTrArBytes =
        vmcsRead32 v .guestTrArBytes := fun _ _ => rfl
    unfold enterLmode at h
    unfold busy64Ar
    dsimp only at h
    split at h
    · cases h
    · obtain rfl := Option.some.inj h
      refine (hentry _ _).trans ?_
      split
      · exact vmcsRead32_vmcsWrite32 ..
      · rfl
  unfold hardwareTr
  rw [har]
  unfold vmcsRead32 vmcsReadl
  rw [hbase, hlimit]

/-- The way out of long mode leaves TR alone. -/
theorem switchLmode_tr {v : BitVec 64} (h : switchLmode s v = some t) :
    hardwareTr t.vmcs = if s.shadowEfer.hasBit 8 && (!isPaging s.vmcs && v.hasBit 31) then
      { hardwareTr s.vmcs with ar := busy64Ar (hardwareTr s.vmcs).ar } else hardwareTr s.vmcs := by
  have hexit : ∀ u : KvmVcpu, hardwareTr (exitLmode u).vmcs = hardwareTr u.vmcs := fun _ => rfl
  have hlast : ∀ u : KvmVcpu, hardwareTr (if isPaging u.vmcs && v &&& cr0PgMask == 0 then exitLmode u else u).vmcs =
      hardwareTr u.vmcs := by
    intro u
    split
    · exact hexit u
    · rfl
  unfold switchLmode at h
  rw [lme_eq, pg_eq] at h
  cases hlme : s.shadowEfer.hasBit 8 with
  | false =>
    rw [hlme, if_neg (by decide)] at h
    obtain rfl := Option.some.inj h
    rw [Bool.false_and, if_neg (by decide)]
  | true =>
    rw [hlme, if_pos rfl] at h
    obtain ⟨s1, h1, rfl⟩ := Option.map_eq_some_iff.1 h
    rw [hlast, Bool.true_and]
    split at h1
    · rename_i henters
      rw [if_pos henters]
      exact (enterLmode_tr h1).2
    · rename_i hstay
      obtain rfl := Option.some.inj h1
      rw [if_neg hstay]

/-- CR0 has been written.  After the switch of the mode, TR only depends on long mode. -/
structure SetCr0Tr (s t : KvmVcpu) (v : BitVec 64) : Prop where
  kept : CopyKept (switchRmode s v) t
  pe : guestPe t.vmcs = v.hasBit 0
  tr : hardwareTr t.vmcs = if entersLmode s v then
      { hardwareTr (switchRmode s v).vmcs with ar := busy64Ar (hardwareTr (switchRmode s v).vmcs).ar }
    else hardwareTr (switchRmode s v).vmcs

theorem SetCr0Tr.resetContext {v : BitVec 64} (h : SetCr0Tr s t v) : SetCr0Tr s t.resetContext v where
  kept := ⟨h.kept.rmode, (resetContext_vmcs t (by decide)).trans h.kept.rflags⟩
  pe := by
    rw [← h.pe, guestPe_shadow, guestPe_shadow, resetContext_vmcs t (by decide)]
  tr := by
    rw [← h.tr]
    exact hardwareTr_congr fun f hf => resetContext_vmcs t (by fin_cases hf <;> decide)

theorem rawSetCr0_tr {v : BitVec 64} (h : rawSetCr0 s v = some t) : SetCr0Tr s t v := by
  have hswitch := switchRmode_modeSwitch s v
  have hpaging : isPaging (switchRmode s v).vmcs = isPaging s.vmcs :=
    isPaging_congr (hswitch.kept _ (by decide)) (hswitch.kept _ (by decide))
  have hefer : (switchRmode s v).shadowEfer = s.shadowEfer := by rw [switchRmode_eq]
  have henters : entersLmode s v = ((switchRmode s v).shadowEfer.hasBit 8 &&
      (!isPaging (switchRmode s v).vmcs && v.hasBit 31)) := by
    unfold entersLmode
    rw [lme_eq, pg_eq, hefer, hpaging]
  obtain ⟨s1, h1, rfl⟩ := Option.map_eq_some_iff.1 h
  refine ⟨?_, ?_, ?_⟩
  · rcases switchLmode_cases h1 with ⟨rfl, -⟩ | ⟨-, -, -, henter⟩ | ⟨-, -, -, rfl⟩
    · exact ⟨rfl, rfl⟩
    · exact ⟨by rw [henter.eq]; rfl, henter.kept _ (by decide) (by decide)⟩
    · exact ⟨rfl, rfl⟩
  · unfold guestPe
    exact congrArg (BitVec.hasBit · 0) (guestCr0_write s1.vmcs v)
  · rw [henters]
    exact (rfl : _ = hardwareTr s1.vmcs).trans (switchLmode_tr h1)

/-! ### KVM_SET_SREGS -/

/-- TR is loaded, and of what real mode hides only the flag changes. -/
theorem setSregs_tr {sregs : KvmSregs} (h : setSregs s sregs = some t) : hardwareTr t.vmcs = sregs.tr ∧
    t.rmode = { s.rmode with active := !sregs.cr0.hasBit 0 } ∧ guestPe t.vmcs = sregs.cr0.hasBit 0 := by
  have hwritten := setSregs_written h
  refine ⟨?_, ?_, congrArg (BitVec.hasBit · 0) hwritten.cr0⟩
  · have hbase : vmcsReadl t.vmcs .guestTrBase = sregs.tr.base := (hwritten.segment .tr).base
    have hlimit : vmcsRead32 t.vmcs .guestTrLimit = sregs.tr.limit := by
      have hfield : t.vmcs .guestTrLimit = (sregs.segment .tr).limit.setWidth 64 := (hwritten.segment .tr).limit
      unfold vmcsRead32 vmcsReadl
      rw [hfield]
      exact (BitVec.setWidth_setWidth_of_le _ (by decide)).trans (BitVec.setWidth_eq _)
    have har : vmcsRead32 t.vmcs .guestTrArBytes = sregs.tr.ar := hwritten.arBytes .tr
    unfold hardwareTr
    rw [hbase, hlimit, har]
  · have hactive : (sregs.cr0 &&& cr0PeMask == 0) = !sregs.cr0.hasBit 0 := by
      rw [← pe_eq]
      exact (Bool.not_not _).symm
    rw [setSregs_eq] at h
    obtain ⟨s1, h1, rfl⟩ := Option.map_eq_some_iff.1 h
    have hload : (loadCrs s1 sregs).rmode = { s.rmode with active := !sregs.cr0.hasBit 0 } := by
      show ({ s1.rmode with active := sregs.cr0 &&& cr0PeMask == 0 } : Rmode) = _
      rw [hactive, (rawSetEfer_spec h1).eq]
    dsimp only
    split
    · exact hload
    · exact hload

/-! ### Runs -/

variable {σ τ : TrVcpu}

/-- Nothing of it changes. -/
theorem TrKept.same (hs : TrKept σ) {op : TrOp} (hop : op.established σ.tr = σ.tr) (hpe : guestPe t.vmcs = guestPe σ.vmcs)
    (hrmode : t.rmode = σ.rmode) (htr : hardwareTr t.vmcs = hardwareTr σ.vmcs) : TrKept (op.after σ t) where
  mode := by
    show t.rmode.active = !guestPe t.vmcs
    rw [hrmode, hpe]
    exact hs.mode
  pmode := by
    show guestPe t.vmcs = true → hardwareTr t.vmcs = op.established σ.tr
    rw [hpe, htr, hop]
    exact hs.pmode
  copyTr := by
    show guestPe t.vmcs = false → t.rmode.tr = op.established σ.tr
    rw [hpe, hrmode, hop]
    exact hs.copyTr
  copyIopl := by
    intro hfalse
    have hno : guestPe σ.vmcs = false := hpe.symm.trans hfalse
    have hiopl : (op.after σ t).iopl = σ.iopl := if_neg (by rw [hno, Bool.false_and]; decide)
    rw [hiopl]
    show t.rmode.saveIopl = _
    rw [hrmode]
    exact hs.copyIopl hno

/-- Protected mode is entered with the copy. -/
theorem TrKept.enter (hs : TrKept σ) (op : TrOp) (hop : op.established σ.tr = σ.tr) (hreal : guestPe σ.vmcs = false)
    (hkept : CopyKept (enterPmode σ.toKvmVcpu) t) (hpe : guestPe t.vmcs = true)
    (htr : hardwareTr t.vmcs = σ.tr) : TrKept (op.after σ t) ∧ TrRestored (op.after σ t) := by
  have hcopy := hs.copyIopl hreal
  have hiopl : (op.after σ t).iopl = σ.iopl := if_neg (by rw [hreal, Bool.false_and]; decide)
  have hflags : vmcsReadl t.vmcs .guestRflags = vmcsReadl (enterPmode σ.toKvmVcpu).vmcs .guestRflags := hkept.rflags
  refine ⟨⟨?_, fun _ => ?_, fun hno => ?_, fun hno => ?_⟩, ⟨?_, ?_, ?_⟩⟩
  · show t.rmode.active = !guestPe t.vmcs
    rw [hkept.rmode, hpe]
    rfl
  · exact htr.trans hop.symm
  · exact absurd (hpe.symm.trans hno) (by decide)
  · exact absurd (hpe.symm.trans hno) (by decide)
  · exact htr.trans hop.symm
  · show vmcsReadl t.vmcs .guestRflags &&& x86EflagsVm = 0
    rw [hflags]
    exact enterPmode_vm hcopy
  · rw [hiopl]
    exact (guestIopl_congr hkept.rflags).trans (enterPmode_iopl hcopy)

/-- `enter_lmode` changes the task register exactly when it is not a 64-bit one. -/
theorem tr_after_cr0 {v : BitVec 64} {tr : TaskReg} (hlegal : cr0Faults σ.toKvmVcpu v = some false)
    (h : tr = if entersLmode σ.toKvmVcpu v then { σ.tr with ar := busy64Ar σ.tr.ar } else σ.tr) :
    tr = σ.tr ↔ ¬(TrOp.cr0 v).Loses σ := by
  have hloses : (TrOp.cr0 v).Loses σ ↔ entersLmode σ.toKvmVcpu v = true ∧ σ.tr.ar &&& arTypeMask ≠ arTypeBusy64Tss :=
    and_iff_right hlegal
  rw [hloses, h]
  cases entersLmode σ.toKvmVcpu v with
  | false => exact iff_of_true rfl fun hno => (nomatch hno.1)
  | true =>
    have hfix : ({ σ.tr with ar := busy64Ar σ.tr.ar } : TaskReg) = σ.tr ↔ busy64Ar σ.tr.ar = σ.tr.ar := by
      constructor
      · exact fun heq => congrArg TaskReg.ar heq
      · intro heq
        rw [heq]
    rw [if_pos rfl, hfix, busy64Ar_eq_iff]
    exact ⟨fun htype hno => hno.2 htype, fun hno => by_contra fun htype => hno ⟨rfl, htype⟩⟩

/-- A legal write that leaves PE clear keeps what was established, or takes it into the copy. -/
theorem setCr0_real {v : BitVec 64} (hs : TrKept σ) (hlegal : cr0Faults σ.toKvmVcpu v = some false) (hv : v.hasBit 0 = false)
    (h : SetCr0Tr σ.toKvmVcpu t v) : TrKept ((TrOp.cr0 v).after σ t) ∧ ¬(TrOp.cr0 v).Loses σ := by
  obtain ⟨hkept, hpe, htr⟩ := h
  have hno : entersLmode σ.toKvmVcpu v = false := by
    unfold entersLmode
    rw [pg_eq, pg_of_cr0Faults hlegal hv, Bool.and_false, Bool.and_false]
  rw [hv] at hpe
  refine ⟨?_, fun hloses => absurd (hno.symm.trans hloses.2.1) (by decide)⟩
  rcases switchRmode_cases σ.toKvmVcpu v with ⟨heq, hact⟩ | ⟨-, hno', -⟩ | ⟨hact, -, heq⟩
  · have hreal : guestPe σ.vmcs = false := by
      rw [hs.mode, hv] at hact
      exact Bool.not_inj hact
    rw [heq, hno] at htr
    rw [heq] at hkept
    exact hs.same rfl (hpe.trans hreal.symm) hkept.rmode htr
  · rw [hv] at hno'
    cases hno'
  · have hpmode : guestPe σ.vmcs = true := by
      rw [hs.mode] at hact
      simpa using hact
    rw [heq] at hkept
    have hiopl : ((TrOp.cr0 v).after σ t).iopl = guestIopl σ.vmcs := if_pos (by rw [hpmode, hpe]; rfl)
    refine ⟨?_, fun hyes => ?_, fun _ => ?_, fun _ => ?_⟩
    · show t.rmode.active = !guestPe t.vmcs
      rw [hkept.rmode, hpe]
      rfl
    · exact absurd (hpe.symm.trans hyes) (by decide)
    · show t.rmode.tr = σ.tr
      rw [hkept.rmode, enterRmode_tr]
      exact hs.pmode hpmode
    · rw [hiopl]
      show t.rmode.saveIopl = _
      rw [hkept.rmode]
      exact enterRmode_iopl σ.toKvmVcpu

/-- A legal write with PE brings back what was established, up to the fix of `enter_lmode`. -/
theorem setCr0_protected {v : BitVec 64} (hs : TrKept σ) (hlegal : cr0Faults σ.toKvmVcpu v = some false)
    (hv : v.hasBit 0 = true) (h : SetCr0Tr σ.toKvmVcpu t v) :
    (TrKept ((TrOp.cr0 v).after σ t) ∧
      ((TrOp.cr0 v).EntersPmode σ ((TrOp.cr0 v).after σ t) → TrRestored ((TrOp.cr0 v).after σ t))) ↔
    ¬(TrOp.cr0 v).Loses σ := by
  obtain ⟨hkept, hpe, htr⟩ := h
  rw [hv] at hpe
  rcases switchRmode_cases σ.toKvmVcpu v with ⟨heq, hact⟩ | ⟨hact, -, heq⟩ | ⟨-, hno, -⟩
  · -- protected mode stays
    have hpmode : guestPe σ.vmcs = true := by
      rw [hs.mode, hv] at hact
      exact Bool.not_inj hact
    rw [heq, hs.pmode hpmode] at htr
    rw [heq] at hkept
    rw [← tr_after_cr0 hlegal htr]
    constructor
    · exact fun hall => hall.1.pmode hpe
    · intro hsame
      refine ⟨hs.same rfl (hpe.trans hpmode.symm) hkept.rmode (hsame.trans (hs.pmode hpmode).symm), fun henters => ?_⟩
      exact absurd (hpmode.symm.trans henters.1) (by decide)
  · have hreal : guestPe σ.vmcs = false := by
      rw [hs.mode] at hact
      simpa using hact
    rw [heq, enterPmode_tr, hs.copyTr hreal] at htr
    rw [heq] at hkept
    rw [← tr_after_cr0 hlegal htr]
    constructor
    · exact fun hall => hall.1.pmode hpe
    · intro hsame
      obtain ⟨hkept', hrestored⟩ := hs.enter (.cr0 v) rfl hreal hkept hpe hsame
      exact ⟨hkept', fun _ => hrestored⟩
  · rw [hv] at hno
    cases hno

theorem setCr0_kept {v : BitVec 64} (hs : TrKept σ) (h : setCr0 σ.toKvmVcpu v = some t) :
    (TrKept ((TrOp.cr0 v).after σ t) ∧
      ((TrOp.cr0 v).EntersPmode σ ((TrOp.cr0 v).after σ t) → TrRestored ((TrOp.cr0 v).after σ t))) ↔
    ¬(TrOp.cr0 v).Loses σ := by
  rcases setCr0_cases h with ⟨hfault, rfl⟩ | ⟨hlegal, s1, h1, rfl⟩
  · -- a fault changes nothing of it
    have hpe : guestPe (σ.injectGp).vmcs = guestPe σ.vmcs := rfl
    refine iff_of_true ⟨hs.same rfl hpe rfl rfl, fun henters => ?_⟩ fun hloses => ?_
    · exact absurd (henters.1.symm.trans (hpe.symm.trans henters.2)) (by decide)
    · exact absurd (hfault.symm.trans hloses.1) (by decide)
  · have htr := (rawSetCr0_tr h1).resetContext
    cases hv : v.hasBit 0 with
    | false =>
      obtain ⟨hkept, hno⟩ := setCr0_real hs hlegal hv htr
      refine iff_of_true ⟨hkept, fun henters => ?_⟩ hno
      exact absurd (hv.symm.trans (htr.pe.symm.trans henters.2)) (by decide)
    | true => exact setCr0_protected hs hlegal hv htr

/-- `lmsw` only sets PE. -/
theorem lmsw_kept {msw : BitVec 64} (hs : TrKept σ) (h : lmsw σ.toKvmVcpu msw = t) :
    TrKept ((TrOp.lmsw msw).after σ t) ∧
      ((TrOp.lmsw msw).EntersPmode σ ((TrOp.lmsw msw).after σ t) → TrRestored ((TrOp.lmsw msw).after σ t)) := by
  unfold lmsw at h
  dsimp only at h
  split at h
  · rename_i hpe
    have hreal : guestPe σ.vmcs = false := by
      rw [Bool.and_eq_true, guestPe_eq] at hpe
      rw [guestPe_shadow]
      simpa using hpe.2
    have hpe' : guestPe t.vmcs = true := by
      rw [guestPe_shadow, ← h]
      show (guestCr0 σ.vmcs ||| cr0PeMask).hasBit 0 = true
      rw [BitVec.hasBit_or, show cr0PeMask.hasBit 0 = true from by decide, Bool.or_true]
    have htr : hardwareTr t.vmcs = σ.tr := by
      rw [← hs.copyTr hreal, ← enterPmode_tr, ← h]
      rfl
    have hkept : CopyKept (enterPmode σ.toKvmVcpu) t := by
      rw [← h]
      exact ⟨rfl, rfl⟩
    obtain ⟨hkept', hrestored⟩ := hs.enter (.lmsw msw) rfl hreal hkept hpe' htr
    exact ⟨hkept', fun _ => hrestored⟩
  · have hpe : guestPe t.vmcs = guestPe σ.vmcs := by
      rw [guestPe_shadow, guestPe_shadow, ← h]
      rfl
    refine ⟨hs.same rfl hpe (by rw [← h]; rfl) (by rw [← h]; rfl), fun henters => ?_⟩
    exact absurd (henters.1.symm.trans (hpe.symm.trans henters.2)) (by decide)

/-- KVM_SET_SREGS establishes TR, and in real mode it should be the copy. -/
theorem setSregs_kept {sregs : KvmSregs} (hs : TrKept σ) (h : setSregs σ.toKvmVcpu sregs = some t) :
    TrKept ((TrOp.setSregs sregs).after σ t) ↔ ¬(TrOp.setSregs sregs).Loses σ := by
  obtain ⟨htr, hrmode, hpe⟩ := setSregs_tr h
  have hactive : t.rmode.active = !guestPe t.vmcs := by rw [hrmode, hpe]
  have hcopy : t.rmode.tr = σ.rmode.tr ∧ t.rmode.saveIopl = σ.rmode.saveIopl := by
    rw [hrmode]
    exact ⟨rfl, rfl⟩
  cases hcr0 : sregs.cr0.hasBit 0 with
  | true =>
    rw [hcr0] at hpe
    refine iff_of_true ⟨hactive, fun _ => htr, fun hno => ?_, fun hno => ?_⟩ fun hloses => ?_
    · exact absurd (hpe.symm.trans hno) (by decide)
    · exact absurd (hpe.symm.trans hno) (by decide)
    · exact absurd (hcr0.symm.trans hloses.1) (by decide)
  | false =>
    rw [hcr0] at hpe
    have hiopl : ((TrOp.setSregs sregs).after σ t).iopl = if guestPe σ.vmcs then guestIopl σ.vmcs else σ.iopl := by
      show (if guestPe σ.vmcs && !guestPe t.vmcs then guestIopl σ.vmcs else σ.iopl) = _
      rw [hpe, Bool.not_false, Bool.and_true]
    constructor
    · rintro hkept ⟨-, hstale⟩
      rcases hstale with hstale | ⟨hpmode, hstale⟩
      · exact hstale (hcopy.1.symm.trans (hkept.copyTr hpe))
      · have hiopl' := hkept.copyIopl hpe
        rw [hiopl, if_pos hpmode] at hiopl'
        exact hstale (hcopy.2.symm.trans hiopl')
    · intro hno
      refine ⟨hactive, fun hyes => ?_, fun _ => ?_, fun _ => ?_⟩
      · exact absurd (hpe.symm.trans hyes) (by decide)
      · refine hcopy.1.trans ?_
        by_contra hne
        exact hno ⟨hcr0, Or.inl hne⟩
      · rw [hiopl]
        refine hcopy.2.trans ?_
        cases hpmode : guestPe σ.vmcs with
        | false => exact hs.copyIopl hpmode
        | true =>
          by_contra hne
          exact hno ⟨hcr0, Or.inr ⟨hpmode, hne⟩⟩

/-- **An operation keeps what was established, and brings it back, unless it loses it.** -/
theorem TrOp.run_iff {op : TrOp} (hs : TrKept σ) (h : op.run σ = some τ) :
    (TrKept τ ∧ (op.EntersPmode σ τ → TrRestored τ)) ↔ ¬op.Loses σ := by
  obtain ⟨t, ht, rfl⟩ := Option.map_eq_some_iff.1 h
  cases op with
  | cr0 v => exact setCr0_kept hs ht
  | lmsw msw => exact iff_of_true (lmsw_kept hs (Option.some.inj ht)) fun hno => hno
  | setSregs sregs =>
    rw [← setSregs_kept hs ht]
    exact ⟨fun hall => hall.1, fun hkept => ⟨hkept, fun hno => hno.elim⟩⟩

theorem TrElse.kept (h : TrElse σ τ) (hs : TrKept σ) : TrKept τ := by
  refine ⟨?_, fun hpe => ?_, fun hpe => ?_, fun hpe => ?_⟩
  · rw [h.rmode, h.pe]
    exact hs.mode
  · rw [h.pe] at hpe
    rw [h.tr, if_pos hpe]
  · rw [h.pe] at hpe
    rw [h.rmode, h.tr, if_neg (by rw [hpe]; decide)]
    exact hs.copyTr hpe
  · rw [h.pe] at hpe
    rw [h.rmode, h.iopl]
    exact hs.copyIopl hpe

/-! ### Set-up -/

/-- Real mode is off, or the copy is what a set-up that failed has left. -/
def FreshRmode (r : Rmode) : Prop := r.active = true → r.tr = resetTr ∧ r.saveIopl = 0

/-- The state of set-up before it enters real mode. -/
structure SetupTr (c : KvmVcpu) (s t : KvmVcpu) : Prop where
  mode : setupMode s = some t
  rmode : s.rmode = c.rmode
  tr : hardwareTr s.vmcs = resetTr
  iopl : guestIopl s.vmcs = 0

theorem setupRest_tr {host : Host} {allocs : Allocs} {c c' : VcpuAlloc} {e : Int} (h : setupRest host allocs c = some (c', e))
    (htr : hardwareTr c.vmcs = resetTr) (hiopl : guestIopl c.vmcs = 0) :
    ∃ s t, SetupTr c.toKvmVcpu s t ∧ c'.rmode = t.rmode := by
  have hmsrs := setupMsr_foldl host vmxMsrIndex c
  rw [setupRest_eq] at h
  generalize vmxMsrIndex.foldl (setupMsr host) c = c1 at h hmsrs
  obtain ⟨t, ht, h⟩ := Option.map_eq_some_iff.1 h
  have hv : c1.vmcs = c.vmcs := by rw [hmsrs.eq]
  refine ⟨_, t, ⟨ht, ?_, ?_, ?_⟩, ?_⟩
  · rw [hmsrs.eq]
    rfl
  · refine Eq.trans ?_ htr
    rw [← hv]
    rfl
  · refine Eq.trans ?_ hiopl
    rw [← hv]
    rfl
  · cases hinit : kvmMmuInit allocs.mmuPages t.toVcpu with
    | mk s' ok =>
      cases ok with
      | false =>
        rw [mmuInit_fail (c := { c1 with toKvmVcpu := t }) hinit] at h
        obtain rfl := congrArg Prod.fst h
        rfl
      | true =>
        rw [mmuInit_ok (c := { c1 with toKvmVcpu := t }) hinit] at h
        obtain rfl := congrArg Prod.fst h
        rfl

theorem startSetup_tr (host : Host) (c : VcpuAlloc) (s : Vcpu) :
    hardwareTr (c.startSetup host s).vmcs = resetTr ∧ guestIopl (c.startSetup host s).vmcs = 0 := by
  have hbase : vmcsReadl (c.startSetup host s).vmcs .guestTrBase = 0 := rfl
  have hlimit : vmcsReadl (c.startSetup host s).vmcs .guestTrLimit = 0xffff := rfl
  have har : vmcsReadl (c.startSetup host s).vmcs .guestTrArBytes = 0x8b := rfl
  have hflags : vmcsReadl (c.startSetup host s).vmcs .guestRflags = 0x02 := rfl
  unfold hardwareTr guestIopl vmcsRead32
  rw [hbase, hlimit, har, hflags]
  exact ⟨by decide, by decide⟩

/-- Set-up fails before it comes to the mode, or it reaches it with the values after reset. -/
theorem kvmVcpuSetup_tr {host : Host} {allocs : Allocs} {c c' : VcpuAlloc} {e : Int}
    (htss : (initRmodeTss c.toVcpu).isSome = true) (h : kvmVcpuSetup host allocs c = some (c', e)) :
    e ≠ 0 ∧ c'.rmode = c.rmode ∨ ∃ s t, SetupTr c.toKvmVcpu s t ∧ c'.rmode = t.rmode := by
  obtain ⟨s, hs⟩ := Option.isSome_iff_exists.1 htss
  cases hg : allocs.guestMsrs with
  | none =>
    rw [kvmVcpuSetup_noGuestMsrs hs hg] at h
    obtain ⟨rfl, rfl⟩ := Prod.mk.inj (Option.some.inj h)
    exact Or.inl ⟨enomem_ne, rfl⟩
  | some p =>
    cases hh : allocs.hostMsrs with
    | none =>
      rw [kvmVcpuSetup_noHostMsrs hs hg hh] at h
      obtain ⟨rfl, rfl⟩ := Prod.mk.inj (Option.some.inj h)
      exact Or.inl ⟨enomem_ne, rfl⟩
    | some q =>
      rw [kvmVcpuSetup_rest hs hg hh] at h
      obtain ⟨htr, hiopl⟩ := startSetup_tr host c s
      obtain ⟨s1, t, ht, hrmode⟩ := setupRest_tr h htr hiopl
      exact Or.inr ⟨s1, t, ⟨ht.mode, ht.rmode, ht.tr, ht.iopl⟩, hrmode⟩

/-- Real mode is entered with a copy of the values after reset, or the copy is still there. -/
theorem SetupTr.copy {c : KvmVcpu} (h : SetupTr c s t) (hc : FreshRmode c.rmode) :
    t.rmode.active = true ∧ t.rmode.tr = resetTr ∧ t.rmode.saveIopl = 0 := by
  have hmode := h.mode
  unfold setupMode at hmode
  split at hmode
  · cases hmode
  · rename_i s1 h1
    have hrmode : t.rmode = (switchRmode s 0x60000010).rmode := by
      rw [(rawSetEfer_spec hmode).eq]
      exact (rawSetCr0_tr h1).kept.rmode
    rw [hrmode]
    rcases switchRmode_cases s 0x60000010 with ⟨heq, hact⟩ | ⟨-, hno, -⟩ | ⟨-, -, heq⟩
    · have hactive : s.rmode.active = true := hact.trans (by decide)
      rw [heq]
      rw [h.rmode] at hactive ⊢
      exact ⟨hactive, hc hactive⟩
    · exact absurd hno (by decide)
    · rw [heq]
      refine ⟨rfl, (enterRmode_tr s).trans h.tr, ?_⟩
      rw [enterRmode_iopl, h.iopl]
      rfl

/-- A vcpu that `kvm_vcpu_setup` has set up, with the task register and the privilege level after reset. -/
def TrSetUp (c : VcpuAlloc) (s : TrVcpu) : Prop :=
  s.tr = resetTr ∧ s.iopl = 0 ∧ ∃ (host : Host) (allocs : Allocs) (c' : VcpuAlloc),
    (initRmodeTss c.toVcpu).isSome = true ∧ kvmVcpuSetup host allocs c = some (c', 0) ∧ s.toKvmVcpu = c'.toKvmVcpu

theorem TrSetUp.setUp {c : VcpuAlloc} (h : TrSetUp c σ) : SetUp σ.toKvmVcpu := by
  obtain ⟨-, -, host, allocs, c', htss, hsetup, heq⟩ := h
  exact ⟨host, allocs, c, c', htss, hsetup, heq⟩

/-- Set-up ends in real mode, as the guest sees it. -/
theorem TrSetUp.real {c : VcpuAlloc} (h : TrSetUp c σ) : guestPe σ.vmcs = false := by
  rw [guestPe_shadow, h.setUp.start.cr0ReadShadow]
  decide

theorem TrSetUp.kept {c : VcpuAlloc} (h : TrSetUp c σ) (hc : FreshRmode c.rmode) : TrKept σ := by
  have hreal := h.real
  obtain ⟨htr, hiopl, host, allocs, c', htss, hsetup, heq⟩ := h
  have hcopy : σ.rmode.active = true ∧ σ.rmode.tr = resetTr ∧ σ.rmode.saveIopl = 0 := by
    rw [heq]
    rcases kvmVcpuSetup_tr htss hsetup with ⟨hno, -⟩ | ⟨s1, t, ht, hrmode⟩
    · exact absurd rfl hno
    · rw [hrmode]
      exact ht.copy hc
  refine ⟨?_, fun hyes => ?_, fun _ => ?_, fun _ => ?_⟩
  · rw [hreal]
    exact hcopy.1
  · exact absurd (hreal.symm.trans hyes) (by decide)
  · rw [htr]
    exact hcopy.2.1
  · rw [hiopl]
    exact hcopy.2.2

/-- What was established is kept by a run that does not lose it. -/
theorem TrKept.run (hs : TrKept σ)
    (hrun : ReflTransGen (fun σ τ => (∃ op : TrOp, op.run σ = some τ ∧ ¬op.Loses σ) ∨ TrElse σ τ) σ τ) : TrKept τ := by
  induction hrun with
  | refl => exact hs
  | tail _ hstep ih =>
    rcases hstep with ⟨op, hop, hno⟩ | helse
    · exact ((TrOp.run_iff ih hop).2 hno).1
    · exact helse.kept ih

/-- **The way out of real mode brings back the task register and the privilege level** along every run in which no
operation loses them. -/
theorem taskRegister_restored {c : VcpuAlloc} {σ₀ σ τ : TrVcpu} {op : TrOp} (hc : FreshRmode c.rmode) (h₀ : TrSetUp c σ₀)
    (hrun : ReflTransGen (fun σ τ => (∃ op : TrOp, op.run σ = some τ ∧ ¬op.Loses σ) ∨ TrElse σ τ) σ₀ σ)
    (hop : op.run σ = some τ) (hno : ¬op.Loses σ) (henters : op.EntersPmode σ τ) : TrRestored τ := by
  have hkept := (h₀.kept hc).run hrun
  exact ((TrOp.run_iff hkept hop).2 hno).2 henters

theorem freshRmode_smallVm : FreshRmode smallVm.rmode := fun hno => absurd hno (by decide)

theorem exists_trSetUp : ∃ s, TrSetUp smallVm s := by
  obtain ⟨c', hc'⟩ := @kvmVcpuSetup_ok eferHost someAllocs smallVm smallVm_tss rfl rfl (fun _ => rfl) rfl
  exact ⟨⟨c'.toKvmVcpu, resetTr, 0⟩, rfl, rfl, eferHost, someAllocs, c', smallVm_tss, hc', rfl⟩

/-- PE alone is loaded, without long mode. -/
theorem trOp_pe (s : TrVcpu) : ∃ t, (TrOp.cr0 cr0PeMask).run s = some ((TrOp.cr0 cr0PeMask).after s t) ∧
    SetCr0Tr s.toKvmVcpu t cr0PeMask ∧ entersLmode s.toKvmVcpu cr0PeMask = false := by
  have hpg : (cr0PeMask &&& cr0PgMask != 0) = false := by decide
  obtain ⟨t, ht⟩ := setCr0_pe s.toKvmVcpu
  refine ⟨t, Option.map_eq_some_iff.2 ⟨t, ht, rfl⟩, ?_, ?_⟩
  · rcases setCr0_cases ht with ⟨hfault, -⟩ | ⟨-, s1, h1, rfl⟩
    · exact absurd (hfault.symm.trans (cr0Faults_pe _)) (by decide)
    · exact (rawSetCr0_tr h1).resetContext
  · unfold entersLmode
    rw [hpg, Bool.and_false, Bool.and_false]

/-- The guest enters protected mode after set-up. -/
theorem taskRegister_restored_boot : ∃ s t, TrSetUp smallVm s ∧ (TrOp.cr0 cr0PeMask).run s = some t ∧ TrRestored t := by
  obtain ⟨s, hs⟩ := exists_trSetUp
  obtain ⟨t, hop, htr, henters⟩ := trOp_pe s
  refine ⟨s, _, hs, hop, taskRegister_restored freshRmode_smallVm hs .refl hop ?_ ⟨hs.real, ?_⟩⟩
  · exact fun hno => absurd (henters.symm.trans hno.2.1) (by decide)
  · exact htr.pe.trans (by decide)

/-- User space loads real mode with another task register. -/
def movedTr : KvmSregs where
  segment seg := ⟨if seg = .tr then 0x1000 else 0, 0xffff, 0, 11, 1, 0, 0, 0, 0, 0, 0, 0⟩
  gdt := ⟨0, 0⟩
  idt := ⟨0, 0⟩
  cr0 := 0
  cr2 := 0
  cr3 := 0
  cr4 := 0
  cr8 := 0
  efer := 0
  apicBase := 0

theorem loaded_tr_lost : ¬∀ (c : VcpuAlloc) (σ₀ σ τ : TrVcpu) (op : TrOp), FreshRmode c.rmode → TrSetUp c σ₀ →
    ReflTransGen (fun σ τ => (∃ op : TrOp, op.run σ = some τ) ∨ TrElse σ τ) σ₀ σ → op.run σ = some τ →
    op.EntersPmode σ τ → TrRestored τ := by
  intro hall
  obtain ⟨s, hs⟩ := exists_trSetUp
  have hkept := hs.kept freshRmode_smallVm
  obtain ⟨i, hi, -⟩ := hs.setUp.start.msr
  obtain ⟨u, hu⟩ := setSregs_isSome (s := s.toKvmVcpu) movedTr (by rw [hi]; rfl)
  obtain ⟨-, hrmode, hpe⟩ := setSregs_tr hu
  have hload : (TrOp.setSregs movedTr).run s = some ((TrOp.setSregs movedTr).after s u) :=
    Option.map_eq_some_iff.2 ⟨u, hu, rfl⟩
  obtain ⟨t, hop, htr, henters⟩ := trOp_pe ((TrOp.setSregs movedTr).after s u)
  have hrestored := hall smallVm s _ _ (.cr0 cr0PeMask) freshRmode_smallVm hs (.single (Or.inl ⟨_, hload⟩)) hop
    ⟨hpe, htr.pe.trans (by decide)⟩
  -- the copy is that of the set-up
  have hactive : u.rmode.active = true := by rw [hrmode]; rfl
  have hold : u.rmode.tr = resetTr := by
    rw [hrmode]
    exact (hkept.copyTr hs.real).trans hs.1
  have hhardware : hardwareTr t.vmcs = resetTr := by
    have hswitch : switchRmode u cr0PeMask = enterPmode u := by
      rcases switchRmode_cases u cr0PeMask with ⟨-, hact⟩ | ⟨-, -, heq⟩ | ⟨hact, -, -⟩
      · exact absurd (hactive.symm.trans hact) (by decide)
      · exact heq
      · exact absurd (hactive.symm.trans hact) (by decide)
    have htr' : hardwareTr t.vmcs = _ := htr.tr
    rw [henters, if_neg (by decide)] at htr'
    rw [htr', ← hold, ← enterPmode_tr, ← hswitch]
    rfl
  have hmoved : hardwareTr t.vmcs = movedTr.tr := hrestored.tr
  exact absurd (hhardware.symm.trans hmoved) (by decide)

end LearnKvm
