import LearnKvm.GuestWrites

/-!
# Special registers from user space (`KVM_SET_SREGS`)

User space replaces the segments, the descriptor tables, the control registers and EFER of a loaded vcpu.  The context
of the MMU is replaced when CR3, EFER, CR0 or CR4 has changed (`setSregs_spec`).
-/

namespace LearnKvm

variable {s t : KvmVcpu}

structure KvmSegment where
  base : BitVec 64
  limit : BitVec 32
  selector : BitVec 16
  type : BitVec 8
  present : BitVec 8
  dpl : BitVec 8
  db : BitVec 8
  s : BitVec 8
  l : BitVec 8
  g : BitVec 8
  avl : BitVec 8
  unusable : BitVec 8

structure KvmDtable where
  base : BitVec 64
  limit : BitVec 16

structure KvmSregs where
  segment : Segment → KvmSegment
  gdt : KvmDtable
  idt : KvmDtable
  cr0 : BitVec 64
  cr2 : BitVec 64
  cr3 : BitVec 64
  cr4 : BitVec 64
  cr8 : BitVec 64
  efer : BitVec 64
  apicBase : BitVec 64

/-- The access rights in the format of the VMCS. -/
def KvmSegment.ar (var : KvmSegment) : BitVec 32 :=
  if var.unusable != 0 then 1#32 <<< 16
  else
    (var.type.setWidth 32 &&& 15) ||| ((var.s.setWidth 32 &&& 1) <<< 4) ||| ((var.dpl.setWidth 32 &&& 3) <<< 5) |||
      ((var.present.setWidth 32 &&& 1) <<< 7) ||| ((var.avl.setWidth 32 &&& 1) <<< 12) |||
      ((var.l.setWidth 32 &&& 1) <<< 13) ||| ((var.db.setWidth 32 &&& 1) <<< 14) ||| ((var.g.setWidth 32 &&& 1) <<< 15)

def setSegment (var : KvmSegment) (seg : Segment) (v : Vmcs) : Vmcs :=
  let v := vmcsWritel v seg.base var.base
  let v := vmcsWrite32 v seg.limit var.limit
  let v := vmcsWrite16 v seg.selector var.selector
  vmcsWrite32 v seg.arBytes var.ar

/-- The segments and the descriptor tables. -/
def setSegments (sregs : KvmSregs) (v : Vmcs) : Vmcs :=
  let v := [Segment.cs, .ds, .es, .fs, .gs, .ss, .tr, .ldtr].foldl (fun v seg => setSegment (sregs.segment seg) seg v) v
  let v := vmcsWritel (vmcsWrite32 v .guestIdtrLimit (sregs.idt.limit.setWidth 32)) .guestIdtrBase sregs.idt.base
  vmcsWritel (vmcsWrite32 v .guestGdtrLimit (sregs.gdt.limit.setWidth 32)) .guestGdtrBase sregs.gdt.base

/-- `kvm_dev_ioctl_set_sregs`, for the vcpu that `vcpu_load` gives. -/
def setSregs (s : KvmVcpu) (sregs : KvmSregs) : Option KvmVcpu :=
  let s := s.setVmcs (setSegments sregs s.vmcs)
  let s := { s with cr2 := sregs.cr2 }
  let mmuResetNeeded := s.cr3 != sregs.cr3
  let s := { s with cr3 := sregs.cr3, cr8 := sregs.cr8 }
  let mmuResetNeeded := mmuResetNeeded || s.shadowEfer != sregs.efer
  match rawSetEfer s sregs.efer with
  | none => none
  | some s =>
    let s := { s with apicBase := sregs.apicBase }
    let mmuResetNeeded := mmuResetNeeded || guestCr0 s.vmcs != sregs.cr0
    let s := updateExceptionBitmap { s with rmode := { s.rmode with active := sregs.cr0 &&& cr0PeMask == 0 } }
    let s := s.setVmcs
      (vmcsWritel (vmcsWritel s.vmcs .cr0ReadShadow sregs.cr0) .guestCr0 (sregs.cr0 ||| kvmVmCr0AlwaysOn))
    let mmuResetNeeded := mmuResetNeeded || guestCr4 s.vmcs != sregs.cr4
    let s := rawSetCr4 s sregs.cr4
    some (if mmuResetNeeded then s.resetContext else s)

/-- The registers that decide whether the context is replaced. -/
def sregsDiffer (s : KvmVcpu) (sregs : KvmSregs) : Bool :=
  s.cr3 != sregs.cr3 || s.shadowEfer != sregs.efer || guestCr0 s.vmcs != sregs.cr0 || guestCr4 s.vmcs != sregs.cr4

/-- The registers have been replaced, and nothing of the MMU. -/
structure SregsLoaded (sregs : KvmSregs) (s t : KvmVcpu) : Prop where
  toVcpu : t.toVcpu = { s.toVcpu with vmcs := t.vmcs, cr2 := sregs.cr2, cr3 := sregs.cr3 }
  guestCr3 : t.vmcs .guestCr3 = s.vmcs .guestCr3
  cr0ReadShadow : t.vmcs .cr0ReadShadow = sregs.cr0
  guestCr0 : t.vmcs .guestCr0 = sregs.cr0 ||| kvmVmCr0AlwaysOn
  cr4ReadShadow : t.vmcs .cr4ReadShadow = sregs.cr4
  guestCr4 : t.vmcs .guestCr4 =
    sregs.cr4 ||| (if t.rmode.active then kvmRmodeVmCr4AlwaysOn else kvmPmodeVmCr4AlwaysOn)
  rmode : t.rmode.active = (sregs.cr0 &&& cr0PeMask == 0)
  shadowEfer : t.shadowEfer = sregs.efer
  longMode : isLongMode t.vmcs = sregs.efer.hasBit 10

theorem setSegments_kept (sregs : KvmSregs) (v : Vmcs) {f : VmcsField} (hf : f ∈ VmcsField.guestCr3 :: modeFields) :
    setSegments sregs v f = v f := by
  fin_cases hf <;> rfl

theorem updateExceptionBitmap_kept (s : KvmVcpu) {f : VmcsField} (hf : f ≠ .exceptionBitmap) :
    (updateExceptionBitmap s).vmcs f = s.vmcs f := by
  unfold updateExceptionBitmap KvmVcpu.setVmcs
  dsimp only
  split <;> exact vmcsReadl_vmcsWritel_of_ne hf

theorem updateExceptionBitmap_eq (s : KvmVcpu) :
    updateExceptionBitmap s = s.setVmcs (updateExceptionBitmap s).vmcs := rfl

/-- The state between `__set_efer` and the check whether the context is to be replaced. -/
def loadCrs (s : KvmVcpu) (sregs : KvmSregs) : KvmVcpu :=
  let s := updateExceptionBitmap { s with
    apicBase := sregs.apicBase
    rmode := { s.rmode with active := sregs.cr0 &&& cr0PeMask == 0 } }
  let s := s.setVmcs
    (vmcsWritel (vmcsWritel s.vmcs .cr0ReadShadow sregs.cr0) .guestCr0 (sregs.cr0 ||| kvmVmCr0AlwaysOn))
  rawSetCr4 s sregs.cr4

theorem setSregs_eq (s : KvmVcpu) (sregs : KvmSregs) : setSregs s sregs =
    (rawSetEfer { s with vmcs := setSegments sregs s.vmcs, cr2 := sregs.cr2, cr3 := sregs.cr3, cr8 := sregs.cr8 }
      sregs.efer).map fun s1 =>
        let u := updateExceptionBitmap { s1 with
          apicBase := sregs.apicBase
          rmode := { s1.rmode with active := sregs.cr0 &&& cr0PeMask == 0 } }
        if s.cr3 != sregs.cr3 || s.shadowEfer != sregs.efer || guestCr0 s1.vmcs != sregs.cr0 ||
            guestCr4 (vmcsWritel (vmcsWritel u.vmcs .cr0ReadShadow sregs.cr0) .guestCr0
              (sregs.cr0 ||| kvmVmCr0AlwaysOn)) != sregs.cr4
        then (loadCrs s1 sregs).resetContext else loadCrs s1 sregs := by
  unfold setSregs
  dsimp only
  generalize hs1 : rawSetEfer _ sregs.efer = m
  have hm : rawSetEfer { s with
      vmcs := setSegments sregs s.vmcs
      cr2 := sregs.cr2
      cr3 := sregs.cr3
      cr8 := sregs.cr8 } sregs.efer = m := hs1
  rw [hm]
  cases m <;> rfl

theorem guestCr0_congr {v v' : Vmcs} (h : v' .cr0ReadShadow = v .cr0ReadShadow) (h' : v' .guestCr0 = v .guestCr0) :
    guestCr0 v' = guestCr0 v := by
  unfold guestCr0 vmcsReadl
  rw [h, h']

theorem guestCr4_congr {v v' : Vmcs} (h : v' .cr4ReadShadow = v .cr4ReadShadow) (h' : v' .guestCr4 = v .guestCr4) :
    guestCr4 v' = guestCr4 v := by
  unfold guestCr4 vmcsReadl
  rw [h, h']

/-- The registers are loaded, and the context is replaced if one of them differs. -/
theorem setSregs_spec {sregs : KvmSregs} (h : setSregs s sregs = some t) :
    ∃ s1, SregsLoaded sregs s s1 ∧ t = if sregsDiffer s sregs then s1.resetContext else s1 := by
  rw [setSregs_eq] at h
  obtain ⟨s1, h1, rfl⟩ := Option.map_eq_some_iff.1 h
  have hefer := rawSetEfer_spec h1
  have hkept : ∀ f ∈ [VmcsField.guestCr3, .cr0ReadShadow, .guestCr0, .cr4ReadShadow, .guestCr4],
      s1.vmcs f = s.vmcs f := by
    intro f hf
    refine (hefer.kept f ?_).trans (setSegments_kept sregs s.vmcs ?_) <;> fin_cases hf <;> decide
  have hbitmap : ∀ f, f ≠ .exceptionBitmap → (updateExceptionBitmap { s1 with
      apicBase := sregs.apicBase
      rmode := { s1.rmode with active := sregs.cr0 &&& cr0PeMask == 0 } }).vmcs f = s1.vmcs f :=
    fun f hf => updateExceptionBitmap_kept _ hf
  have hcr0 : guestCr0 s1.vmcs = guestCr0 s.vmcs := guestCr0_congr (hkept _ (by decide)) (hkept _ (by decide))
  refine ⟨loadCrs s1 sregs, ?_, ?_⟩
  · refine ⟨?_, ?_, rfl, rfl, rfl, rfl, rfl, ?_, ?_⟩
    · unfold loadCrs
      dsimp only
      rw [updateExceptionBitmap_eq, hefer.eq]
      rfl
    · exact (hbitmap _ (by decide)).trans (hkept _ (by decide))
    · show s1.shadowEfer = sregs.efer
      rw [hefer.eq]
    · rw [← hefer.longMode, isLongMode_eq, isLongMode_eq]
      exact congrArg (BitVec.hasBit · 9) (hbitmap .vmEntryControls (by decide))
  · dsimp only
    unfold sregsDiffer
    rw [hcr0, guestCr4_congr (v := s.vmcs)]
    · exact (hbitmap _ (by decide)).trans (hkept _ (by decide))
    · exact (hbitmap _ (by decide)).trans (hkept _ (by decide))

end LearnKvm
