import LearnKvm.ExceptionBitmap
import LearnKvm.Interrupts

/-!
# Special registers read and written back (`KVM_GET_SREGS`, `KVM_SET_SREGS`)

User space reads the special registers and writes back what it has read.  Bases, limits and selectors survive, and so do
the control registers, EFER and the base of the APIC, whatever their values.  Of the access rights of a segment those of
the architecture survive, but KVM_GET_SREGS clears the rights of an unusable segment before it looks at the bit that says
so, and a segment comes back usable (`ar_getSegment`).  What is derived from the control registers is derived again: the
entry of EFER, the controls for VM entry and the exception bitmap come back only if they were the derived ones
(`getSregs_setSregs`).
-/

namespace LearnKvm

open Relation

/-! ### The code -/

def arUnusableMask : BitVec 32 := 1#32 <<< 16

/-- `get_segment`. -/
def getSegment (seg : Segment) (v : Vmcs) : KvmSegment :=
  let ar := vmcsRead32 v seg.arBytes
  let ar := if ar &&& arUnusableMask != 0 then 0 else ar
  { base := vmcsReadl v seg.base
    limit := vmcsRead32 v seg.limit
    selector := vmcsRead16 v seg.selector
    type := (ar &&& 15).setWidth 8
    s := ((ar >>> 4) &&& 1).setWidth 8
    dpl := ((ar >>> 5) &&& 3).setWidth 8
    present := ((ar >>> 7) &&& 1).setWidth 8
    avl := ((ar >>> 12) &&& 1).setWidth 8
    l := ((ar >>> 13) &&& 1).setWidth 8
    db := ((ar >>> 14) &&& 1).setWidth 8
    g := ((ar >>> 15) &&& 1).setWidth 8
    unusable := ((ar >>> 16) &&& 1).setWidth 8 }

/-- What KVM_GET_SREGS returns. -/
structure GotSregs extends KvmSregs where
  pendingInt : BitVec 32

/-- `kvm_dev_ioctl_get_sregs`, for the vcpu that `vcpu_load` gives. -/
def getSregs {arch : Arch} (s : IrqVcpu arch) : GotSregs where
  segment seg := getSegment seg s.vmcs
  idt := { limit := (vmcsRead32 s.vmcs .guestIdtrLimit).setWidth 16, base := vmcsReadl s.vmcs .guestIdtrBase }
  gdt := { limit := (vmcsRead32 s.vmcs .guestGdtrLimit).setWidth 16, base := vmcsReadl s.vmcs .guestGdtrBase }
  cr0 := guestCr0 s.vmcs
  cr2 := s.cr2
  cr3 := s.cr3
  cr4 := guestCr4 s.vmcs
  cr8 := s.cr8
  efer := s.shadowEfer
  apicBase := s.apicBase
  pendingInt := if s.irqSummary != 0#_ then 1 else 0

/-- User space writes back what it has read. -/
def sregsWrittenBack (s : IrqVcpu .x86_64) : Option KvmVcpu := setSregs s.toKvmVcpu (getSregs s).toKvmSregs

/-- The value of EFER that is loaded for the guest. -/
def eferEntry (s : KvmVcpu) : Option (BitVec 64) := (findMsrEntry s msrEfer).map fun i => (s.guestMsrs i).data

/-- Everything that the special registers stand for is the same. -/
structure SregsKept (s t : KvmVcpu) : Prop where
  base : ∀ seg : Segment, vmcsReadl t.vmcs seg.base = vmcsReadl s.vmcs seg.base
  limit : ∀ seg : Segment, vmcsRead32 t.vmcs seg.limit = vmcsRead32 s.vmcs seg.limit
  selector : ∀ seg : Segment, vmcsRead16 t.vmcs seg.selector = vmcsRead16 s.vmcs seg.selector
  arBytes : ∀ seg : Segment, vmcsRead32 t.vmcs seg.arBytes = vmcsRead32 s.vmcs seg.arBytes
  idtrBase : vmcsReadl t.vmcs .guestIdtrBase = vmcsReadl s.vmcs .guestIdtrBase
  idtrLimit : vmcsRead32 t.vmcs .guestIdtrLimit = vmcsRead32 s.vmcs .guestIdtrLimit
  gdtrBase : vmcsReadl t.vmcs .guestGdtrBase = vmcsReadl s.vmcs .guestGdtrBase
  gdtrLimit : vmcsRead32 t.vmcs .guestGdtrLimit = vmcsRead32 s.vmcs .guestGdtrLimit
  cr0 : guestCr0 t.vmcs = guestCr0 s.vmcs
  cr2 : t.cr2 = s.cr2
  cr3 : t.cr3 = s.cr3
  cr4 : guestCr4 t.vmcs = guestCr4 s.vmcs
  cr8 : t.cr8 = s.cr8
  efer : t.shadowEfer = s.shadowEfer
  eferEntry : eferEntry t = eferEntry s
  vmEntryControls : vmcsRead32 t.vmcs .vmEntryControls = vmcsRead32 s.vmcs .vmEntryControls
  exceptionBitmap : vmcsRead32 t.vmcs .exceptionBitmap = vmcsRead32 s.vmcs .exceptionBitmap
  apicBase : t.apicBase = s.apicBase

/-- The bits of the access rights that `struct kvm_segment` has fields for. -/
def arFieldsMask : BitVec 32 := 0xf0ff#32

/-- What is derived has its derived value, and no segment is unusable. -/
structure SregsRestorable (s : KvmVcpu) : Prop where
  arBytes : ∀ seg : Segment, vmcsRead32 s.vmcs seg.arBytes &&& ~~~arFieldsMask = 0
  idtrLimit : vmcsRead32 s.vmcs .guestIdtrLimit &&& ~~~0xffff#32 = 0
  gdtrLimit : vmcsRead32 s.vmcs .guestGdtrLimit &&& ~~~0xffff#32 = 0
  eferEntry : MsrLoaded s
  vmEntryControls : isLongMode s.vmcs = s.shadowEfer.hasBit 10
  exceptionBitmap : vmcsRead32 s.vmcs .exceptionBitmap = bitmapFor (guestCr0 s.vmcs &&& cr0PeMask == 0) 0

/-! ### Access rights -/

/-- A field of at most eight bits, taken out and put back. -/
theorem field_putBack (x m : BitVec 32) (k : Nat) (hm : m &&& (1#32 <<< 8 - 1#32) = m) :
    (((((x >>> k) &&& m).setWidth 8).setWidth 32) &&& m) <<< k = x &&& (m <<< k) := by
  have h8 : ∀ i, m.hasBit i = true → i < 8 := by
    intro i hi
    rw [← hm, BitVec.hasBit_and, Bits.hasBit_lowMask (by decide)] at hi
    simpa using (Bool.and_eq_true_iff.1 hi).2
  apply BitVec.eq_of_hasBit
  intro i hi
  simp only [BitVec.hasBit_shiftLeft, BitVec.hasBit_and, BitVec.hasBit_setWidth, BitVec.hasBit_ushiftRight]
  by_cases hk : i < k
  · simp [hk]
  · cases hb : m.hasBit (i - k) with
    | true =>
      have hlt := h8 _ hb
      simp [hlt, hk, hi, show k + (i - k) = i by omega, show i - k < 32 by omega]
    | false => simp

/-- The rights of a segment that has been read and is written back. -/
theorem ar_getSegment (seg : Segment) (v : Vmcs) : (getSegment seg v).ar =
    if vmcsRead32 v seg.arBytes &&& arUnusableMask != 0 then 0 else vmcsRead32 v seg.arBytes &&& arFieldsMask := by
  unfold getSegment
  dsimp only
  generalize vmcsRead32 v seg.arBytes = ar
  cases hun : ar &&& arUnusableMask != 0 with
  | true =>
    rw [if_pos rfl, if_pos rfl]
    simp [KvmSegment.ar]
  | false =>
    have h16 : ar.hasBit 16 = false := (Bits.and_one_shiftLeft_bne_zero (by decide) ar).symm.trans hun
    have husable : ((ar >>> 16) &&& 1#32).setWidth 8 = 0#8 := by
      apply BitVec.eq_of_hasBit
      intro i hi
      have h1 : (1#32).hasBit i = decide (i = 0) := @Bits.hasBit_one_shiftLeft 32 0 (by decide) i
      rw [BitVec.hasBit_setWidth, BitVec.hasBit_and, BitVec.hasBit_ushiftRight, h1, BitVec.hasBit_zero]
      by_cases h0 : i = 0
      · subst h0
        rw [h16]
        rfl
      · simp [h0]
    have htype : ((ar &&& 15).setWidth 8).setWidth 32 &&& 15#32 = ar &&& 15 := by
      have := field_putBack ar 15#32 0 (by decide)
      rwa [BitVec.ushiftRight_zero, BitVec.shiftLeft_zero, BitVec.shiftLeft_zero] at this
    rw [if_neg (by decide), if_neg (by decide)]
    unfold KvmSegment.ar
    dsimp only
    rw [show (ar >>> 16 &&& 1).setWidth 8 = 0#8 from husable, if_neg (by decide),
      show ((15 : Nat) : BitVec 32) = 15#32 from rfl, htype,
      field_putBack ar 1 4 (by decide), field_putBack ar 3 5 (by decide), field_putBack ar 1 7 (by decide),
      field_putBack ar 1 12 (by decide), field_putBack ar 1 13 (by decide), field_putBack ar 1 14 (by decide),
      field_putBack ar 1 15 (by decide)]
    simp only [← BitVec.and_or_distrib_left]
    congr 1

/-! ### What is written -/

/-- The fields that do not come from a segment or a descriptor table. -/
def derivedFields : List VmcsField :=
  [.guestCr3, .vmEntryControls, .exceptionBitmap, .cr0ReadShadow, .guestCr0, .cr4ReadShadow, .guestCr4]

theorem guestCr0_load {v : Vmcs} {cr0 : BitVec 64} (hshadow : v .cr0ReadShadow = cr0)
    (hcr0 : v .guestCr0 = cr0 ||| kvmVmCr0AlwaysOn) : guestCr0 v = cr0 := by
  unfold guestCr0 vmcsReadl
  rw [hshadow, hcr0]
  apply BitVec.eq_of_hasBit
  intro i hi
  rw [show kvmVmCr0AlwaysOn = kvmGuestCr0Mask from rfl]
  cases hm : kvmGuestCr0Mask.hasBit i with
  | true => simp [hm]
  | false => simp [hm, hi]

theorem guestCr4_load {v : Vmcs} {cr4 : BitVec 64} {active : Bool} (hshadow : v .cr4ReadShadow = cr4)
    (hcr4 : v .guestCr4 = cr4 ||| cr4AlwaysOn active) : guestCr4 v = cr4 := by
  have hon : cr4AlwaysOn active &&& ~~~kvmGuestCr4Mask = 0 := by
    cases active <;> decide
  unfold guestCr4 vmcsReadl
  rw [hshadow, hcr4, BitVec.and_or_distrib_right, hon]
  apply BitVec.eq_of_hasBit
  intro i hi
  cases hm : kvmGuestCr4Mask.hasBit i with
  | true => simp [hm]
  | false => simp [hm, hi]

/-- The controls for VM entry after `__set_efer`. -/
theorem rawSetEfer_vmEntryControls {s t : KvmVcpu} {efer : BitVec 64} (h : rawSetEfer s efer = some t) :
    vmcsRead32 t.vmcs .vmEntryControls =
      if efer.hasBit 10 then vmcsRead32 s.vmcs .vmEntryControls ||| vmEntryControlsIa32eMask
      else vmcsRead32 s.vmcs .vmEntryControls &&& ~~~vmEntryControlsIa32eMask := by
  unfold rawSetEfer at h
  split at h
  · cases h
  · dsimp only at h
    rw [lma_eq] at h
    cases hlma : efer.hasBit 10 with
    | true =>
      rw [hlma, if_pos rfl] at h
      obtain rfl := Option.some.inj h
      exact vmcsRead32_vmcsWrite32 ..
    | false =>
      rw [hlma, if_neg (by decide)] at h
      obtain rfl := Option.some.inj h
      exact vmcsRead32_vmcsWrite32 ..

/-- Setting or clearing the bit of long mode changes nothing when it has this value. -/
theorem vmEntryControls_kept_iff (v : Vmcs) (b : Bool) :
    (if b then vmcsRead32 v .vmEntryControls ||| vmEntryControlsIa32eMask
      else vmcsRead32 v .vmEntryControls &&& ~~~vmEntryControlsIa32eMask) = vmcsRead32 v .vmEntryControls ↔
      isLongMode v = b := by
  have hmode : isLongMode v = (vmcsRead32 v .vmEntryControls).hasBit 9 :=
    Bits.and_one_shiftLeft_bne_zero (by decide) _
  have hmask : ∀ i, vmEntryControlsIa32eMask.hasBit i = decide (i = 9) := Bits.hasBit_one_shiftLeft (by decide)
  rw [hmode]
  generalize vmcsRead32 v .vmEntryControls = x
  constructor
  · intro h
    rw [← h]
    cases b <;> simp [hmask]
  · rintro rfl
    apply BitVec.eq_of_hasBit
    intro i hi
    by_cases h9 : i = 9
    · subst h9
      cases hx : x.hasBit 9 <;> simp [hmask, hx]
    · cases hx : x.hasBit 9 <;> simp [hmask, h9, hi]

variable {s t : KvmVcpu} {sregs : KvmSregs}

/-- What the registers stand for after they have been written. -/
structure SregsWritten (sregs : KvmSregs) (s t : KvmVcpu) : Prop where
  fields : ∀ f, f ∉ derivedFields → t.vmcs f = setSegments sregs s.vmcs f
  cr0 : guestCr0 t.vmcs = sregs.cr0
  cr2 : t.cr2 = sregs.cr2
  cr3 : t.cr3 = sregs.cr3
  cr4 : guestCr4 t.vmcs = sregs.cr4
  cr8 : t.cr8 = sregs.cr8
  efer : t.shadowEfer = sregs.efer
  eferEntry : eferEntry t = some (loadedEfer sregs.efer)
  vmEntryControls : vmcsRead32 t.vmcs .vmEntryControls =
    if sregs.efer.hasBit 10 then vmcsRead32 s.vmcs .vmEntryControls ||| vmEntryControlsIa32eMask
    else vmcsRead32 s.vmcs .vmEntryControls &&& ~~~vmEntryControlsIa32eMask
  exceptionBitmap : vmcsRead32 t.vmcs .exceptionBitmap = bitmapFor (sregs.cr0 &&& cr0PeMask == 0) 0
  apicBase : t.apicBase = sregs.apicBase

/-- Nothing that the registers stand for changes when the context is replaced. -/
theorem SregsWritten.resetContext (h : SregsWritten sregs s t) : SregsWritten sregs s t.resetContext := by
  have hctx := ContextOnly.kvmMmuResetContext t.toVcpu
  have hvmcs : ∀ f, f ≠ .guestCr3 → t.resetContext.vmcs f = t.vmcs f := hctx.vmcs
  constructor
  · intro f hf
    have hne : f ≠ .guestCr3 := fun heq => hf (by rw [heq]; decide)
    rw [hvmcs f hne, h.fields f hf]
  · rw [guestCr0_congr (hvmcs _ (by decide)) (hvmcs _ (by decide)), h.cr0]
  · exact hctx.cr2.trans h.cr2
  · exact hctx.cr3.trans h.cr3
  · rw [guestCr4_congr (hvmcs _ (by decide)) (hvmcs _ (by decide)), h.cr4]
  · exact h.cr8
  · exact h.efer
  · exact h.eferEntry
  · unfold vmcsRead32 vmcsReadl
    rw [hvmcs _ (by decide)]
    exact h.vmEntryControls
  · unfold vmcsRead32 vmcsReadl
    rw [hvmcs _ (by decide)]
    exact h.exceptionBitmap
  · exact h.apicBase

theorem loadCrs_kept (v : KvmVcpu) (sregs : KvmSregs) {f : VmcsField} (hf : f ∉ derivedFields) :
    (loadCrs v sregs).vmcs f = v.vmcs f := by
  simp only [derivedFields, List.mem_cons, List.not_mem_nil, or_false, not_or] at hf
  obtain ⟨-, -, hbitmap, hshadow0, hcr0, hshadow4, hcr4⟩ := hf
  have hupdate := updateExceptionBitmap_kept { v with
    apicBase := sregs.apicBase
    rmode := { v.rmode with active := sregs.cr0 &&& cr0PeMask == 0 } } hbitmap
  generalize hu : updateExceptionBitmap { v with
    apicBase := sregs.apicBase
    rmode := { v.rmode with active := sregs.cr0 &&& cr0PeMask == 0 } } = u at hupdate
  have hload : (loadCrs v sregs).vmcs f = u.vmcs f := by
    unfold loadCrs
    dsimp only
    rw [hu]
    exact (vmcsReadl_vmcsWritel_of_ne hcr4).trans <| (vmcsReadl_vmcsWritel_of_ne hshadow4).trans <|
      (vmcsReadl_vmcsWritel_of_ne hcr0).trans (vmcsReadl_vmcsWritel_of_ne hshadow0)
  exact hload.trans hupdate

/-- The controls for VM entry are not touched by the loading of CR0 and CR4. -/
theorem loadCrs_vmEntryControls (v : KvmVcpu) (sregs : KvmSregs) :
    (loadCrs v sregs).vmcs .vmEntryControls = v.vmcs .vmEntryControls :=
  updateExceptionBitmap_kept { v with
    apicBase := sregs.apicBase
    rmode := { v.rmode with active := sregs.cr0 &&& cr0PeMask == 0 } } (by decide)

theorem loadCrs_written {v v' : KvmVcpu} (hv : v = { s with
      vmcs := setSegments sregs s.vmcs
      cr2 := sregs.cr2
      cr3 := sregs.cr3
      cr8 := sregs.cr8 }) (h : rawSetEfer v sregs.efer = some v') : SregsWritten sregs s (loadCrs v' sregs) := by
  obtain ⟨heq, hkept, -, i, -, hi, hdata⟩ := rawSetEfer_spec h
  have hcontrols := rawSetEfer_vmEntryControls h
  rw [loadedEfer_eq] at hdata
  constructor
  · intro f hf
    have hne : f ≠ .vmEntryControls := fun h => hf (by rw [h]; decide)
    rw [loadCrs_kept v' _ hf, hkept f hne, hv]
  · exact guestCr0_load rfl rfl
  · show v'.cr2 = sregs.cr2
    rw [heq, hv]
  · show v'.cr3 = sregs.cr3
    rw [heq, hv]
  · exact @guestCr4_load _ _ (sregs.cr0 &&& cr0PeMask == 0) rfl rfl
  · show v'.cr8 = sregs.cr8
    rw [heq, hv]
  · show v'.shadowEfer = sregs.efer
    rw [heq]
  · have hfind : findMsrEntry (loadCrs v' sregs) msrEfer = some i := hi
    unfold eferEntry
    rw [hfind, Option.map_some]
    exact congrArg some hdata
  · have hold : v.vmcs .vmEntryControls = s.vmcs .vmEntryControls := by
      rw [hv]
      exact setSegments_kept sregs s.vmcs (f := .vmEntryControls) (by decide)
    unfold vmcsRead32 vmcsReadl at hcontrols ⊢
    rw [loadCrs_vmEntryControls, hcontrols, hold]
  · exact loadCrs_freshBitmap v' _
  · rfl

theorem setSregs_written (h : setSregs s sregs = some t) : SregsWritten sregs s t := by
  rw [setSregs_eq] at h
  obtain ⟨s1, h1, rfl⟩ := Option.map_eq_some_iff.1 h
  have hloaded := loadCrs_written rfl h1
  dsimp only
  split
  · exact hloaded.resetContext
  · exact hloaded

/-- Writing succeeds when EFER has an entry. -/
theorem setSregs_isSome (sregs : KvmSregs) (h : (findMsrEntry s msrEfer).isSome = true) : ∃ t, setSregs s sregs = some t := by
  rw [← Option.isSome_iff_exists, setSregs_eq, Option.isSome_map, rawSetEfer_isSome]
  exact h

/-! ### Segments and descriptor tables -/

/-- The fields of a segment after all segments have been written. -/
structure SegmentWritten (var : KvmSegment) (seg : Segment) (v : Vmcs) : Prop where
  base : v seg.base = var.base
  limit : v seg.limit = var.limit.setWidth 64
  selector : v seg.selector = var.selector.setWidth 64
  arBytes : v seg.arBytes = var.ar.setWidth 64

theorem setSegments_segment (sregs : KvmSregs) (v : Vmcs) (seg : Segment) :
    SegmentWritten (sregs.segment seg) seg (setSegments sregs v) := by
  cases seg <;> exact ⟨rfl, rfl, rfl, rfl⟩

theorem segmentFields_not_derived (seg : Segment) : seg.base ∉ derivedFields ∧ seg.limit ∉ derivedFields ∧
    seg.selector ∉ derivedFields ∧ seg.arBytes ∉ derivedFields := by
  cases seg <;> decide

theorem SregsWritten.segment (h : SregsWritten sregs s t) (seg : Segment) :
    SegmentWritten (sregs.segment seg) seg t.vmcs := by
  obtain ⟨hbase, hlimit, hselector, har⟩ := segmentFields_not_derived seg
  have hw := setSegments_segment sregs s.vmcs seg
  exact ⟨(h.fields _ hbase).trans hw.base, (h.fields _ hlimit).trans hw.limit, (h.fields _ hselector).trans hw.selector,
    (h.fields _ har).trans hw.arBytes⟩

theorem SregsWritten.arBytes (h : SregsWritten sregs s t) (seg : Segment) :
    vmcsRead32 t.vmcs seg.arBytes = (sregs.segment seg).ar := by
  unfold vmcsRead32 vmcsReadl
  rw [(h.segment seg).arBytes]
  exact (BitVec.setWidth_setWidth_of_le _ (by decide)).trans (BitVec.setWidth_eq _)

theorem SregsWritten.idtrLimit (h : SregsWritten sregs s t) :
    vmcsRead32 t.vmcs .guestIdtrLimit = sregs.idt.limit.setWidth 32 := by
  have hwritten : t.vmcs .guestIdtrLimit = (sregs.idt.limit.setWidth 32).setWidth 64 := h.fields _ (by decide)
  unfold vmcsRead32 vmcsReadl
  rw [hwritten]
  exact BitVec.setWidth_setWidth_of_le _ (by decide)

theorem SregsWritten.gdtrLimit (h : SregsWritten sregs s t) :
    vmcsRead32 t.vmcs .guestGdtrLimit = sregs.gdt.limit.setWidth 32 := by
  have hwritten : t.vmcs .guestGdtrLimit = (sregs.gdt.limit.setWidth 32).setWidth 64 := h.fields _ (by decide)
  unfold vmcsRead32 vmcsReadl
  rw [hwritten]
  exact BitVec.setWidth_setWidth_of_le _ (by decide)

/-! ### The round trip -/

/-- A word has no bits outside of a mask exactly if the mask leaves it alone. -/
theorem and_not_eq_zero_iff {w : Nat} (x m : BitVec w) : x &&& ~~~m = 0#w ↔ x &&& m = x := by
  constructor
  · intro h
    apply BitVec.eq_of_hasBit
    intro i hi
    have hbit := congrArg (BitVec.hasBit · i) h
    simp only [BitVec.hasBit_and, BitVec.hasBit_not, BitVec.hasBit_zero] at hbit
    rw [BitVec.hasBit_and]
    cases hx : x.hasBit i with
    | true => simpa [hx, hi] using hbit
    | false => rfl
  · intro h
    rw [← h, BitVec.and_assoc, BitVec.and_not_self]
    exact BitVec.and_zero

/-- The rights come back exactly if they have no bits without a field. -/
theorem arBytes_kept_iff (ar : BitVec 32) :
    (if ar &&& arUnusableMask != 0 then 0 else ar &&& arFieldsMask) = ar ↔ ar &&& ~~~arFieldsMask = 0 := by
  have hunusable : ar &&& ~~~arFieldsMask = 0 → ar &&& arUnusableMask = 0 := by
    intro h
    have hsub : arUnusableMask = ~~~arFieldsMask &&& arUnusableMask := by decide
    rw [hsub, ← BitVec.and_assoc, h]
    exact BitVec.zero_and
  constructor
  · intro h
    split at h
    · rename_i hbit
      rw [← h] at hbit
      exact absurd hbit (by decide)
    · exact (and_not_eq_zero_iff ar arFieldsMask).2 h
  · intro h
    rw [hunusable h, if_neg (by decide)]
    exact (and_not_eq_zero_iff ar arFieldsMask).1 h

theorem limit_kept_iff (x : BitVec 32) : (x.setWidth 16).setWidth 32 = x ↔ x &&& ~~~0xffff#32 = 0 := by
  have hlow : (x.setWidth 16).setWidth 32 = x &&& 0xffff#32 := by
    apply BitVec.eq_of_hasBit
    intro i hi
    have hmask : (0xffff#32).hasBit i = decide (i < 16) := @Bits.hasBit_lowMask 32 16 (by decide) i
    rw [BitVec.hasBit_setWidth, BitVec.hasBit_setWidth, BitVec.hasBit_and, hmask]
    simp [hi, Bool.and_comm]
  rw [hlow]
  exact (and_not_eq_zero_iff x 0xffff#32).symm

theorem msrLoaded_iff (v : KvmVcpu) : MsrLoaded v ↔ eferEntry v = some (loadedEfer v.shadowEfer) :=
  Option.map_eq_some_iff.symm

theorem SregsWritten.kept_iff {s : IrqVcpu .x86_64} (h : SregsWritten (getSregs s).toKvmSregs s.toKvmVcpu t) :
    SregsKept s.toKvmVcpu t ↔ SregsRestorable s.toKvmVcpu := by
  have har : ∀ seg : Segment, vmcsRead32 t.vmcs seg.arBytes = if vmcsRead32 s.vmcs seg.arBytes &&& arUnusableMask != 0
      then 0 else vmcsRead32 s.vmcs seg.arBytes &&& arFieldsMask := by
    intro seg
    exact (h.arBytes seg).trans (ar_getSegment seg s.vmcs)
  constructor
  · intro hkept
    constructor
    · intro seg
      exact (arBytes_kept_iff _).1 ((har seg).symm.trans (hkept.arBytes seg))
    · exact (limit_kept_iff _).1 (h.idtrLimit.symm.trans hkept.idtrLimit)
    · exact (limit_kept_iff _).1 (h.gdtrLimit.symm.trans hkept.gdtrLimit)
    · exact (msrLoaded_iff _).2 (hkept.eferEntry.symm.trans h.eferEntry)
    · exact (vmEntryControls_kept_iff _ _).1 (h.vmEntryControls.symm.trans hkept.vmEntryControls)
    · exact hkept.exceptionBitmap.symm.trans h.exceptionBitmap
  · intro hs
    have hwidth : ∀ x : BitVec 32, (x.setWidth 64).setWidth 32 = x := fun x =>
      (BitVec.setWidth_setWidth_of_le x (by decide)).trans (BitVec.setWidth_eq x)
    constructor
    · intro seg
      exact (h.segment seg).base
    · intro seg
      unfold vmcsRead32 vmcsReadl
      rw [(h.segment seg).limit]
      exact hwidth _
    · intro seg
      unfold vmcsRead16 vmcsReadl
      rw [(h.segment seg).selector]
      exact BitVec.setWidth_setWidth_of_le _ (by decide)
    · intro seg
      exact (har seg).trans ((arBytes_kept_iff _).2 (hs.arBytes seg))
    · exact h.fields .guestIdtrBase (by decide)
    · exact h.idtrLimit.trans ((limit_kept_iff _).2 hs.idtrLimit)
    · exact h.fields .guestGdtrBase (by decide)
    · exact h.gdtrLimit.trans ((limit_kept_iff _).2 hs.gdtrLimit)
    · exact h.cr0
    · exact h.cr2
    · exact h.cr3
    · exact h.cr4
    · exact h.cr8
    · exact h.efer
    · exact h.eferEntry.trans ((msrLoaded_iff _).1 hs.eferEntry).symm
    · exact h.vmEntryControls.trans ((vmEntryControls_kept_iff _ _).2 hs.vmEntryControls)
    · exact h.exceptionBitmap.trans hs.exceptionBitmap.symm
    · exact h.apicBase

/-- **Reading the special registers and writing them back** gives the old registers exactly if no segment is unusable or
has other rights without a field, the limits of the descriptor tables have 16 bits, and the entry of EFER, the controls
for VM entry and the exception bitmap are those that EFER and CR0 determine. -/
theorem getSregs_setSregs (s : IrqVcpu .x86_64) :
    (∃ t, sregsWrittenBack s = some t ∧ SregsKept s.toKvmVcpu t) ↔ SregsRestorable s.toKvmVcpu := by
  constructor
  · rintro ⟨t, ht, hkept⟩
    exact (setSregs_written ht).kept_iff.1 hkept
  · intro hs
    obtain ⟨i, hi, -⟩ := hs.eferEntry
    obtain ⟨t, ht⟩ := setSregs_isSome (s := s.toKvmVcpu) (getSregs s).toKvmSregs (by rw [hi]; rfl)
    exact ⟨t, ht, (setSregs_written ht).kept_iff.2 hs⟩

/-! ### Registers from user space -/

theorem ar_fields {var : KvmSegment} (h : var.unusable = 0) : var.ar &&& ~~~arFieldsMask = 0 := by
  have hfield : ∀ (x m : BitVec 32) (k : Nat), m <<< k &&& ~~~arFieldsMask = 0 →
      (x &&& m) <<< k &&& ~~~arFieldsMask = 0 := by
    intro x m k hm
    rw [BitVec.shiftLeft_and_distrib, BitVec.and_assoc, hm]
    exact BitVec.and_zero
  have htype : (var.type.setWidth 32 &&& 15#32) &&& ~~~arFieldsMask = 0 := by
    rw [BitVec.and_assoc]
    exact BitVec.and_zero
  unfold KvmSegment.ar
  rw [h, if_neg (by decide), show ((15 : Nat) : BitVec 32) = 15#32 from rfl]
  simp only [BitVec.and_or_distrib_right]
  rw [htype, hfield _ 1 4 (by decide), hfield _ 3 5 (by decide), hfield _ 1 7 (by decide), hfield _ 1 12 (by decide),
    hfield _ 1 13 (by decide), hfield _ 1 14 (by decide), hfield _ 1 15 (by decide)]
  rfl

/-- A limit of 16 bits. -/
theorem limit_and_not (x : BitVec 16) : x.setWidth 32 &&& ~~~0xffff#32 = 0 := by
  apply (limit_kept_iff _).1
  rw [BitVec.setWidth_setWidth_of_le x (by decide), BitVec.setWidth_eq]

/-- What user space has written can be read and written back, unless it has made a segment unusable. -/
theorem SregsWritten.restorable (h : SregsWritten sregs s t) (husable : ∀ seg, (sregs.segment seg).unusable = 0) :
    SregsRestorable t := by
  constructor
  · intro seg
    rw [h.arBytes]
    exact ar_fields (husable seg)
  · rw [h.idtrLimit]
    exact limit_and_not _
  · rw [h.gdtrLimit]
    exact limit_and_not _
  · rw [msrLoaded_iff, h.efer]
    exact h.eferEntry
  · have hmask : vmEntryControlsIa32eMask.hasBit 9 = true := by decide
    rw [h.efer]
    refine (Bits.and_one_shiftLeft_bne_zero (by decide) _).trans ?_
    rw [h.vmEntryControls]
    cases sregs.efer.hasBit 10 with
    | true => simp [hmask]
    | false => simp [hmask]
  · rw [h.cr0]
    exact h.exceptionBitmap

/-- User space makes the LDT unusable. -/
def unusableLdt : KvmSregs where
  segment seg := ⟨0, 0, 0, 0, 0, 0, 0, 0, 0, 0, 0, if seg = .ldtr then 1 else 0⟩
  gdt := ⟨0, 0⟩
  idt := ⟨0, 0⟩
  cr0 := cr0PeMask
  cr2 := 0
  cr3 := 0
  cr4 := 0
  cr8 := 0
  efer := 0
  apicBase := 0

theorem unusable_segment_lost : ¬∀ (s₀ : KvmVcpu) (s : IrqVcpu .x86_64), SetUp s₀ →
    ReflTransGen (fun u v => ∃ op : ModeOp, op.run u = some v) s₀ s.toKvmVcpu →
    ∃ t, sregsWrittenBack s = some t ∧ SregsKept s.toKvmVcpu t := by
  intro hall
  obtain ⟨s₀, h₀⟩ := setUp_smallVm
  obtain ⟨i, hi, -⟩ := h₀.start.longModeCoherent.msr
  obtain ⟨s, hs⟩ := setSregs_isSome (s := s₀) unusableLdt (by rw [hi]; rfl)
  have hwritten := setSregs_written hs
  obtain ⟨t, ht, hkept⟩ := hall s₀ { s with irqSummary := 0, irqPending := fun _ => 0 } h₀
    (.single ⟨.setSregs unusableLdt, hs⟩)
  have har := ((setSregs_written ht).kept_iff.1 hkept).arBytes .ldtr
  have hldt : vmcsRead32 s.vmcs Segment.ldtr.arBytes = arUnusableMask := hwritten.arBytes .ldtr
  rw [hldt] at har
  exact absurd har (by decide)

end LearnKvm
