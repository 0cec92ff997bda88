import LearnKvm.GuestMemory
import LearnKvm.GuestWrites

/-!
# Emulated real mode as virtual-8086 mode (`enter_rmode`, `inject_rmode_irq`)

A virtual machine enters virtual-8086 mode only if the base of every segment is its selector shifted left by four, and
limits and access rights have fixed values (`vmEntryTestVirtual8086`, the checks of `vm_entry_test_guest`).  The delivery
of an interrupt and what the guest does in this mode keep these rules (`RmodeStep.vir8086`).  `enter_rmode` establishes
them only for segments that real mode could have loaded: it keeps the base of every segment, whatever it is, and the limit
of CS (`vir8086_after_setCr0`).
-/

namespace LearnKvm

open Relation

variable {s t : KvmVcpu}

/-! ### The delivery of an interrupt -/

/-- The last part of `inject_rmode_irq`: the guest continues at the vector `ent`, below the words pushed on its stack. -/
def loadRmodeVector (v : Vmcs) (ent0 ent1 sp : BitVec 16) : Vmcs :=
  let flags := vmcsReadl v .guestRflags
  let v := vmcsWritel v .guestRflags (flags &&& ~~~(x86EflagsIf ||| x86EflagsAc ||| x86EflagsTf))
  let v := vmcsWrite16 v .guestCsSelector ent1
  let v := vmcsWritel v .guestCsBase (ent1.setWidth 64 <<< 4)
  let v := vmcsWritel v .guestRip (ent0.setWidth 64)
  vmcsWritel v .guestRsp ((vmcsReadl v .guestRsp &&& ~~~0xffff) ||| (sp.setWidth 64 - 6))

def injectRmodeIrq (s : KvmVcpu) (irq : Nat) : KvmVcpu :=
  let ssBase := vmcsReadl s.vmcs .guestSsBase
  let sp : BitVec 16 := (vmcsReadl s.vmcs .guestRsp).setWidth 16
  let ssLimit := vmcsRead32 s.vmcs .guestSsLimit
  -- `sp - 6 > sp` is a comparison of integers, and never true
  if ssLimit < sp.setWidth 32 then s
  else
    match kvmReadGuest s.toVcpu (BitVec.ofNat 64 (irq * 4)) 4 with
    | [e0, e1, e2, e3] =>
      let ent0 : BitVec 16 := e1 ++ e0
      let ent1 : BitVec 16 := e3 ++ e2
      let flags := vmcsReadl s.vmcs .guestRflags
      let cs : BitVec 16 := (vmcsReadl s.vmcs .guestCsBase >>> 4).setWidth 16
      let ip : BitVec 16 := (vmcsReadl s.vmcs .guestRip).setWidth 16
      let (m1, n1) := kvmWriteGuest s.toVcpu (ssBase + sp.setWidth 64 - 2) (bytesOf 2 flags)
      if n1 != 2 then { s with toVcpu := m1 }
      else
        let (m2, n2) := kvmWriteGuest m1 (ssBase + sp.setWidth 64 - 4) (bytesOf 2 (cs.setWidth 64))
        if n2 != 2 then { s with toVcpu := m2 }
        else
          let (m3, n3) := kvmWriteGuest m2 (ssBase + sp.setWidth 64 - 6) (bytesOf 2 (ip.setWidth 64))
          if n3 != 2 then { s with toVcpu := m3 }
          else { s with toVcpu := { m3 with vmcs := loadRmodeVector m3.vmcs ent0 ent1 sp } }
    | _ => s

/-! ### The rules -/

/-- The segments of virtual-8086 mode. -/
def vir8086Segs : List Segment := [.cs, .ss, .ds, .es, .fs, .gs]

/-- `VIR8086_SEG_BASE_TEST`. -/
def vir8086SegBaseTest (v : Vmcs) (seg : Segment) : Bool :=
  vmcsReadl v seg.base == (vmcsRead16 v seg.selector).setWidth 64 <<< 4

/-- `VIR8086_SEG_LIMIT_TEST`. -/
def vir8086SegLimitTest (v : Vmcs) (seg : Segment) : Bool := vmcsReadl v seg.limit == 0xffff

/-- `VIR8086_SEG_AR_TEST`. -/
def vir8086SegArTest (v : Vmcs) (seg : Segment) : Bool := vmcsRead32 v seg.arBytes == 0xf3

/-- The tests of `vm_entry_test_guest` for virtual-8086 mode. -/
def vmEntryTestVirtual8086 (v : Vmcs) : Bool :=
  vir8086Segs.all (vir8086SegBaseTest v) && vir8086Segs.all (vir8086SegLimitTest v) && vir8086Segs.all (vir8086SegArTest v)

/-- The state can be entered in virtual-8086 mode, with the I/O privilege level of emulated real mode. -/
structure Vir8086 (v : Vmcs) : Prop where
  vm : vmcsReadl v .guestRflags &&& x86EflagsVm = x86EflagsVm
  iopl : vmcsReadl v .guestRflags &&& ioplMask = ioplMask
  segs : vmEntryTestVirtual8086 v = true

/-- The rules for one segment. -/
structure Vir8086Seg (v : Vmcs) (seg : Segment) : Prop where
  base : vmcsReadl v seg.base = (vmcsRead16 v seg.selector).setWidth 64 <<< 4
  limit : vmcsReadl v seg.limit = 0xffff
  ar : vmcsRead32 v seg.arBytes = 0xf3

theorem vmEntryTestVirtual8086_iff {v : Vmcs} : vmEntryTestVirtual8086 v = true ↔ ∀ seg ∈ vir8086Segs, Vir8086Seg v seg := by
  unfold vmEntryTestVirtual8086 vir8086SegBaseTest vir8086SegLimitTest vir8086SegArTest
  simp only [Bool.and_eq_true, List.all_eq_true, beq_iff_eq]
  constructor
  · rintro ⟨⟨hb, hl⟩, ha⟩ seg hseg
    exact ⟨hb seg hseg, hl seg hseg, ha seg hseg⟩
  · intro h
    exact ⟨⟨fun seg hseg => (h seg hseg).base, fun seg hseg => (h seg hseg).limit⟩, fun seg hseg => (h seg hseg).ar⟩

/-! ### Steps in emulated real mode -/

/-- The fields of a segment. -/
def Segment.fields (seg : Segment) : List VmcsField := [seg.selector, seg.base, seg.limit, seg.arBytes]

theorem vir8086Seg_congr {v v' : Vmcs} {seg : Segment} (hf : ∀ f ∈ seg.fields, v' f = v f) :
    Vir8086Seg v' seg ↔ Vir8086Seg v seg := by
  have h1 := hf seg.selector (by simp [Segment.fields])
  have h2 := hf seg.base (by simp [Segment.fields])
  have h3 := hf seg.limit (by simp [Segment.fields])
  have h4 := hf seg.arBytes (by simp [Segment.fields])
  constructor
  · rintro ⟨hb, hl, ha⟩
    unfold vmcsRead32 vmcsRead16 vmcsReadl at *
    rw [h1, h2] at hb
    rw [h3] at hl
    rw [h4] at ha
    exact ⟨hb, hl, ha⟩
  · rintro ⟨hb, hl, ha⟩
    unfold vmcsRead32 vmcsRead16 vmcsReadl at *
    rw [← h1, ← h2] at hb
    rw [← h3] at hl
    rw [← h4] at ha
    exact ⟨hb, hl, ha⟩

theorem injectRmodeIrq_vmcs (s : KvmVcpu) (irq : Nat) : (injectRmodeIrq s irq).vmcs = s.vmcs ∨
    ∃ ent0 ent1 sp, (injectRmodeIrq s irq).vmcs = loadRmodeVector s.vmcs ent0 ent1 sp := by
  have hwrite : ∀ (m : Vcpu) addr data, (kvmWriteGuest m addr data).1.vmcs = m.vmcs := fun m addr data => by
    rw [kvmWriteGuest_frame]
  unfold injectRmodeIrq
  dsimp only
  split
  · exact Or.inl rfl
  · split
    · split
      · exact Or.inl (hwrite ..)
      · split
        · exact Or.inl ((hwrite ..).trans (hwrite ..))
        · split
          · exact Or.inl ((hwrite ..).trans ((hwrite ..).trans (hwrite ..)))
          · exact Or.inr ⟨_, _, _, by rw [hwrite, hwrite, hwrite]⟩
    · exact Or.inl rfl

/-- The guest loads a segment register. -/
def loadRmodeSeg (seg : Segment) (sel : BitVec 16) (v : Vmcs) : Vmcs :=
  vmcsWritel (vmcsWrite16 v seg.selector sel) seg.base (sel.setWidth 64 <<< 4)

/-- An interrupt is delivered, or the guest runs in virtual-8086 mode: it loads a segment register, or changes registers,
memory and flags other than VM and the privilege level. -/
inductive RmodeStep : KvmVcpu → KvmVcpu → Prop
  | irq (s : KvmVcpu) (irq : Nat) : RmodeStep s (injectRmodeIrq s irq)
  | loadSeg (s : KvmVcpu) {seg : Segment} (hseg : seg ∈ vir8086Segs) (sel : BitVec 16) :
      RmodeStep s (s.setVmcs (loadRmodeSeg seg sel s.vmcs))
  | guest {s t : KvmVcpu} (hsegs : ∀ seg ∈ vir8086Segs, ∀ f ∈ seg.fields, t.vmcs f = s.vmcs f)
      (hflags : vmcsReadl t.vmcs .guestRflags &&& (x86EflagsVm ||| ioplMask) =
        vmcsReadl s.vmcs .guestRflags &&& (x86EflagsVm ||| ioplMask)) : RmodeStep s t

theorem vmcsRead16_vmcsWrite16 (v : Vmcs) (f : VmcsField) (x : BitVec 16) : vmcsRead16 (vmcsWrite16 v f x) f = x := by
  unfold vmcsRead16 vmcsWrite16
  rw [vmcsReadl_vmcsWritel_self]
  exact BitVec.setWidth_setWidth_of_le _ (by decide)

theorem flags_and {x y : BitVec 64} (m : BitVec 64) {k : BitVec 64} (h : x &&& k = y &&& k) (hm : k &&& m = m) :
    x &&& m = y &&& m := by
  rw [← hm, ← BitVec.and_assoc, h, BitVec.and_assoc]

/-- The fields of different segments are different. -/
theorem segment_fields_disjoint : ∀ seg ∈ vir8086Segs, ∀ seg' ∈ vir8086Segs, seg' ≠ seg → ∀ f ∈ seg'.fields,
    f ≠ seg.selector ∧ f ≠ seg.base := by
  decide

theorem loadRmodeSeg_seg {v : Vmcs} {seg : Segment} (hseg : seg ∈ vir8086Segs) (sel : BitVec 16)
    (h : Vir8086Seg v seg) : Vir8086Seg (loadRmodeSeg seg sel v) seg := by
  obtain ⟨-, hl, ha⟩ := h
  unfold loadRmodeSeg
  refine ⟨?_, ?_, ?_⟩
  · have hsel : vmcsRead16 (vmcsWritel (vmcsWrite16 v seg.selector sel) seg.base (sel.setWidth 64 <<< 4)) seg.selector =
        vmcsRead16 (vmcsWrite16 v seg.selector sel) seg.selector := by
      unfold vmcsRead16
      rw [vmcsReadl_vmcsWritel_of_ne]
      fin_cases hseg <;> decide
    rw [vmcsReadl_vmcsWritel_self, hsel, vmcsRead16_vmcsWrite16]
  · rw [← hl]
    fin_cases hseg <;> rfl
  · rw [← ha]
    fin_cases hseg <;> rfl

theorem loadRmodeSeg_kept {v : Vmcs} {seg : Segment} {f : VmcsField} (sel : BitVec 16) (h : f ≠ seg.selector ∧ f ≠ seg.base) :
    loadRmodeSeg seg sel v f = v f :=
  (vmcsReadl_vmcsWritel_of_ne h.2).trans (vmcsReadl_vmcsWritel_of_ne h.1)

theorem Vir8086.loadSeg {v : Vmcs} {seg : Segment} (h : Vir8086 v) (hseg : seg ∈ vir8086Segs) (sel : BitVec 16) :
    Vir8086 (loadRmodeSeg seg sel v) := by
  have hrflags : loadRmodeSeg seg sel v .guestRflags = v .guestRflags :=
    loadRmodeSeg_kept sel (by fin_cases hseg <;> decide)
  have hall := vmEntryTestVirtual8086_iff.1 h.segs
  refine ⟨?_, ?_, vmEntryTestVirtual8086_iff.2 fun seg' hseg' => ?_⟩
  · unfold vmcsReadl
    rw [hrflags]
    exact h.vm
  · unfold vmcsReadl
    rw [hrflags]
    exact h.iopl
  · by_cases heq : seg' = seg
    · subst heq
      exact loadRmodeSeg_seg hseg sel (hall seg' hseg')
    · exact (vir8086Seg_congr fun f hf =>
        loadRmodeSeg_kept sel (segment_fields_disjoint seg hseg seg' hseg' heq f hf)).2 (hall seg' hseg')

theorem Vir8086.congr {v v' : Vmcs} (h : Vir8086 v) (hsegs : ∀ seg ∈ vir8086Segs, ∀ f ∈ seg.fields, v' f = v f)
    (hflags : vmcsReadl v' .guestRflags &&& (x86EflagsVm ||| ioplMask) =
      vmcsReadl v .guestRflags &&& (x86EflagsVm ||| ioplMask)) : Vir8086 v' := by
  have hall := vmEntryTestVirtual8086_iff.1 h.segs
  refine ⟨?_, ?_, vmEntryTestVirtual8086_iff.2 fun seg hseg => (vir8086Seg_congr (hsegs seg hseg)).2 (hall seg hseg)⟩
  · rw [flags_and x86EflagsVm hflags (by decide)]
    exact h.vm
  · rw [flags_and ioplMask hflags (by decide)]
    exact h.iopl

/-- The vector of an interrupt is loaded like a segment register. -/
theorem Vir8086.loadVector {v : Vmcs} (h : Vir8086 v) (ent0 ent1 sp : BitVec 16) :
    Vir8086 (loadRmodeVector v ent0 ent1 sp) := by
  refine (@Vir8086.loadSeg v .cs h (by decide) ent1).congr ?_ ?_
  · intro seg hseg f hf
    fin_cases hseg <;> fin_cases hf <;> rfl
  · show (v .guestRflags &&& ~~~(x86EflagsIf ||| x86EflagsAc ||| x86EflagsTf)) &&& (x86EflagsVm ||| ioplMask) =
      v .guestRflags &&& (x86EflagsVm ||| ioplMask)
    rw [BitVec.and_assoc]
    congr 1

theorem RmodeStep.vir8086 (h : RmodeStep s t) (hs : Vir8086 s.vmcs) : Vir8086 t.vmcs := by
  cases h with
  | irq irq =>
    rcases injectRmodeIrq_vmcs s irq with heq | ⟨ent0, ent1, sp, heq⟩
    · rw [heq]
      exact hs
    · rw [heq]
      exact hs.loadVector ent0 ent1 sp
  | loadSeg hseg sel => exact hs.loadSeg hseg sel
  | guest hsegs hflags => exact hs.congr hsegs hflags

theorem vir8086_run (h : ReflTransGen RmodeStep s t) (hs : Vir8086 s.vmcs) : Vir8086 t.vmcs := by
  induction h with
  | refl => exact hs
  | tail _ hstep ih => exact hstep.vir8086 ih

/-! ### The switch to real mode -/

/-- Real mode could have loaded the base of the segment. -/
def RealBase (v : Vmcs) (seg : Segment) : Prop :=
  (vmcsReadl v seg.base).toNat % 16 = 0 ∧ (vmcsReadl v seg.base).toNat < 2 ^ 20

/-- What `enter_rmode` needs of the segments of protected mode. -/
structure RealSegments (v : Vmcs) : Prop where
  base : ∀ seg ∈ vir8086Segs, RealBase v seg
  csLimit : vmcsReadl v .guestCsLimit = 0xffff

theorem base_eq_selector_iff (x : BitVec 64) : x = ((x >>> 4).setWidth 16).setWidth 64 <<< 4 ↔
    x.toNat % 16 = 0 ∧ x.toNat < 2 ^ 20 := by
  have hval : (((x >>> 4).setWidth 16).setWidth 64 <<< 4).toNat = x.toNat / 16 % 65536 * 16 := by
    have h1 : x.toNat / 16 % 65536 * 16 < 2 ^ 64 := by omega
    rw [BitVec.toNat_shiftLeft, BitVec.toNat_setWidth, BitVec.toNat_setWidth, BitVec.toNat_ushiftRight,
      Nat.shiftRight_eq_div_pow, Nat.shiftLeft_eq]
    omega
  rw [← BitVec.toNat_inj, hval]
  omega

/-- Everything but the limit of CS is set to the values for virtual-8086 mode; bases are kept. -/
theorem enterRmode_seg (s : KvmVcpu) {seg : Segment} (hseg : seg ∈ vir8086Segs) :
    Vir8086Seg (enterRmode s).vmcs seg ↔ RealBase s.vmcs seg ∧ (seg = .cs → vmcsReadl s.vmcs .guestCsLimit = 0xffff) := by
  have hbase : vmcsReadl (enterRmode s).vmcs seg.base = vmcsReadl s.vmcs seg.base := by
    fin_cases hseg <;> rfl
  have hsel : vmcsRead16 (enterRmode s).vmcs seg.selector = (vmcsReadl s.vmcs seg.base >>> 4).setWidth 16 := by
    refine Eq.trans ?_ (vmcsRead16_vmcsWrite16 s.vmcs seg.selector _)
    fin_cases hseg <;> rfl
  have har : vmcsRead32 (enterRmode s).vmcs seg.arBytes = 0xf3 := by
    refine Eq.trans ?_ (vmcsRead32_vmcsWrite32 s.vmcs seg.arBytes 0xf3)
    fin_cases hseg <;> rfl
  have hlimit : vmcsReadl (enterRmode s).vmcs seg.limit = if seg = .cs then vmcsReadl s.vmcs .guestCsLimit else 0xffff := by
    fin_cases hseg <;> rfl
  constructor
  · rintro ⟨hb, hl, -⟩
    rw [hbase, hsel] at hb
    refine ⟨(base_eq_selector_iff _).1 hb, fun hcs => ?_⟩
    rw [hlimit, if_pos hcs] at hl
    exact hl
  · rintro ⟨hb, hl⟩
    refine ⟨?_, ?_, har⟩
    · rw [hbase, hsel]
      exact (base_eq_selector_iff _).2 hb
    · rw [hlimit]
      split
      · rename_i hcs
        exact hl hcs
      · rfl

theorem enterRmode_flags (s : KvmVcpu) {m : BitVec 64} (hm : (ioplMask ||| x86EflagsVm) &&& m = m) :
    vmcsReadl (enterRmode s).vmcs .guestRflags &&& m = m := by
  have hflags : vmcsReadl (enterRmode s).vmcs .guestRflags = vmcsReadl s.vmcs .guestRflags ||| (ioplMask ||| x86EflagsVm) := rfl
  rw [hflags]
  apply BitVec.eq_of_hasBit
  intro i hi
  have hbit := congrArg (BitVec.hasBit · i) hm
  simp only [BitVec.hasBit_and, BitVec.hasBit_or] at hbit ⊢
  cases hmi : m.hasBit i with
  | false => simp
  | true =>
    rw [hmi] at hbit
    simp only [Bool.and_true] at hbit ⊢
    rw [hbit, Bool.or_true]

theorem vir8086_enterRmode (s : KvmVcpu) : Vir8086 (enterRmode s).vmcs ↔ RealSegments s.vmcs := by
  constructor
  · intro h
    have hall := fun seg hseg => (enterRmode_seg s hseg).1 (vmEntryTestVirtual8086_iff.1 h.segs seg hseg)
    exact ⟨fun seg hseg => (hall seg hseg).1, (hall .cs (by decide)).2 rfl⟩
  · rintro ⟨hb, hl⟩
    exact ⟨enterRmode_flags s (by decide), enterRmode_flags s (by decide),
      vmEntryTestVirtual8086_iff.2 fun seg hseg => (enterRmode_seg s hseg).2 ⟨hb seg hseg, fun _ => hl⟩⟩

/-- Without PE, PG is not legal. -/
theorem pg_of_cr0Faults {v : BitVec 64} (h : cr0Faults s v = some false) (hpe : v.hasBit 0 = false) :
    v.hasBit 31 = false := by
  have hpe' : (v &&& cr0PeMask == 0) = true := by simpa [hpe] using pe_eq v
  cases hpg : v.hasBit 31 with
  | false => rfl
  | true =>
    unfold cr0Faults at h
    rw [pg_eq, hpg, hpe', Bool.and_self, if_pos rfl] at h
    split at h
    · cases h
    · split at h <;> cases h

/-- A legal write that clears PE switches to emulated real mode, and the rest of `set_cr0` keeps the segments. -/
theorem setCr0_enterRmode {v : BitVec 64} (hr : s.rmode.active = false) (hlegal : cr0Faults s v = some false)
    (hpe : v.hasBit 0 = false) : ∃ t, setCr0 s v = some t ∧
      ∀ f ∉ [VmcsField.cr0ReadShadow, .guestCr0, .guestCr3, .vmEntryControls], t.vmcs f = (enterRmode s).vmcs f := by
  have hpg := pg_of_cr0Faults hlegal hpe
  obtain ⟨s1, h1⟩ := Option.isSome_iff_exists.1 (rawSetCr0_isSome_of_pg hpg s)
  refine ⟨s1.resetContext, ?_, fun f hf => ?_⟩
  · unfold setCr0
    rw [hlegal]
    dsimp only
    rw [h1]
    rfl
  · simp only [List.mem_cons, List.not_mem_nil, or_false, not_or] at hf
    obtain ⟨hf0, hf1, hf2, hf3⟩ := hf
    rw [resetContext_vmcs _ hf2]
    obtain ⟨s2, h2, rfl⟩ := Option.map_eq_some_iff.1 h1
    have hswitch : switchRmode s v = enterRmode s := by
      rcases switchRmode_cases s v with ⟨-, hact⟩ | ⟨hact, -⟩ | ⟨-, -, heq⟩
      · rw [hr, hpe] at hact
        cases hact
      · rw [hr] at hact
        cases hact
      · exact heq
    rw [hswitch] at h2
    refine (vmcsReadl_vmcsWritel_of_ne hf1).trans ((vmcsReadl_vmcsWritel_of_ne hf0).trans ?_)
    rcases switchLmode_cases h2 with ⟨rfl, -⟩ | ⟨-, -, hno, -⟩ | ⟨-, -, -, rfl⟩
    · rfl
    · rw [hpg] at hno
      cases hno
    · exact vmcsReadl_vmcsWritel_of_ne hf3

/-- **Emulated real mode satisfies the rules of virtual-8086 mode**, from the write to CR0 that enters it on and
whatever interrupts are delivered, exactly when the guest comes with segments of real mode. -/
theorem vir8086_after_setCr0 {v : BitVec 64} (hr : s.rmode.active = false) (hlegal : cr0Faults s v = some false)
    (hpe : v.hasBit 0 = false) :
    (∃ t, setCr0 s v = some t ∧ ∀ u, ReflTransGen RmodeStep t u → Vir8086 u.vmcs) ↔ RealSegments s.vmcs := by
  obtain ⟨t, ht, hkept⟩ := setCr0_enterRmode hr hlegal hpe
  have hcongr : Vir8086 t.vmcs ↔ Vir8086 (enterRmode s).vmcs := by
    have hsegs : ∀ seg ∈ vir8086Segs, ∀ f ∈ seg.fields, t.vmcs f = (enterRmode s).vmcs f := by
      intro seg hseg f hf
      refine hkept f ?_
      fin_cases hseg <;> fin_cases hf <;> decide
    have hflags : vmcsReadl t.vmcs .guestRflags = vmcsReadl (enterRmode s).vmcs .guestRflags := hkept _ (by decide)
    exact ⟨fun h => h.congr (fun seg hseg f hf => (hsegs seg hseg f hf).symm) (by rw [hflags]),
      fun h => h.congr hsegs (by rw [hflags])⟩
  rw [← vir8086_enterRmode, ← hcongr]
  constructor
  · rintro ⟨t', ht', hrun⟩
    obtain rfl := Option.some.inj (ht.symm.trans ht')
    exact hrun t .refl
  · intro h
    exact ⟨t, ht, fun u hu => vir8086_run hu h⟩

/-- A vcpu in protected mode, with all segments at 0 and this limit of CS. -/
def protectedVcpu (csLimit : BitVec 64) : KvmVcpu :=
  { (default : KvmVcpu) with
    vmcs := fun f => if f = .guestCsLimit then csLimit else if f = .cr0ReadShadow then 1 else 0 }

/-- A guest that loads a limit of 64K into CS before it clears PE. -/
theorem vir8086_after_setCr0_64k :
    ∃ t, setCr0 (protectedVcpu 0xffff) 0 = some t ∧ ∀ u, ReflTransGen RmodeStep t u → Vir8086 u.vmcs :=
  (@vir8086_after_setCr0 (protectedVcpu 0xffff) 0 rfl (by decide) (by decide)).2
    ⟨fun seg hseg => by fin_cases hseg <;> exact ⟨by decide, by decide⟩, by decide⟩

/-- A guest with the limit of a flat CS. -/
theorem flat_cs_fails_vir8086 : ¬∀ (s : KvmVcpu) (v : BitVec 64), s.rmode.active = false → cr0Faults s v = some false →
    v.hasBit 0 = false → ∃ t, setCr0 s v = some t ∧ ∀ u, ReflTransGen RmodeStep t u → Vir8086 u.vmcs := by
  intro hall
  obtain ⟨t, ht, hrun⟩ := hall (protectedVcpu 0xffffffff) 0 rfl (by decide) (by decide)
  obtain ⟨t', ht', hkept⟩ := @setCr0_enterRmode (protectedVcpu 0xffffffff) 0 rfl (by decide) (by decide)
  obtain rfl := Option.some.inj (ht.symm.trans ht')
  have hcs := (vmEntryTestVirtual8086_iff.1 (hrun t .refl).segs .cs (by decide)).limit
  have hlimit : vmcsReadl t.vmcs Segment.cs.limit = vmcsReadl (enterRmode (protectedVcpu 0xffffffff)).vmcs .guestCsLimit :=
    hkept _ (by decide)
  rw [hlimit] at hcs
  exact absurd hcs (by decide)

end LearnKvm
