import LearnKvm.Lib.Packing
import LearnKvm.Libkvm
import LearnKvm.SregsRoundTrip

/-!
# Registers between KVM and QEMU (`save_regs`, `load_regs`)

QEMU keeps the registers in its own `CPUState`: the condition codes and the direction flag apart from the other flags, and
the fields of a segment packed in a word.  `save_regs` fills it from what KVM reports, and `load_regs` passes it back.
`qemuRegs_iff` says for which registers they come back as they were.
-/

namespace LearnKvm

open Packing

/-! ### The state of QEMU -/

/-- The fields of the flags of a segment. -/
inductive DescField where
  | type | s | dpl | p | avl | l | b | g
  deriving DecidableEq

namespace DescField

def width : DescField → Nat
  | type => 4
  | dpl => 2
  | s | p | avl | l | b | g => 1

def all : List DescField := [type, p, dpl, b, s, l, g, avl]

theorem mem_all (f : DescField) : f ∈ all := by cases f <;> decide

end DescField

/-- The positions that the `DESC_*` constants say. -/
abbrev DescLayout := Layout DescField.width 32

/-- The accessors of the APIC, which return what was set. -/
structure ApicAccessors (α : Type) where
  setTpr : α → BitVec 64 → α
  getTpr : α → BitVec 64
  setBase : α → BitVec 64 → α
  getBase : α → BitVec 64
  getTpr_setTpr : ∀ a v, getTpr (setTpr a v) = v
  getTpr_setBase : ∀ a v, getTpr (setBase a v) = getTpr a
  getBase_setBase : ∀ a v, getBase (setBase a v) = v

structure SegmentCache where
  selector : BitVec 32
  base : BitVec 64
  limit : BitVec 32
  flags : BitVec 32

inductive CcOp where
  | eflags
  | other (n : Nat)

/-- `CPUState`, with `tr` and `ldt` among the segments and an APIC. -/
structure CPUState (α : Type) where
  regs : Fin 16 → BitVec 64
  eip : BitVec 64
  eflags : BitVec 64
  ccSrc : BitVec 64
  ccOp : CcOp
  df : Int
  segs : Segment → SegmentCache
  gdt : SegmentCache
  idt : SegmentCache
  cr0 : BitVec 64
  cr2 : BitVec 64
  cr3 : BitVec 64
  cr4 : BitVec 64
  efer : BitVec 64
  apic : α
  kvmPendingInt : BitVec 32

def ccFlags : BitVec 64 := 0x800 ||| 0x80 ||| 0x40 ||| 0x10 ||| 0x04 ||| 0x01
def dfMask : BitVec 64 := 0x400

/-! ### `save_regs` -/

section Code

variable {α : Type} (desc : DescLayout) (apic : ApicAccessors α) (env : CPUState α)

def descMask (f : DescField) : BitVec 32 := 1#32 <<< desc.shift f

/-- `get_seg`. -/
def getSeg (var : KvmSegment) : SegmentCache where
  selector := var.selector.setWidth 32
  base := var.base
  limit := var.limit
  flags :=
    (var.type.setWidth 32 <<< desc.shift .type) ||| (var.present.setWidth 32 * descMask desc .p) |||
      (var.dpl.setWidth 32 <<< desc.shift .dpl) ||| (var.db.setWidth 32 <<< desc.shift .b) |||
      (var.s.setWidth 32 * descMask desc .s) ||| (var.l.setWidth 32 <<< desc.shift .l) |||
      (var.g.setWidth 32 * descMask desc .g) ||| (var.avl.setWidth 32 * descMask desc .avl)

/-- `save_regs`, for the registers that KVM_GET_REGS and KVM_GET_SREGS return. -/
def saveRegs (regs : KvmRegs) (sregs : GotSregs) : CPUState α where
  regs := regs.regs
  eip := regs.rip
  eflags := regs.rflags &&& ~~~(dfMask ||| ccFlags)
  ccSrc := regs.rflags &&& ccFlags
  ccOp := .eflags
  df := 1 - 2 * ((regs.rflags >>> 10) &&& 1).toNat
  segs seg := getSeg desc (sregs.segment seg)
  gdt := { env.gdt with limit := sregs.gdt.limit.setWidth 32, base := sregs.gdt.base }
  idt := { env.idt with limit := sregs.idt.limit.setWidth 32, base := sregs.idt.base }
  cr0 := sregs.cr0
  cr2 := sregs.cr2
  cr3 := sregs.cr3
  cr4 := sregs.cr4
  efer := sregs.efer
  apic := apic.setBase (apic.setTpr env.apic sregs.cr8) sregs.apicBase
  kvmPendingInt := sregs.pendingInt

/-! ### `load_regs` -/

/-- `set_seg`. -/
def setSeg (seg : SegmentCache) (defaultS defaultType : BitVec 8) : KvmSegment :=
  let flags := seg.flags
  let valid := flags &&& ~~~descMask desc .p ≠ 0
  { selector := seg.selector.setWidth 16
    base := seg.base
    limit := seg.limit
    type := if valid then ((flags >>> desc.shift .type) &&& 15).setWidth 8 else defaultType
    present := if valid then (if flags &&& descMask desc .p ≠ 0 then 1 else 0) else 1
    dpl := (seg.selector &&& 3).setWidth 8
    db := if valid then ((flags >>> desc.shift .b) &&& 1).setWidth 8 else 0
    s := if valid then (if flags &&& descMask desc .s ≠ 0 then 1 else 0) else defaultS
    l := if valid then ((flags >>> desc.shift .l) &&& 1).setWidth 8 else 0
    g := if valid then (if flags &&& descMask desc .g ≠ 0 then 1 else 0) else 0
    avl := if flags &&& descMask desc .avl ≠ 0 then 1 else 0
    unusable := 0 }

/-- `set_v8086_seg`. -/
def setV8086Seg (seg : SegmentCache) : KvmSegment where
  selector := seg.selector.setWidth 16
  base := seg.base
  limit := seg.limit
  type := 3
  present := 1
  dpl := 3
  db := 0
  s := 1
  l := 0
  g := 0
  avl := 0
  unusable := 0

/-- The default values of `s` and `type`. -/
def segDefaults : Segment → BitVec 8 × BitVec 8
  | .cs => (1, 11)
  | .tr => (0, 3)
  | .ldtr => (0, 2)
  | .ds | .es | .fs | .gs | .ss => (1, 3)

/-- Force ss cpl to cs cpl. -/
def forceSsCpl (cs ss : KvmSegment) : KvmSegment :=
  let selector := (ss.selector &&& ~~~3) ||| (cs.selector &&& 3)
  { ss with selector := selector, dpl := (selector &&& 3).setWidth 8 }

def loadSegment (seg : Segment) : KvmSegment :=
  let set (seg : Segment) := setSeg desc (env.segs seg) (segDefaults seg).1 (segDefaults seg).2
  if seg = .tr ∨ seg = .ldtr then set seg
  else if env.eflags &&& x86EflagsVm ≠ 0 then setV8086Seg (env.segs seg)
  else if seg = .ss ∧ env.cr0 &&& cr0PeMask ≠ 0 then forceSsCpl (set .cs) (set .ss)
  else set seg

/-- `load_regs`: what is passed to KVM_SET_REGS and KVM_SET_SREGS. -/
def loadRegs : KvmRegs × KvmSregs :=
  ({ regs := env.regs, rip := env.eip, rflags := env.eflags },
   { segment := loadSegment desc env
     gdt := { limit := env.gdt.limit.setWidth 16, base := env.gdt.base }
     idt := { limit := env.idt.limit.setWidth 16, base := env.idt.base }
     cr0 := env.cr0
     cr2 := env.cr2
     cr3 := env.cr3
     cr4 := env.cr4
     cr8 := apic.getTpr env.apic
     efer := env.efer
     apicBase := apic.getBase env.apic })

end Code

/-! ### What KVM reports -/

def KvmSegment.field (var : KvmSegment) : DescField → BitVec 8
  | .type => var.type
  | .s => var.s
  | .dpl => var.dpl
  | .p => var.present
  | .avl => var.avl
  | .l => var.l
  | .b => var.db
  | .g => var.g

/-- Special registers as KVM reports them: the fields of the segments have the widths of the architecture. -/
structure ReportedSregs extends GotSregs where
  fits : ∀ seg, Fits DescField.width (segment seg).field

/-- `get_segment` masks every field. -/
theorem getSegment_fits (seg : Segment) (v : Vmcs) : Fits DescField.width (getSegment seg v).field := by
  have hone : ∀ i, 1 ≤ i → (1#32).hasBit i = false := fun i hi => by
    rw [show (1#32) = 1#32 <<< 0 from rfl, Bits.hasBit_one_shiftLeft (by decide)]
    exact decide_eq_false (by omega)
  have hlow : ∀ (n i : Nat), n < 32 → n ≤ i → (1#32 <<< n - 1#32).hasBit i = false := fun n i hn hi => by
    rw [Bits.hasBit_lowMask hn]
    exact decide_eq_false (by omega)
  intro f k hk
  have hthree := hlow 2 k (by decide)
  have hfifteen := hlow 4 k (by decide)
  cases f <;> simp only [getSegment, KvmSegment.field, BitVec.hasBit_setWidth, BitVec.hasBit_and]
  case type => rw [show (15 : BitVec 32) = 1#32 <<< 4 - 1#32 from rfl, hfifteen hk, Bool.and_false, Bool.and_false]
  case dpl => rw [show (3 : BitVec 32) = 1#32 <<< 2 - 1#32 from rfl, hthree hk, Bool.and_false, Bool.and_false]
  all_goals rw [show (1 : BitVec 32) = 1#32 from rfl, hone k hk, Bool.and_false, Bool.and_false]

/-- What KVM_GET_SREGS returns for a vcpu. -/
def reportedSregs {arch : Arch} (s : IrqVcpu arch) : ReportedSregs where
  toGotSregs := getSregs s
  fits seg := getSegment_fits seg s.vmcs

/-! ### When registers come back -/

/-- Not all of the fields besides `present` are zero, and what is derived has its derived value. -/
structure SegmentKept (var : KvmSegment) : Prop where
  valid : ∃ f, f ≠ .p ∧ var.field f ≠ 0
  dpl : var.dpl = (var.selector &&& 3).setWidth 8
  unusable : var.unusable = 0

/-- The fields that virtual-8086 mode fixes have their values. -/
def V8086Fields (var : KvmSegment) : Prop :=
  var = { var with type := 3, present := 1, dpl := 3, db := 0, s := 1, l := 0, g := 0, avl := 0, unusable := 0 }

/-- The registers of which nothing gets lost. -/
structure RegsKept (regs : KvmRegs) (sregs : KvmSregs) : Prop where
  flags : regs.rflags &&& (dfMask ||| ccFlags) = 0
  system : ∀ seg, seg = .tr ∨ seg = .ldtr → SegmentKept (sregs.segment seg)
  v8086 : regs.rflags &&& x86EflagsVm ≠ 0 → ∀ seg, ¬(seg = .tr ∨ seg = .ldtr) → V8086Fields (sregs.segment seg)
  segments : regs.rflags &&& x86EflagsVm = 0 → ∀ seg, ¬(seg = .tr ∨ seg = .ldtr) → SegmentKept (sregs.segment seg)
  ss : regs.rflags &&& x86EflagsVm = 0 → sregs.cr0 &&& cr0PeMask ≠ 0 →
    (sregs.segment .ss).selector &&& 3 = (sregs.segment .cs).selector &&& 3

/-! ### Segments -/

section Segments

variable (desc : DescLayout) {var : KvmSegment}

theorem mul_descMask (x : BitVec 32) (f : DescField) : x * descMask desc f = x <<< desc.shift f := by
  rw [BitVec.shiftLeft_eq_mul_twoPow]
  rfl

theorem getSeg_flags (var : KvmSegment) :
    (getSeg desc var).flags = desc.pack (fun f => (var.field f).setWidth 32) DescField.all := by
  unfold getSeg
  simp only [mul_descMask, Layout.pack, DescField.all, List.foldr, KvmSegment.field, BitVec.or_assoc, BitVec.or_zero]

/-- A field is found again. -/
theorem getSeg_field (h : Fits DescField.width var.field) (f : DescField) {m : BitVec 32}
    (hm : ∀ k < 32, m.hasBit k = decide (k < f.width)) :
    (((getSeg desc var).flags >>> desc.shift f) &&& m).setWidth 8 = var.field f := by
  rw [getSeg_flags, Layout.pack_ushiftRight_and desc h.setWidth f.mem_all hm]
  exact BitVec.setWidth_setWidth_of_le _ (by decide)

/-- A value of one bit. -/
theorem eq_ofBool_of_fits (h : Fits DescField.width var.field) {f : DescField} (hf : f.width = 1) :
    var.field f = if (var.field f).hasBit 0 then 1 else 0 := by
  apply BitVec.eq_of_hasBit
  intro k _
  cases k with
  | zero => cases hbit : (var.field f).hasBit 0 <;> rfl
  | succ k =>
    rw [h f (k + 1) (by omega)]
    split
    · exact (Bits.hasBit_one_shiftLeft (w := 8) (n := 0) (by decide) (k + 1)).symm
    · exact (BitVec.hasBit_zero (k + 1)).symm

theorem getSeg_bit (h : Fits DescField.width var.field) {f : DescField} (hf : f.width = 1) :
    (if (getSeg desc var).flags &&& descMask desc f ≠ 0 then 1 else 0) = var.field f := by
  have hinside := desc.inside f
  have hbit : (getSeg desc var).flags.hasBit (desc.shift f) = (var.field f).hasBit 0 := by
    have := Layout.hasBit_pack_shift desc h.setWidth f.mem_all (show 0 < f.width by omega)
    rw [Nat.add_zero] at this
    rw [getSeg_flags, this, BitVec.hasBit_setWidth]
    rfl
  have htest : (getSeg desc var).flags &&& descMask desc f ≠ 0 ↔ (var.field f).hasBit 0 = true := by
    rw [← hbit, ← Bits.and_one_shiftLeft_bne_zero (show desc.shift f < 32 by omega)]
    exact bne_iff_ne.symm
  rw [eq_ofBool_of_fits h hf]
  simp only [htest]

/-- The flags besides `present` are zero just if the fields are. -/
theorem getSeg_valid (h : Fits DescField.width var.field) :
    (getSeg desc var).flags &&& ~~~descMask desc .p ≠ 0 ↔ ∃ f, f ≠ .p ∧ var.field f ≠ 0 := by
  have hinside : desc.shift .p + 1 ≤ 32 := desc.inside .p
  have hmask : ∀ k < 32, (descMask desc .p).hasBit k = decide (desc.shift .p ≤ k ∧ k < desc.shift .p + DescField.p.width) :=
    fun k _ => by
      rw [descMask, Bits.hasBit_one_shiftLeft (by omega)]
      exact decide_eq_decide.2 ⟨fun hk => ⟨hk.ge, by rw [hk]; exact Nat.lt_succ_self _⟩, fun hk => by
        have hlt : k < desc.shift .p + 1 := hk.2
        omega⟩
  have hzero : ∀ f, (var.field f).setWidth 32 = 0#32 ↔ var.field f = 0 := fun f => by
    rw [← BitVec.toNat_inj, ← BitVec.toNat_inj, BitVec.toNat_setWidth_of_le (by decide)]
    rfl
  rw [getSeg_flags]
  refine (not_congr (Layout.pack_and_not_eq_zero desc h.setWidth hmask)).trans ?_
  simp only [hzero, not_forall, exists_prop]
  exact ⟨fun ⟨f, _, hf⟩ => ⟨f, hf⟩, fun ⟨f, hf⟩ => ⟨f, f.mem_all, hf⟩⟩

theorem getSeg_selector (var : KvmSegment) : (getSeg desc var).selector.setWidth 16 = var.selector :=
  BitVec.setWidth_setWidth_of_le _ (by decide)

theorem getSeg_dpl (var : KvmSegment) :
    ((getSeg desc var).selector &&& 3).setWidth 8 = (var.selector &&& 3).setWidth 8 := by
  unfold getSeg
  apply BitVec.eq_of_hasBit
  intro k hk
  rw [BitVec.hasBit_setWidth, BitVec.hasBit_setWidth, BitVec.hasBit_and, BitVec.hasBit_and, BitVec.hasBit_setWidth,
    decide_eq_true (show k < 32 by omega), Bool.true_and]
  interval_cases k <;> rfl

/-- `set_seg` after `get_seg`, if the flags count as valid. -/
theorem setSeg_getSeg (h : Fits DescField.width var.field) (hvalid : ∃ f, f ≠ .p ∧ var.field f ≠ 0)
    (defaultS defaultType : BitVec 8) : setSeg desc (getSeg desc var) defaultS defaultType =
      { var with dpl := (var.selector &&& 3).setWidth 8, unusable := 0 } := by
  have hfour : ∀ k < 32, (15 : BitVec 32).hasBit k = decide (k < DescField.type.width) := fun k _ =>
    Bits.hasBit_lowMask (w := 32) (n := 4) (by decide) k
  have hone : ∀ k < 32, (1 : BitVec 32).hasBit k = decide (k < 1) := fun k _ =>
    Bits.hasBit_lowMask (w := 32) (n := 1) (by decide) k
  have hflags := (getSeg_valid desc h).2 hvalid
  unfold setSeg
  simp only [if_pos hflags, getSeg_selector, getSeg_dpl, getSeg_field desc h .type hfour, getSeg_field desc h .b hone,
    getSeg_field desc h .l hone, getSeg_bit desc h (f := .p) rfl, getSeg_bit desc h (f := .s) rfl,
    getSeg_bit desc h (f := .g) rfl, getSeg_bit desc h (f := .avl) rfl]
  rfl

/-- A segment comes back just if the flags count as valid and the rest is what it is derived to be: the default type is
never that of a segment with no flags. -/
theorem setSeg_getSeg_eq_iff (h : Fits DescField.width var.field) (defaultS : BitVec 8) {defaultType : BitVec 8}
    (hdefault : defaultType ≠ 0) : setSeg desc (getSeg desc var) defaultS defaultType = var ↔ SegmentKept var := by
  by_cases hvalid : ∃ f, f ≠ .p ∧ var.field f ≠ 0
  · rw [setSeg_getSeg desc h hvalid]
    constructor
    · intro heq
      exact ⟨hvalid, (congrArg KvmSegment.dpl heq).symm, (congrArg KvmSegment.unusable heq).symm⟩
    · rintro ⟨-, hdpl, hunusable⟩
      rw [← hdpl, ← hunusable]
  · refine iff_of_false (fun heq => ?_) fun hkept => hvalid hkept.valid
    have htype := congrArg KvmSegment.type heq
    unfold setSeg at htype
    dsimp only at htype
    rw [if_neg fun hno => hvalid ((getSeg_valid desc h).1 hno)] at htype
    exact hvalid ⟨.type, by decide, fun h0 => hdefault (htype.trans h0)⟩

theorem setV8086Seg_getSeg_eq_iff : setV8086Seg (getSeg desc var) = var ↔ V8086Fields var := by
  unfold setV8086Seg V8086Fields
  rw [getSeg_selector]
  exact eq_comm

/-- Replacing the bits of a mask changes nothing if they are the same. -/
theorem and_not_or_and_eq_iff {w : Nat} (a b m : BitVec w) : (a &&& ~~~m ||| b &&& m) = a ↔ a &&& m = b &&& m := by
  constructor
  · intro h
    apply BitVec.eq_of_hasBit
    intro i hi
    have hbit := congrArg (BitVec.hasBit · i) h
    simp only [BitVec.hasBit_or, BitVec.hasBit_and, BitVec.hasBit_not, hi, decide_true, Bool.true_and] at hbit ⊢
    cases hm : m.hasBit i <;> simp_all
  · intro h
    apply BitVec.eq_of_hasBit
    intro i hi
    have hbit := congrArg (BitVec.hasBit · i) h
    simp only [BitVec.hasBit_or, BitVec.hasBit_and, BitVec.hasBit_not, hi, decide_true, Bool.true_and] at hbit ⊢
    cases hm : m.hasBit i <;> simp_all

/-- The privilege of the stack segment is made that of the code segment, and its `dpl` is derived already. -/
theorem forceSsCpl_eq_iff {cs ss ss' : KvmSegment} (hselector : ss'.selector = ss.selector)
    (hdpl : ss'.dpl = (ss'.selector &&& 3).setWidth 8) :
    forceSsCpl cs ss' = ss ↔ ss' = ss ∧ ss.selector &&& 3 = cs.selector &&& 3 := by
  have hforced : (ss'.selector &&& ~~~3 ||| cs.selector &&& 3) = ss.selector ↔ ss.selector &&& 3 = cs.selector &&& 3 := by
    rw [hselector]
    exact and_not_or_and_eq_iff _ _ _
  constructor
  · intro h
    have hsel : (ss'.selector &&& ~~~3 ||| cs.selector &&& 3) = ss.selector := congrArg KvmSegment.selector h
    refine ⟨?_, hforced.1 hsel⟩
    rw [← h]
    unfold forceSsCpl
    dsimp only
    rw [hsel, ← hselector, ← hdpl]
  · rintro ⟨rfl, hrpl⟩
    unfold forceSsCpl
    dsimp only
    rw [hforced.2 hrpl, ← hdpl]

end Segments

/-! ### The round trip -/

variable {α : Type} (desc : DescLayout) (apic : ApicAccessors α) (env : CPUState α)

theorem segDefaults_type (seg : Segment) : (segDefaults seg).2 ≠ 0 := by cases seg <;> decide

theorem saveRegs_v8086 (regs : KvmRegs) (sregs : GotSregs) :
    (saveRegs desc apic env regs sregs).eflags &&& x86EflagsVm = regs.rflags &&& x86EflagsVm := by
  show regs.rflags &&& ~~~(dfMask ||| ccFlags) &&& x86EflagsVm = _
  rw [BitVec.and_assoc]
  rfl

/-- The segments come back. -/
theorem loadSegment_eq_iff (regs : KvmRegs) (sregs : ReportedSregs) :
    loadSegment desc (saveRegs desc apic env regs sregs.toGotSregs) = sregs.segment ↔
      (∀ seg, seg = .tr ∨ seg = .ldtr → SegmentKept (sregs.segment seg)) ∧
      (regs.rflags &&& x86EflagsVm ≠ 0 → ∀ seg, ¬(seg = .tr ∨ seg = .ldtr) → V8086Fields (sregs.segment seg)) ∧
      (regs.rflags &&& x86EflagsVm = 0 → ∀ seg, ¬(seg = .tr ∨ seg = .ldtr) → SegmentKept (sregs.segment seg)) ∧
      (regs.rflags &&& x86EflagsVm = 0 → sregs.cr0 &&& cr0PeMask ≠ 0 →
        (sregs.segment .ss).selector &&& 3 = (sregs.segment .cs).selector &&& 3) := by
  have hset : ∀ seg, setSeg desc (getSeg desc (sregs.segment seg)) (segDefaults seg).1 (segDefaults seg).2 =
      sregs.segment seg ↔ SegmentKept (sregs.segment seg) := fun seg =>
    setSeg_getSeg_eq_iff desc (sregs.fits seg) _ (segDefaults_type seg)
  have hloaded : ∀ seg, loadSegment desc (saveRegs desc apic env regs sregs.toGotSregs) seg =
      if seg = .tr ∨ seg = .ldtr then setSeg desc (getSeg desc (sregs.segment seg)) (segDefaults seg).1 (segDefaults seg).2
      else if regs.rflags &&& x86EflagsVm ≠ 0 then setV8086Seg (getSeg desc (sregs.segment seg))
      else if seg = .ss ∧ sregs.cr0 &&& cr0PeMask ≠ 0 then
        forceSsCpl (setSeg desc (getSeg desc (sregs.segment .cs)) 1 11) (setSeg desc (getSeg desc (sregs.segment .ss)) 1 3)
      else setSeg desc (getSeg desc (sregs.segment seg)) (segDefaults seg).1 (segDefaults seg).2 := fun seg => by
    unfold loadSegment
    rw [saveRegs_v8086]
    rfl
  have hss : forceSsCpl (setSeg desc (getSeg desc (sregs.segment .cs)) 1 11)
      (setSeg desc (getSeg desc (sregs.segment .ss)) 1 3) = sregs.segment .ss ↔ SegmentKept (sregs.segment .ss) ∧
        (sregs.segment .ss).selector &&& 3 = (sregs.segment .cs).selector &&& 3 := by
    have hdpl : (setSeg desc (getSeg desc (sregs.segment .ss)) 1 3).dpl =
        ((setSeg desc (getSeg desc (sregs.segment .ss)) 1 3).selector &&& 3).setWidth 8 := by
      unfold setSeg
      dsimp only
      rw [getSeg_dpl, getSeg_selector]
    rw [forceSsCpl_eq_iff (getSeg_selector desc _) hdpl, show (setSeg desc (getSeg desc (sregs.segment .cs)) 1 11).selector =
      (sregs.segment .cs).selector from getSeg_selector desc _]
    exact and_congr_left' (hset .ss)
  constructor
  · intro h
    have hseg := fun seg => (hloaded seg).symm.trans (congrFun h seg)
    refine ⟨fun seg hsys => ?_, fun hvm seg hsys => ?_, fun hvm seg hsys => ?_, fun hvm hpe => ?_⟩
    · have := hseg seg
      rw [if_pos hsys] at this
      exact (hset seg).1 this
    · have := hseg seg
      rw [if_neg hsys, if_pos hvm] at this
      exact (setV8086Seg_getSeg_eq_iff desc).1 this
    · have := hseg seg
      rw [if_neg hsys, if_neg (not_not.2 hvm)] at this
      by_cases hforce : seg = .ss ∧ sregs.cr0 &&& cr0PeMask ≠ 0
      · rw [if_pos hforce, hforce.1] at this
        rw [hforce.1]
        exact (hss.1 this).1
      · rw [if_neg hforce] at this
        exact (hset seg).1 this
    · have := hseg .ss
      rw [if_neg (by decide), if_neg (not_not.2 hvm), if_pos ⟨rfl, hpe⟩] at this
      exact (hss.1 this).2
  · rintro ⟨hsystem, hv8086, hsegments, hrpl⟩
    funext seg
    rw [hloaded]
    split_ifs with hsys hvm hforce
    · exact (hset seg).2 (hsystem seg hsys)
    · exact (setV8086Seg_getSeg_eq_iff desc).2 (hv8086 hvm seg hsys)
    · rw [hforce.1]
      exact hss.2 ⟨hforce.1 ▸ hsegments (not_not.1 hvm) seg hsys, hrpl (not_not.1 hvm) hforce.2⟩
    · exact (hset seg).2 (hsegments (not_not.1 hvm) seg hsys)

/-- **When registers survive QEMU.**  What `load_regs` passes is what `save_regs` got just if the condition codes and the
direction flag are clear, and, outside virtual-8086 mode, no segment has empty flags, each has the privilege of its selector
and SS that of CS; in virtual-8086 mode the segments must have the fixed fields. -/
theorem qemuRegs_iff (regs : KvmRegs) (sregs : ReportedSregs) :
    loadRegs desc apic (saveRegs desc apic env regs sregs.toGotSregs) = (regs, sregs.toKvmSregs) ↔
      RegsKept regs sregs.toKvmSregs := by
  have hrflags : regs.rflags &&& ~~~(dfMask ||| ccFlags) = regs.rflags ↔ regs.rflags &&& (dfMask ||| ccFlags) = 0 := by
    have := and_not_or_and_eq_iff regs.rflags 0 (dfMask ||| ccFlags)
    rwa [show 0 &&& (dfMask ||| ccFlags) = 0 from rfl, show regs.rflags &&& ~~~(dfMask ||| ccFlags) ||| 0 =
      regs.rflags &&& ~~~(dfMask ||| ccFlags) from BitVec.or_zero] at this
  have hsegments := loadSegment_eq_iff desc apic env regs sregs
  constructor
  · intro h
    have hregs : regs.rflags &&& ~~~(dfMask ||| ccFlags) = regs.rflags := congrArg (fun r => r.1.rflags) h
    obtain ⟨h1, h2, h3, h4⟩ := hsegments.1 (congrArg (fun r => r.2.segment) h)
    exact ⟨hrflags.1 hregs, h1, h2, h3, h4⟩
  · rintro ⟨hflags, h1, h2, h3, h4⟩
    have hseg := hsegments.2 ⟨h1, h2, h3, h4⟩
    have hlimit : ∀ limit : BitVec 16, (limit.setWidth 32).setWidth 16 = limit := fun limit =>
      BitVec.setWidth_setWidth_of_le _ (by decide)
    unfold loadRegs
    rw [hseg]
    unfold saveRegs
    dsimp only
    rw [hrflags.2 hflags, hlimit, hlimit, apic.getTpr_setBase, apic.getTpr_setTpr, apic.getBase_setBase]

/-! ### A carry flag at the time of saving -/

/-- The positions in a descriptor. -/
def descriptorLayout : DescLayout where
  shift
    | .type => 8 | .s => 12 | .dpl => 13 | .p => 15 | .avl => 20 | .l => 21 | .b => 22 | .g => 23
  inside f := by cases f <;> decide
  disjoint f f' h := by cases f <;> cases f' <;> first | exact absurd rfl h | decide

/-- An APIC that keeps the two values. -/
def plainApic : ApicAccessors (BitVec 64 × BitVec 64) where
  setTpr a v := (v, a.2)
  getTpr a := a.1
  setBase a v := (a.1, v)
  getBase a := a.2
  getTpr_setTpr _ _ := rfl
  getTpr_setBase _ _ := rfl
  getBase_setBase _ _ := rfl

/-- A vcpu in protected mode with flat segments, stopped while the carry flag is set. -/
def carryVcpu : IrqVcpu .x86_64 where
  toKvmVcpu := { (default : KvmVcpu) with
    vmcs := fun field => match field with
      | .guestCsArBytes => 0xc09b
      | .guestSsArBytes | .guestDsArBytes | .guestEsArBytes | .guestFsArBytes | .guestGsArBytes => 0xc093
      | .guestTrArBytes => 0x8b
      | .guestLdtrArBytes => 0x82
      | .guestCr0 => 1
      | .guestRflags => 3
      | _ => 0 }
  irqSummary := 0
  irqPending _ := 0

/-- The carry flag is not passed back. -/
theorem carry_lost : ¬∀ (env : CPUState (BitVec 64 × BitVec 64)) (s : IrqVcpu .x86_64),
    loadRegs descriptorLayout plainApic (saveRegs descriptorLayout plainApic env (kvmGetRegs s.toKvmVcpu) (getSregs s)) =
      (kvmGetRegs s.toKvmVcpu, (getSregs s).toKvmSregs) := by
  intro hall
  let zeroSeg : SegmentCache := ⟨0, 0, 0, 0⟩
  let env : CPUState (BitVec 64 × BitVec 64) :=
    ⟨fun _ => 0, 0, 0, 0, .eflags, 1, fun _ => zeroSeg, zeroSeg, zeroSeg, 0, 0, 0, 0, 0, (0, 0), 0⟩
  have hkept := (qemuRegs_iff descriptorLayout plainApic env (kvmGetRegs carryVcpu.toKvmVcpu) (reportedSregs carryVcpu)).1
    (hall env carryVcpu)
  exact absurd hkept.flags (by decide)

end LearnKvm
