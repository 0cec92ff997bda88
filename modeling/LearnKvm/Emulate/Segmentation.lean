import LearnKvm.Emulate.Addressing
import LearnKvm.Emulate.Instruction

/-!
# Segments of 32- and 64-bit operands (`kvm_main.c`, `x86_emulate.c`)

`emulate_instruction` loads the bases of the segments, all 0 in 64-bit mode, the prefixes choose one of them, and the
decoder adds it to the offset of the operand.
-/

namespace LearnKvm

open Calls

def SegBase.field : SegBase → VmcsField
  | .cs => .guestCsBase
  | .ds => .guestDsBase
  | .es => .guestEsBase
  | .fs => .guestFsBase
  | .gs => .guestGsBase
  | .ss => .guestSsBase

def vmcsBase (v : Vmcs) (seg : SegBase) : ULong .x86_64 := vmcsReadl v seg.field

/-- The base of a segment.  In 64-bit mode only FS and GS have one. -/
def segmentBase (v : Vmcs) (mode : X86EmulMode) (seg : SegBase) : ULong .x86_64 :=
  if mode = .prot64 ∧ seg ≠ .fs ∧ seg ≠ .gs then 0#_ else vmcsBase v seg

/-- SS for the forms with ESP or EBP as base. -/
def EaForm.segment (f : EaForm) : SegBase := if f.base = some vcpuRegsRsp ∨ f.base = some vcpuRegsRbp then .ss else .ds

/-- Base and truncated offset.  Linear addresses have 32 bits outside 64-bit mode. -/
def linearAddress (mode : X86EmulMode) (base : ULong .x86_64) (adBytes : Nat) (offset : ULong .x86_64) : ULong .x86_64 :=
  if mode = .prot64 then base + lowBytes adBytes offset else lowBytes 4 (base + lowBytes adBytes offset)

theorem linearAddress_flat {mode : X86EmulMode} (hmode : mode ≠ .prot64) (base offset : ULong .x86_64) :
    linearAddress mode base 4 offset = lowBytes 4 (offset + base) := by
  have htrunc : lowBytes 4 (lowBytes 4 offset + base) = lowBytes 4 (offset + base) := lowBytes_add (lowBytes_lowBytes 4 offset) base
  unfold linearAddress
  rw [if_neg hmode, BitVec.add_comm, htrunc]

theorem segmentBase_long {mode : X86EmulMode} (hmode : mode = .prot64) (v : Vmcs) (seg : SegBase) :
    segmentBase v mode seg = if seg = .fs ∨ seg = .gs then vmcsBase v seg else 0#_ := by
  unfold segmentBase
  cases seg <;> simp [hmode]

theorem EaForm.segment_cases (f : EaForm) : f.segment = .ss ∨ f.segment = .ds := by
  unfold EaForm.segment
  split
  · exact Or.inl rfl
  · exact Or.inr rfl

theorem emulateCtxt_base (v : KvmVcpu) (cr2 : BitVec 64) (seg : SegBase) :
    (emulateCtxt v cr2).base seg = if emulMode v.vmcs = .prot64 then 0#_ else vmcsBase v.vmcs seg := by
  cases seg <;> rfl

/-- The base that the decoder adds. -/
theorem modrmBase_emulateCtxt (v : KvmVcpu) (cr2 : BitVec 64) (overrideBase : Option SegBase) :
    modrmBase (emulateCtxt v cr2) overrideBase =
      if emulMode v.vmcs = .prot64 then 0#_ else vmcsBase v.vmcs (overrideBase.getD .ds) := by
  unfold modrmBase
  dsimp only
  rw [emulateCtxt_base]
  by_cases hmode : emulMode v.vmcs = .prot64
  · rw [if_pos hmode, ite_self]
  · rw [if_neg (show ¬ ((emulateCtxt v cr2).mode = .prot64 ∧ _) from fun hno => hmode hno.1)]

/-- The offset of the operand that the decoder takes. -/
def Encoding.emulatedOffset {arch : Arch} (ctxt : X86EmulateCtxt arch) (code : ByteMem.Mem arch.bitsPerLong)
    (e : Encoding) : ULong arch :=
  let f := e.emulatedForm ctxt.mode (e.modrm ctxt code) (e.sib ctxt code)
  f.offset ctxt.regs code (e.modrmAddr ctxt)
    ((e.prefixesAt ctxt).eip + BitVec.ofNat _ f.length +
      BitVec.ofNat _ ((flagImm e.d).bytes (e.prefixesAt ctxt).opBytes))

/-- It is the one of the table, outside the rows without base with REX.B and a test relative to the next instruction. -/
theorem Encoding.emulatedOffset_eq {arch : Arch} {ctxt : X86EmulateCtxt arch} {code : ByteMem.Mem arch.bitsPerLong}
    {e : Encoding} (hm : e.HasModrm) (hop : 1 ≤ (e.prefixesAt ctxt).opBytes)
    (hhidden : ¬ e.HiddenDisp (e.modrm ctxt code) (e.sib ctxt code)) (htest : ¬ e.RipRelativeTest ctxt code) :
    e.emulatedOffset ctxt code = (e.formAt ctxt code).offset ctxt.regs code (e.modrmAddr ctxt)
      (ctxt.rip + BitVec.ofNat _ (e.lengthWith ctxt code (e.formAt ctxt code).length)) := by
  have hform : e.emulatedForm ctxt.mode (e.modrm ctxt code) (e.sib ctxt code) = e.formAt ctxt code :=
    emulatedForm_eq hhidden
  unfold emulatedOffset
  dsimp only
  rw [hform]
  by_cases hrel : (e.formAt ctxt code).ripRelative = true
  · have hflag := (flagImm_iff hm hop (e.reg ctxt code)).2 fun hno => htest ⟨hrel, hno⟩
    have hnext : (e.prefixesAt ctxt).eip = ctxt.rip + BitVec.ofNat _ e.bytes.length := rfl
    rw [hflag, hnext, ByteMem.add_ofNat, ByteMem.add_ofNat, ← Nat.add_assoc]
    rfl
  · unfold EaForm.offset
    rw [if_neg hrel, if_neg hrel]

/-- The address is that of the segment. -/
def Segmented (v : KvmVcpu) (ctxt : X86EmulateCtxt .x86_64) (code : EmulMem .x86_64) (e : Encoding)
    (i : Insn .x86_64) : Prop :=
  i.cr2 = linearAddress ctxt.mode (segmentBase v.vmcs ctxt.mode (e.segment.getD (e.formAt ctxt code).segment)) i.adBytes
    (e.emulatedOffset ctxt code)

/-- Where the bases are 0 in 64-bit mode, and the forms without override use the base of DS. -/
structure SegmentedWhen (v : KvmVcpu) (ctxt : X86EmulateCtxt .x86_64) (code : EmulMem .x86_64) (e : Encoding) : Prop where
  /-- FS and GS have their bases in 64-bit mode, too. -/
  long : ctxt.mode = .prot64 → ∀ seg, e.segment = some seg → seg = .fs ∨ seg = .gs → vmcsBase v.vmcs seg = 0#_
  /-- The stack segment is for the forms with ESP and EBP. -/
  stack : ctxt.mode ≠ .prot64 → e.segment = none → (e.formAt ctxt code).segment = .ss →
    lowBytes 4 (vmcsBase v.vmcs .ds) = lowBytes 4 (vmcsBase v.vmcs .ss)

section

variable {σ : Type} {h : (c : OpCall .x86_64) → σ → OpReply .x86_64 c × σ} {code : EmulMem .x86_64} {I : σ → Prop}
  {v : KvmVcpu} {cr2 : BitVec 64} {e : Encoding} {s : σ} {i : Insn .x86_64}

/-- **Segments of 32- and 64-bit operands**: for every mode, override, bases and operand form, the linear address is that
of the segment, exactly if in 64-bit mode the base of an override with FS or GS is 0, and elsewhere the forms on the stack
without an override find SS where DS is.  The offset is that of the table, outside the rows without base with REX.B and a test
relative to the next instruction. -/
theorem emulate_segmentation (hf : Fetches h code I) (hs : I s) (he : e.Valid (emulateCtxt v cr2).mode)
    (hat : CodeAt code ((emulateCtxt v cr2).rip + (emulateCtxt v cr2).csBase) e.bytes) (hm : e.HasModrm)
    (hmod : modField (e.modrm (emulateCtxt v cr2) code) ≠ 3) (had : (e.prefixesAt (emulateCtxt v cr2)).adBytes ≠ 2)
    (hi : ((decode (emulateCtxt v cr2)).run h s).result = .ok i) :
    (Segmented v (emulateCtxt v cr2) code e i ↔ SegmentedWhen v (emulateCtxt v cr2) code e) ∧
      (¬ e.HiddenDisp (e.modrm (emulateCtxt v cr2) code) (e.sib (emulateCtxt v cr2) code) →
        ¬ e.RipRelativeTest (emulateCtxt v cr2) code →
          e.emulatedOffset (emulateCtxt v cr2) code =
            (e.formAt (emulateCtxt v cr2) code).offset (emulateCtxt v cr2).regs code (e.modrmAddr (emulateCtxt v cr2))
              ((emulateCtxt v cr2).rip + BitVec.ofNat _
                (e.lengthWith (emulateCtxt v cr2) code (e.formAt (emulateCtxt v cr2) code).length))) := by
  obtain ⟨sizes, hmodes⟩ := modeBytes_of_decode hi
  refine ⟨?_, Encoding.emulatedOffset_eq hm (Encoding.prefixes_sizes hmodes he _).op_le.1⟩
  obtain ⟨has, hcr2, -⟩ := decoded_ea32 hf hs he hat hm hmod had hi
  have hadi := has.adBytes
  have hdec := decoded hi
  have hsizes := hdec.sizes.ad
  have hoverride : (e.prefixesAt (emulateCtxt v cr2)).overrideBase = e.segment := Encoding.prefixes_overrideBase ..
  have hcr2 : i.cr2 = if i.adBytes ≠ 8 then
      lowBytes 4 (e.emulatedOffset (emulateCtxt v cr2) code + modrmBase (emulateCtxt v cr2) e.segment)
    else e.emulatedOffset (emulateCtxt v cr2) code + modrmBase (emulateCtxt v cr2) e.segment := by
    rw [hcr2, hadi, hoverride]
    rfl
  rw [hdec.mode] at hsizes
  rw [← hadi] at had
  unfold Segmented
  by_cases hmode : (emulateCtxt v cr2).mode = .prot64
  · have hbase : modrmBase (emulateCtxt v cr2) e.segment = 0#_ := by
      rw [modrmBase_emulateCtxt]
      exact if_pos hmode
    rw [if_pos hmode] at hsizes
    have hlow : i.cr2 = lowBytes i.adBytes (e.emulatedOffset (emulateCtxt v cr2) code) := by
      rw [hcr2, hbase, BitVec.add_zero]
      rcases hsizes with h4 | h8
      · rw [h4, if_pos (by decide)]
      · rw [h8, if_neg (by decide), lowBytes_of_le (by decide)]
    have hright : lowBytes i.adBytes (e.emulatedOffset (emulateCtxt v cr2) code) =
        segmentBase v.vmcs (emulateCtxt v cr2).mode (e.segment.getD (e.formAt (emulateCtxt v cr2) code).segment) +
          lowBytes i.adBytes (e.emulatedOffset (emulateCtxt v cr2) code) ↔
        segmentBase v.vmcs (emulateCtxt v cr2).mode (e.segment.getD (e.formAt (emulateCtxt v cr2) code).segment) = 0#_ :=
      BitVec.self_eq_add_left
    unfold linearAddress
    rw [if_pos hmode, hlow, hright, segmentBase_long hmode]
    constructor
    · intro hzero
      refine ⟨fun _ seg hseg hfg => ?_, fun hno => absurd hmode hno⟩
      rw [hseg, Option.getD_some, if_pos hfg] at hzero
      exact hzero
    · intro hwhen
      cases hseg : e.segment with
      | none =>
        rcases (e.formAt (emulateCtxt v cr2) code).segment_cases with hss | hds
        · rw [Option.getD_none, hss]
          rfl
        · rw [Option.getD_none, hds]
          rfl
      | some seg =>
        by_cases hfg : seg = .fs ∨ seg = .gs
        · rw [Option.getD_some, if_pos hfg]
          exact hwhen.long hmode seg hseg hfg
        · rw [Option.getD_some, if_neg hfg]
  · rw [if_neg hmode] at hsizes
    have h4 : i.adBytes = 4 := hsizes.resolve_left had
    have hbase : modrmBase (emulateCtxt v cr2) e.segment = vmcsBase v.vmcs (e.segment.getD .ds) := by
      rw [modrmBase_emulateCtxt]
      exact if_neg hmode
    have hseg : ∀ seg, segmentBase v.vmcs (emulateCtxt v cr2).mode seg = vmcsBase v.vmcs seg :=
      fun _ => if_neg fun hno => hmode hno.1
    rw [hcr2, h4, if_pos (by decide), hbase, hseg, linearAddress_flat hmode, BitVec.add_comm _ (vmcsBase _ _),
      BitVec.add_comm _ (vmcsBase _ _), lowBytes_add_iff]
    constructor
    · intro heq
      refine ⟨fun hno => absurd hno hmode, fun _ hnone hss => ?_⟩
      rw [hnone, hss] at heq
      exact heq
    · intro hwhen
      cases hseg : e.segment with
      | some seg => rfl
      | none =>
        rcases (e.formAt (emulateCtxt v cr2) code).segment_cases with hss | hds
        · rw [hss]
          exact hwhen.stack hmode hseg hss
        · rw [hds]

end

/-- A vcpu in 32-bit mode with a base of SS. -/
def stackBaseVcpu (ssBase : BitVec 64) : KvmVcpu :=
  { (default : KvmVcpu) with
    vmcs := fun field => match field with
      | .guestCsArBytes => 0x4000
      | .guestSsBase => ssBase
      | _ => 0 }

/-- `mov (%esp), %eax`. -/
def movEsp : Encoding := ⟨[], none, false, 0x8b⟩

def movEspCode : EmulMem .x86_64 := codeAtZero .x86_64 [0x8b, 0x04, 0x24]

theorem movEsp_valid (ssBase : BitVec 64) : movEsp.Valid (emulateCtxt (stackBaseVcpu ssBase) 0).mode where
  legacy := by simp [movEsp]
  rex := by simp [movEsp]
  first := by decide
  noRex := fun _ => by decide
  onebyte := fun _ => by decide

def movEspInsn : Insn .x86_64 where
  b := 0x8b
  twobyte := false
  mode := .prot32
  opBytes := 4
  adBytes := 4
  overrideBase := none
  lockPrefix := false
  repPrefix := false
  rexPrefix := 0
  modrmReg := 0
  modrmVal := 0
  cr2 := 0
  eip := 3

theorem emulate_segmentation_small :
    (Segmented (stackBaseVcpu 0) (emulateCtxt (stackBaseVcpu 0) 0) movEspCode movEsp movEspInsn ↔
      SegmentedWhen (stackBaseVcpu 0) (emulateCtxt (stackBaseVcpu 0) 0) movEspCode movEsp) ∧
      (¬ movEsp.HiddenDisp (movEsp.modrm (emulateCtxt (stackBaseVcpu 0) 0) movEspCode)
          (movEsp.sib (emulateCtxt (stackBaseVcpu 0) 0) movEspCode) →
        ¬ movEsp.RipRelativeTest (emulateCtxt (stackBaseVcpu 0) 0) movEspCode →
          movEsp.emulatedOffset (emulateCtxt (stackBaseVcpu 0) 0) movEspCode =
            (movEsp.formAt (emulateCtxt (stackBaseVcpu 0) 0) movEspCode).offset (emulateCtxt (stackBaseVcpu 0) 0).regs movEspCode
              (movEsp.modrmAddr (emulateCtxt (stackBaseVcpu 0) 0)) ((emulateCtxt (stackBaseVcpu 0) 0).rip + BitVec.ofNat _
                (movEsp.lengthWith (emulateCtxt (stackBaseVcpu 0) 0) movEspCode
                  (movEsp.formAt (emulateCtxt (stackBaseVcpu 0) 0) movEspCode).length))) :=
  emulate_segmentation (flatOps_fetches movEspCode) rfl (movEsp_valid 0) ⟨rfl, trivial⟩
    (by unfold Encoding.HasModrm; decide) (by decide) (by decide) rfl

/-- The base of SS is 0x1000, that of DS is 0, and the operand is at 0. -/
theorem stack_operand_in_ds : ¬∀ (h : (c : OpCall .x86_64) → EmulMem .x86_64 → OpReply .x86_64 c × EmulMem .x86_64)
    (code : EmulMem .x86_64) (I : EmulMem .x86_64 → Prop) (v : KvmVcpu) (cr2 : BitVec 64) (e : Encoding)
    (m : EmulMem .x86_64) (i : Insn .x86_64), Fetches h code I → I m → e.Valid (emulateCtxt v cr2).mode →
      CodeAt code ((emulateCtxt v cr2).rip + (emulateCtxt v cr2).csBase) e.bytes → e.HasModrm →
        modField (e.modrm (emulateCtxt v cr2) code) ≠ 3 → (e.prefixesAt (emulateCtxt v cr2)).adBytes ≠ 2 →
          ((decode (emulateCtxt v cr2)).run h m).result = .ok i → Segmented v (emulateCtxt v cr2) code e i := by
  intro hall
  have hseg := hall (flatOps .x86_64) movEspCode (· = movEspCode) (stackBaseVcpu 0x1000) 0 movEsp movEspCode movEspInsn
    (flatOps_fetches _) rfl (movEsp_valid _) ⟨rfl, trivial⟩ (by unfold Encoding.HasModrm; decide) (by decide) (by decide)
    rfl
  exact absurd (show (0 : BitVec 64) = 0x1000 from hseg) (by decide)

end LearnKvm
