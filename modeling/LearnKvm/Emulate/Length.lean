import LearnKvm.Emulate.Decoded

/-!
# The length of an instruction (`x86_emulate.c`)

Behind the ModRM operand an instruction may have an immediate.  The shadow instruction pointer of a committed instruction
with a ModRM byte is behind it (`executeAndWriteback_eip`).
-/

namespace LearnKvm

open Calls

variable {arch : Arch}

inductive ImmSize where
  | none | byte | full
  deriving DecidableEq

/-- There are no immediates of 8 bytes. -/
def ImmSize.bytes (opBytes : Nat) : ImmSize → Nat
  | none => 0
  | byte => 1
  | full => if opBytes = 8 then 4 else opBytes

/-- The immediate, by the tables of the architecture.  The instructions f6 and f7 have one if ModRM.reg says test. -/
def immSize (twobyte : Bool) (b : BitVec 8) (reg : RegIndex) : ImmSize :=
  if twobyte then if b = 0xba then .byte else .none
  else if b = 0x80 ∨ b = 0x82 ∨ b = 0x83 ∨ b = 0xc0 ∨ b = 0xc1 ∨ b = 0xc6 then .byte
  else if b = 0x81 ∨ b = 0xc7 then .full
  else if b = 0xf6 ∧ reg &&& 6 = 0 then .byte
  else if b = 0xf7 ∧ reg &&& 6 = 0 then .full
  else .none

def Insn.immediateLength (i : Insn arch) : Nat := (immSize i.twobyte i.b i.modrmReg).bytes i.opBytes

/-- The instruction has the hidden immediate of Grp3. -/
def Insn.IsTest (i : Insn arch) : Prop := i.twobyte = false ∧ (i.b = 0xf6 ∨ i.b = 0xf7) ∧ i.modrmReg &&& 6 = 0

/-! ### The operands -/

/-- The immediate that the decode flags ask for. -/
def flagSize (d : BitVec 8) : ImmSize := if d &&& byteOp != 0 then .byte else .full

def flagImm (d : BitVec 8) : ImmSize :=
  if d &&& srcMask = srcImm then flagSize d else if d &&& srcMask = srcImmByte then .byte else .none

def Insn.srcBytes (i : Insn arch) : Nat := (flagImm i.d).bytes i.opBytes

theorem Insn.immBytes_eq (i : Insn arch) : i.immBytes = (flagSize i.d).bytes i.opBytes := by
  unfold Insn.immBytes Insn.operandBytes Insn.isByteOp flagSize
  split <;> rfl

theorem fetchImmSrc_eip (ctxt : X86EmulateCtxt arch) (bytes : Nat) (eip : ULong arch) :
    (fetchImmSrc ctxt bytes eip).Within (fun _ => True) fun r => r.2 = eip + BitVec.ofNat _ bytes := by
  refine ⟨trivial, fun r => ?_⟩
  cases r with
  | ok v => rfl
  | error rc => trivial

theorem fetchMemSrc_eip (i : Insn arch) (bytes : Nat) (eip : ULong arch) :
    (fetchMemSrc i bytes eip).Within (fun _ => True) fun r => r.2 = eip := by
  refine ⟨trivial, fun r => ?_⟩
  cases r with
  | ok v => rfl
  | error rc => trivial

theorem fetchSrc_eip (ctxt : X86EmulateCtxt arch) (i : Insn arch) :
    (fetchSrc ctxt i).Within (fun _ => True) fun r => r.2 = i.eip + BitVec.ofNat _ i.srcBytes := by
  have hzero : ∀ {s : BitVec 8}, i.d &&& srcMask = s → s ≠ srcImm → s ≠ srcImmByte →
      i.eip + BitVec.ofNat _ i.srcBytes = i.eip := by
    intro s hs himm hbyte
    unfold Insn.srcBytes flagImm
    rw [hs, if_neg himm, if_neg hbyte]
    exact BitVec.add_zero _
  unfold fetchSrc
  dsimp only
  refine Prog.Within.ite (fun hs => ?_) fun _ => ?_
  · exact (hzero hs (by decide) (by decide)).symm
  refine Prog.Within.ite (fun hs => ?_) fun _ => ?_
  · rw [hzero hs (by decide) (by decide)]
    exact fetchMemSrc_eip i 2 i.eip
  refine Prog.Within.ite (fun hs => ?_) fun _ => ?_
  · rw [hzero hs (by decide) (by decide)]
    exact fetchMemSrc_eip i 4 i.eip
  refine Prog.Within.ite (fun hs => ?_) fun _ => ?_
  · rw [hzero hs (by decide) (by decide)]
    exact fetchMemSrc_eip i i.operandBytes i.eip
  refine Prog.Within.ite (fun hs => ?_) fun himm => ?_
  · have hbytes : i.srcBytes = i.immBytes := by
      rw [Insn.immBytes_eq]
      exact congrArg (ImmSize.bytes i.opBytes) (if_pos hs)
    rw [hbytes]
    exact fetchImmSrc_eip ctxt i.immBytes i.eip
  refine Prog.Within.ite (fun hs => ?_) fun hbyte => ?_
  · have hbytes : i.srcBytes = 1 := congrArg (ImmSize.bytes i.opBytes) ((if_neg himm).trans (if_pos hs))
    rw [hbytes]
    exact fetchImmSrc_eip ctxt 1 i.eip
  · exact (hzero rfl himm hbyte).symm

/-! ### The instructions -/

theorem popInsn_eip (ctxt : X86EmulateCtxt arch) (i : Insn arch) (x : Exec arch) :
    (popInsn ctxt i x).Within (fun _ => True) fun y => y.eip = x.eip := by
  refine ⟨trivial, fun r => ?_⟩
  cases r with
  | ok v => rfl
  | error rc => trivial

theorem pushInsn_eip (ctxt : X86EmulateCtxt arch) (i : Insn arch) (x : Exec arch) :
    (pushInsn ctxt i x).Within (fun _ => True) fun y => y.eip = x.eip := by
  refine Prog.Within.bind (Q := fun y => y.eip = x.eip) ?_ fun y hy => ?_
  · unfold pushOperand
    split
    · refine ⟨trivial, fun r => ?_⟩
      cases r with
      | ok v => rfl
      | error rc => trivial
    · rfl
  · refine ⟨trivial, fun r => ?_⟩
    cases r with
    | ok v => exact hy
    | error rc => trivial

theorem no_modrm (b : BitVec 8) (hb : inCase b 0xa0 0xa1 = true ∨ inCase b 0xa2 0xa3 = true) :
    opcodeTable.getD b.toNat 0 &&& modRM = 0 := by
  rcases hb with hb | hb
  · rcases inCase_pair hb rfl with rfl | rfl <;> rfl
  · rcases inCase_pair hb rfl with rfl | rfl <;> rfl

/-- Outside Grp3 no immediate is fetched here. -/
theorem onebyteInsn_eip (cpu : HostCpu arch) (ctxt : X86EmulateCtxt arch) {i : Insn arch} (x : Exec arch)
    (ht : i.twobyte = false) (hd : i.d &&& modRM ≠ 0) (hgrp3 : ¬ inCase i.b 0xf6 0xf7 = true) :
    (onebyteInsn cpu ctxt i x).Within (fun _ => True) fun y => y.eip = x.eip := by
  rw [Insn.d_onebyte ht] at hd
  unfold onebyteInsn
  dsimp only
  iterate 8 refine Prog.Within.ite (fun _ => rfl) fun _ => ?_
  refine Prog.Within.ite (fun _ => Prog.Within.ite (fun _ => rfl) fun _ => trivial) fun _ => ?_
  refine Prog.Within.ite (fun _ => ?_) fun _ => ?_
  · unfold Exec.grp
    split <;> rfl
  iterate 2 refine Prog.Within.ite (fun _ => rfl) fun _ => ?_
  refine Prog.Within.ite (fun hb => absurd (no_modrm i.b (Or.inl hb)) hd) fun _ => ?_
  refine Prog.Within.ite (fun hb => absurd (no_modrm i.b (Or.inr hb)) hd) fun _ => ?_
  refine Prog.Within.ite (fun _ => rfl) fun _ => ?_
  refine Prog.Within.ite (fun _ => popInsn_eip ctxt i x) fun _ => ?_
  iterate 3
    refine Prog.Within.ite (fun _ => ?_) fun _ => ?_
    · unfold Exec.grp
      split <;> rfl
  refine Prog.Within.ite (fun hb => absurd hb hgrp3) fun _ => ?_
  refine Prog.Within.ite (fun _ => ?_) fun _ => rfl
  unfold grp45
  refine Prog.Within.ite (fun _ => rfl) fun _ => ?_
  refine Prog.Within.ite (fun _ => rfl) fun _ => ?_
  exact Prog.Within.ite (fun _ => pushInsn_eip ctxt i x) fun _ => trivial

theorem grp3_eip (cpu : HostCpu arch) (ctxt : X86EmulateCtxt arch) (i : Insn arch) (x : Exec arch) :
    (grp3 cpu ctxt i x).Within (fun _ => True) fun y =>
      y.eip = x.eip + BitVec.ofNat _ (if i.modrmReg &&& 6 = 0 then i.immBytes else 0) := by
  unfold grp3
  refine Prog.Within.ite (fun hreg => ?_) fun htest => ?_
  · have hreg : i.modrmReg &&& 6 = 0 := by
      rcases hreg with hreg | hreg
      · rw [hreg]
        rfl
      · rw [hreg]
        rfl
    rw [if_pos hreg]
    refine Prog.Within.bind (fetchImmSrc_eip ctxt i.immBytes x.eip) ?_
    rintro ⟨src, eip⟩ heip
    exact heip
  · refine Prog.Within.ite (fun hreg => ?_) fun _ => ?_
    · rw [hreg]
      exact (BitVec.add_zero _).symm
    · refine Prog.Within.ite (fun hreg => ?_) fun _ => trivial
      rw [hreg]
      exact (BitVec.add_zero _).symm

theorem grp7_eip (i : Insn arch) (x : Exec arch) : (grp7 i x).Within (fun _ => True) fun y => y.eip = x.eip := by
  have hread : ∀ ptr : ULong arch, (readDescriptor ptr i.opBytes).Within (fun _ => True) fun _ => True := by
    intro ptr
    refine ⟨trivial, fun r => ?_⟩
    cases r with
    | ok v =>
      refine ⟨trivial, fun r => ?_⟩
      cases r with
      | ok w => trivial
      | error rc => trivial
    | error rc => trivial
  unfold grp7
  refine Prog.Within.ite (fun _ => Prog.Within.bind (hread _) fun _ _ => ⟨trivial, fun _ => rfl⟩) fun _ => ?_
  refine Prog.Within.ite (fun _ => Prog.Within.bind (hread _) fun _ _ => ⟨trivial, fun _ => rfl⟩) fun _ => ?_
  exact Prog.Within.ite (fun _ => ⟨trivial, fun _ => rfl⟩) fun _ => trivial

theorem twobyteInsn_eip (cpu : HostCpu arch) (i : Insn arch) (x : Exec arch) :
    (twobyteInsn cpu i x).Within (fun _ => True) fun y => y.eip = x.eip := by
  have hbit : ∀ op, (x.bitOp cpu op).eip = x.eip := by
    intro op
    unfold Exec.bitOp Exec.emulate2opNobyte
    split <;> rfl
  unfold twobyteInsn
  dsimp only
  refine Prog.Within.ite (fun _ => grp7_eip i x) fun _ => ?_
  refine Prog.Within.ite (fun _ => rfl) fun _ => ?_
  refine Prog.Within.ite (fun _ => ?_) fun _ => ?_
  · show (x.cmpxchg cpu).eip = x.eip
    unfold Exec.cmpxchg
    dsimp only
    split <;> rfl
  iterate 3 refine Prog.Within.ite (fun _ => hbit _) fun _ => ?_
  refine Prog.Within.ite (fun _ => rfl) fun _ => ?_
  iterate 2 refine Prog.Within.ite (fun _ => hbit _) fun _ => ?_
  exact Prog.Within.ite (fun _ => rfl) fun _ => rfl

theorem twobyteSpecialInsn_eip (hasCmpxchg8b : Bool) (ctxt : X86EmulateCtxt arch) {i : Insn arch}
    (ht : i.twobyte = true) (hd : i.d &&& modRM ≠ 0) :
    (twobyteSpecialInsn hasCmpxchg8b ctxt i).Within (fun _ => True) fun y => y.eip = i.eip := by
  have hcr : ∀ b : BitVec 8, b = 0x20 ∨ b = 0x22 → twobyteTable.getD b.toNat 0 &&& modRM = 0 := by
    rintro b (rfl | rfl) <;> rfl
  rw [Insn.d_twobyte ht] at hd
  unfold twobyteSpecialInsn
  dsimp only
  refine Prog.Within.ite (fun hb => absurd (hcr i.b (Or.inl hb)) hd) fun _ => ?_
  refine Prog.Within.ite (fun hb => absurd (hcr i.b (Or.inr hb)) hd) fun _ => ?_
  refine Prog.Within.ite (fun _ => ?_) fun _ => rfl
  unfold cmpxchg8b
  refine Prog.Within.ite (fun _ => ?_) fun _ => ?_
  · refine ⟨trivial, fun r => ?_⟩
    cases r with
    | error rc => trivial
    | ok lo =>
      refine ⟨trivial, fun r => ?_⟩
      cases r with
      | error rc => trivial
      | ok hi =>
        refine Prog.Within.ite (fun _ => rfl) fun _ => ?_
        refine Prog.Within.ite (fun _ => trivial) fun _ => ⟨trivial, fun r => ?_⟩
        cases r with
        | ok u => rfl
        | error rc => trivial
  · refine ⟨trivial, fun r => ?_⟩
    cases r with
    | error rc => trivial
    | ok old =>
      refine Prog.Within.ite (fun _ => rfl) fun _ => ⟨trivial, fun r => ?_⟩
      cases r with
      | ok u => rfl
      | error rc => trivial

theorem writeback_eip (y : Exec arch) : (writeback y).Within (fun _ => True) fun x => x.eip = y.eip := by
  unfold writeback
  refine Prog.Within.ite (fun _ => ?_) fun _ => rfl
  cases y.dst.ptr with
  | reg ptr => rfl
  | imm => rfl
  | mem addr =>
    cases y.lockPrefix with
    | true =>
      refine ⟨trivial, fun r => ?_⟩
      cases r with
      | ok u => rfl
      | error rc => trivial
    | false =>
      refine ⟨trivial, fun r => ?_⟩
      cases r with
      | ok u => rfl
      | error rc => trivial

/-! ### The tables -/

theorem onebyte_imm : ∀ b : BitVec 8, opcodeTable.getD b.toNat 0 &&& modRM ≠ 0 → ¬ inCase b 0xf6 0xf7 = true →
    flagImm (opcodeTable.getD b.toNat 0) = immSize false b 2 :=
  table_all (P := fun b d => d &&& modRM ≠ 0 → ¬ inCase b 0xf6 0xf7 = true → flagImm d = immSize false b 2)
    opcodeTable_length (by decide +kernel)

theorem onebyte_modrm : ∀ b : BitVec 8, opcodeTable.getD b.toNat 0 &&& modRM ≠ 0 →
    opcodeTable.getD b.toNat 0 &&& dstMask ≠ implicitOps :=
  table_all (P := fun _ d => d &&& modRM ≠ 0 → d &&& dstMask ≠ implicitOps) opcodeTable_length (by decide +kernel)

theorem twobyte_imm : ∀ b : BitVec 8, twobyteTable.getD b.toNat 0 &&& modRM ≠ 0 →
    flagImm (twobyteTable.getD b.toNat 0) = immSize true b 2 ∧
      (twobyteTable.getD b.toNat 0 &&& dstMask = implicitOps → immSize true b 2 = .none) :=
  table_all (P := fun b d => d &&& modRM ≠ 0 →
    flagImm d = immSize true b 2 ∧ (d &&& dstMask = implicitOps → immSize true b 2 = .none)) twobyteTable_length
    (by decide +kernel)

theorem immSize_reg {b : BitVec 8} (hno : ¬ inCase b 0xf6 0xf7 = true) (reg : RegIndex) :
    immSize false b reg = immSize false b 2 := by
  have h6 : ¬ b = 0xf6 := fun hb => hno (by rw [hb]; rfl)
  have h7 : ¬ b = 0xf7 := fun hb => hno (by rw [hb]; rfl)
  unfold immSize
  simp only [h6, h7, false_and, if_false]

theorem immSize_test {b : BitVec 8} (hb : b = 0xf6 ∨ b = 0xf7) {reg : RegIndex} (hreg : reg &&& 6 = 0) :
    immSize false b reg = flagSize (opcodeTable.getD b.toNat 0) := by
  rcases hb with hb | hb
  · rw [hb]
    unfold immSize
    simp only [hreg, and_true]
    rfl
  · rw [hb]
    unfold immSize
    simp only [hreg, and_true]
    rfl

theorem immSize_nontest {b : BitVec 8} (hb : b = 0xf6 ∨ b = 0xf7) {reg : RegIndex} (hreg : ¬ reg &&& 6 = 0) :
    immSize false b reg = .none := by
  rcases hb with hb | hb
  · rw [hb]
    unfold immSize
    simp only [hreg, and_false]
    rfl
  · rw [hb]
    unfold immSize
    simp only [hreg, and_false]
    rfl

section

variable {ctxt : X86EmulateCtxt arch} {i : Insn arch}

theorem onebyte_eip (cpu : HostCpu arch) (ht : i.twobyte = false) (hm : i.d &&& modRM ≠ 0)
    {x : Exec arch} (hx : x.eip = i.eip + BitVec.ofNat _ i.srcBytes) :
    (onebyteInsn cpu ctxt i x).Within (fun _ => True) fun y => y.eip = i.eip + BitVec.ofNat _ i.immediateLength := by
  have htable := Insn.d_onebyte ht
  by_cases hgrp3 : inCase i.b 0xf6 0xf7 = true
  · -- the immediate of test is fetched here
    have hinsn : onebyteInsn cpu ctxt i x = grp3 cpu ctxt i x := by
      unfold onebyteInsn
      rcases inCase_pair hgrp3 rfl with hb | hb
      · rw [hb]
        rfl
      · rw [hb]
        rfl
    have hsrc : i.srcBytes = 0 := by
      unfold Insn.srcBytes
      rw [htable]
      rcases inCase_pair hgrp3 rfl with hb | hb
      · rw [hb]
        rfl
      · rw [hb]
        rfl
    have himm : (if i.modrmReg &&& 6 = 0 then i.immBytes else 0) = i.immediateLength := by
      rw [Insn.immBytes_eq, htable]
      unfold Insn.immediateLength
      rw [ht]
      by_cases hreg : i.modrmReg &&& 6 = 0
      · rw [if_pos hreg, immSize_test (inCase_pair hgrp3 rfl) hreg]
      · rw [if_neg hreg, immSize_nontest (inCase_pair hgrp3 rfl) hreg]
        rfl
    rw [hinsn, ← himm]
    apply (grp3_eip cpu ctxt i x).mono
    intro y hy
    rw [hy, hx, hsrc, BitVec.add_zero]
  · apply (onebyteInsn_eip cpu ctxt x ht hm hgrp3).mono
    intro y hy
    have himm := onebyte_imm i.b (htable ▸ hm) hgrp3
    rw [← htable] at himm
    have hsame : i.immediateLength = i.srcBytes := by
      unfold Insn.immediateLength Insn.srcBytes
      rw [ht, immSize_reg hgrp3, himm]
    rw [hy, hx, hsame]

/-- The shadow instruction pointer is behind the immediate. -/
theorem executeAndWriteback_eip (cpu : HostCpu arch) (hasCmpxchg8b : Bool)
    (hm : i.d &&& modRM ≠ 0) :
    (executeAndWriteback cpu hasCmpxchg8b ctxt i).Within (fun _ => True) fun x =>
      x.eip = i.eip + BitVec.ofNat _ i.immediateLength := by
  refine Prog.Within.bind (Q := fun y => y.eip = i.eip + BitVec.ofNat _ i.immediateLength) ?_ fun y hy =>
    (writeback_eip y).mono fun x hx => hx.trans hy
  have hdst : (fetchDst ctxt i).Within (fun _ => True) fun _ => True := (fetchDst_within ctxt i).mono fun _ _ => trivial
  unfold execute
  cases ht : i.twobyte with
  | true =>
    have htable := Insn.d_twobyte ht
    obtain ⟨himm, hspecial⟩ := twobyte_imm i.b (htable ▸ hm)
    rw [← htable] at himm hspecial
    have hsame : i.immediateLength = (immSize true i.b 2).bytes i.opBytes := by
      unfold Insn.immediateLength
      rw [ht]
      rfl
    refine Prog.Within.ite (fun himp => ?_) fun _ => ?_
    · rw [if_pos rfl]
      apply (twobyteSpecialInsn_eip hasCmpxchg8b ctxt ht hm).mono
      intro y hy
      rw [hy, hsame, hspecial himp]
      exact (BitVec.add_zero _).symm
    · refine Prog.Within.bind hdst fun dst _ => Prog.Within.bind (fetchSrc_eip ctxt i) ?_
      rintro ⟨src, eip⟩ heip
      dsimp only
      rw [if_pos rfl]
      apply (twobyteInsn_eip cpu i _).mono
      intro y hy
      rw [hy, hsame, ← himm]
      exact heip
  | false =>
    refine Prog.Within.ite (fun himp => ?_) fun _ => ?_
    · have htable := Insn.d_onebyte ht
      exact absurd (htable ▸ himp) (onebyte_modrm i.b (htable ▸ hm))
    · refine Prog.Within.bind hdst fun dst _ => Prog.Within.bind (fetchSrc_eip ctxt i) ?_
      rintro ⟨src, eip⟩ heip
      dsimp only
      rw [if_neg Bool.false_ne_true]
      exact onebyte_eip cpu ht hm heip

end

end LearnKvm
