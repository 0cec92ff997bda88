import LearnKvm.Emulate.EffectiveAddress
import LearnKvm.Emulate.Length
import LearnKvm.Emulate.Contract

/-!
# The address and the length of an instruction (`x86_emulate.c`)

What a committed instruction with a ModRM memory operand has used as its offset, and how many bytes it has consumed,
against the tables of the architecture: with 32- and 64-bit addresses in `emulate_ea32`, with 16-bit addresses in
`emulate_ea16`.
-/

namespace LearnKvm

open Calls

variable {arch : Arch} {σ : Type}

namespace Encoding

/-- The decode flags of the opcode. -/
def d (e : Encoding) : BitVec 8 := (if e.twobyte then twobyteTable else opcodeTable).getD e.opcode.toNat 0

/-- The opcode has a ModRM byte. -/
def HasModrm (e : Encoding) : Prop := e.d &&& modRM ≠ 0

/-- The prefixes of an instruction at RIP, with the shadow instruction pointer at the ModRM byte. -/
def prefixesAt (ctxt : X86EmulateCtxt arch) (e : Encoding) : Prefixes arch :=
  e.prefixes ctxt.mode (ctxt.rip + BitVec.ofNat _ e.bytes.length)

/-- The address of the ModRM byte. -/
def modrmAddr (ctxt : X86EmulateCtxt arch) (e : Encoding) : ULong arch :=
  ctxt.rip + BitVec.ofNat _ e.bytes.length + ctxt.csBase

def modrm (ctxt : X86EmulateCtxt arch) (code : ByteMem.Mem arch.bitsPerLong) (e : Encoding) : BitVec 8 :=
  code (e.modrmAddr ctxt)

def sib (ctxt : X86EmulateCtxt arch) (code : ByteMem.Mem arch.bitsPerLong) (e : Encoding) : BitVec 8 :=
  code (e.modrmAddr ctxt + 1#_)

/-- The register number of ModRM.reg. -/
def reg (ctxt : X86EmulateCtxt arch) (code : ByteMem.Mem arch.bitsPerLong) (e : Encoding) : RegIndex :=
  rexReg (e.rexBit 2) (e.modrm ctxt code >>> 3)

/-- The operand of an instruction at RIP. -/
def formAt (ctxt : X86EmulateCtxt arch) (code : ByteMem.Mem arch.bitsPerLong) (e : Encoding) : EaForm :=
  e.eaForm ctxt.mode (e.modrm ctxt code) (e.sib ctxt code)

/-- The length of an instruction at RIP whose operand has some length. -/
def lengthWith (ctxt : X86EmulateCtxt arch) (code : ByteMem.Mem arch.bitsPerLong) (e : Encoding) (operand : Nat) : Nat :=
  e.bytes.length + operand + (immSize e.twobyte e.opcode (e.reg ctxt code)).bytes (e.prefixesAt ctxt).opBytes

end Encoding

/-- `immediateBytes` is the immediate of the decode flags. -/
theorem immediateBytes_eq (d : BitVec 8) (opBytes : Nat) : immediateBytes d opBytes = (flagImm d).bytes opBytes := by
  unfold immediateBytes flagImm flagSize
  by_cases himm : d &&& srcMask = srcImm
  · have hno : ¬ d &&& srcMask = srcImmByte := by
      rw [himm]
      decide
    rw [if_neg hno, if_pos himm, if_pos himm]
    by_cases hbyte : d &&& byteOp = 0
    · have hfull : ¬ (d &&& byteOp != 0) = true := by
        rw [hbyte]
        decide
      rw [if_neg (not_not_intro hbyte), if_neg hfull]
      rfl
    · have hset : (d &&& byteOp != 0) = true := bne_iff_ne.2 hbyte
      rw [if_pos hbyte, if_pos hset]
      rfl
  · rw [if_neg himm, if_neg himm]
    split <;> rfl

/-- The offset that the decoder has added to a segment base. -/
def Insn.offset (ctxt : X86EmulateCtxt arch) (i : Insn arch) : ULong arch :=
  lowBytes i.adBytes (i.cr2 - modrmBase ctxt i.overrideBase)

/-- The instruction has the hidden immediate of Grp3 and an address relative to the next instruction. -/
def Encoding.RipRelativeTest (ctxt : X86EmulateCtxt arch) (code : ByteMem.Mem arch.bitsPerLong) (e : Encoding) : Prop :=
  (e.formAt ctxt code).ripRelative = true ∧ e.twobyte = false ∧ (e.opcode = 0xf6 ∨ e.opcode = 0xf7) ∧
    e.reg ctxt code &&& 6 = 0

/-- The offset and the length are those of the tables. -/
structure Ea32Done (code : ByteMem.Mem arch.bitsPerLong) (ctxt ctxt' : X86EmulateCtxt arch) (e : Encoding) (i : Insn arch) :
    Prop where
  offset : i.offset ctxt = lowBytes i.adBytes ((e.formAt ctxt code).offset ctxt.regs code (e.modrmAddr ctxt)
    (ctxt.rip + BitVec.ofNat _ (e.lengthWith ctxt code (e.formAt ctxt code).length)))
  length : ctxt'.rip = ctxt.rip + BitVec.ofNat _ (e.lengthWith ctxt code (e.formAt ctxt code).length)

/-! ### Lengths -/

theorem ImmSize.bytes_le {opBytes : Nat} (hop : opBytes ≤ 8) (size : ImmSize) : size.bytes opBytes ≤ 8 := by
  cases size with
  | none => exact Nat.zero_le _
  | byte =>
    show 1 ≤ 8
    decide
  | full =>
    unfold ImmSize.bytes
    dsimp only
    split
    · decide
    · exact hop

theorem SizesOf.op_le {mode : X86EmulMode} {opBytes adBytes : Nat} (hs : SizesOf mode opBytes adBytes) :
    1 ≤ opBytes ∧ opBytes ≤ 8 := by
  rcases hs.op with hop | hop | ⟨hop, -⟩ <;> omega

theorem SizesOf.ad_pos {mode : X86EmulMode} {opBytes adBytes : Nat} (hs : SizesOf mode opBytes adBytes) : 1 ≤ adBytes := by
  have had := hs.ad
  split at had <;> omega

/-- Small numbers differ in their low bytes. -/
theorem lowBytes_ofNat_inj {bytes m n : Nat} (hbytes : 1 ≤ bytes) (hm : m < 256) (hn : n < 256) :
    lowBytes bytes (BitVec.ofNat arch.bitsPerLong m) = lowBytes bytes (BitVec.ofNat _ n) ↔ m = n := by
  have hsmall : ∀ {k w : Nat}, k < 256 → 8 ≤ w → k % 2 ^ w = k := fun hk hw =>
    Nat.mod_eq_of_lt (hk.trans_le (Nat.pow_le_pow_right (Nat.succ_pos 1) hw))
  have hlong : 8 ≤ arch.bitsPerLong := by cases arch <;> decide
  rw [lowBytes_eq_iff, BitVec.toNat_ofNat, BitVec.toNat_ofNat, hsmall hm hlong, hsmall hn hlong,
    hsmall hm (by omega), hsmall hn (by omega)]

/-- The decode flags name the immediate, but for that of Grp3. -/
theorem Encoding.flagImm_iff {e : Encoding} (hm : e.HasModrm) {opBytes : Nat} (hop : 1 ≤ opBytes) (reg : RegIndex) :
    (flagImm e.d).bytes opBytes = (immSize e.twobyte e.opcode reg).bytes opBytes ↔
      ¬ (e.twobyte = false ∧ (e.opcode = 0xf6 ∨ e.opcode = 0xf7) ∧ reg &&& 6 = 0) := by
  cases ht : e.twobyte with
  | true =>
    have hd : e.d = twobyteTable.getD e.opcode.toNat 0 := by
      unfold Encoding.d
      rw [ht, if_pos rfl]
    have himm := (twobyte_imm e.opcode (hd ▸ hm)).1
    rw [hd, himm]
    refine iff_of_true rfl ?_
    rintro ⟨hno, -⟩
    cases hno
  | false =>
    have hd : e.d = opcodeTable.getD e.opcode.toNat 0 := by
      unfold Encoding.d
      rw [ht, if_neg Bool.false_ne_true]
    by_cases hgrp3 : inCase e.opcode 0xf6 0xf7 = true
    · -- the decode flags have no immediate
      have hb := inCase_pair hgrp3 rfl
      have hflags : flagImm e.d = .none := by
        rw [hd]
        rcases hb with hb | hb <;> (rw [hb]; decide)
      rw [hflags]
      by_cases htest : reg &&& 6 = 0
      · have hpos : 1 ≤ (immSize false e.opcode reg).bytes opBytes := by
          rw [immSize_test hb htest]
          unfold flagSize
          split
          · exact Nat.le_refl 1
          · unfold ImmSize.bytes
            dsimp only
            split
            · decide
            · exact hop
        refine iff_of_false (fun heq => ?_) fun hno => hno ⟨rfl, hb, htest⟩
        rw [← heq] at hpos
        exact Nat.not_succ_le_zero 0 hpos
      · rw [immSize_nontest hb htest]
        exact iff_of_true rfl fun hno => htest hno.2.2
    · have himm := onebyte_imm e.opcode (hd ▸ hm) hgrp3
      rw [hd, himm, immSize_reg hgrp3 reg]
      refine iff_of_true rfl ?_
      rintro ⟨-, hb | hb, -⟩
      · exact hgrp3 (by rw [hb]; rfl)
      · exact hgrp3 (by rw [hb]; rfl)

/-! ### Runs -/

section

variable {h : (c : OpCall arch) → σ → OpReply arch c × σ} {code : ByteMem.Mem arch.bitsPerLong} {I : σ → Prop}
  {ctxt : X86EmulateCtxt arch} {e : Encoding} {s : σ} {i : Insn arch}

theorem decodeOperands_modrm {p : Prefixes arch} {rex : RexBits} {b : BitVec 8} {twobyte : Bool}
    (hm : (if twobyte then twobyteTable else opcodeTable).getD b.toNat 0 &&& modRM ≠ 0) :
    decodeOperands ctxt p rex b twobyte =
      decodeModrm ctxt p rex ((if twobyte then twobyteTable else opcodeTable).getD b.toNat 0) >>= fun r => .ret {
        b := b, twobyte := twobyte, mode := ctxt.mode, opBytes := p.opBytes, adBytes := p.adBytes
        overrideBase := p.overrideBase, lockPrefix := p.lockPrefix, repPrefix := p.repPrefix
        rexPrefix := rex.rexPrefix, modrmReg := r.1, modrmVal := r.2.1, cr2 := r.2.2.1, eip := r.2.2.2 } :=
  if_pos hm

/-- The instruction has the opcode, the sizes, the segment and the register of an encoding. -/
structure Insn.DecodedAs (ctxt : X86EmulateCtxt arch) (code : ByteMem.Mem arch.bitsPerLong) (e : Encoding)
    (i : Insn arch) : Prop where
  b : i.b = e.opcode
  twobyte : i.twobyte = e.twobyte
  opBytes : i.opBytes = (e.prefixesAt ctxt).opBytes
  adBytes : i.adBytes = (e.prefixesAt ctxt).adBytes
  overrideBase : i.overrideBase = (e.prefixesAt ctxt).overrideBase
  rexPrefix : i.rexPrefix = e.rexBits.rexPrefix
  modrmReg : i.modrmReg = e.reg ctxt code

theorem Insn.DecodedAs.d {ctxt : X86EmulateCtxt arch} {code : ByteMem.Mem arch.bitsPerLong} {e : Encoding}
    {i : Insn arch} (hi : i.DecodedAs ctxt code e) : i.d = e.d := by
  unfold Insn.d Encoding.d
  rw [hi.b, hi.twobyte]

/-- What is decoded at an encoding with a memory operand and 32- or 64-bit addresses. -/
theorem decoded_ea32 (hf : Fetches h code I) (hs : I s) (he : e.Valid ctxt.mode)
    (hat : CodeAt code (ctxt.rip + ctxt.csBase) e.bytes) (hm : e.HasModrm) (hmod : modField (e.modrm ctxt code) ≠ 3)
    (had : (e.prefixesAt ctxt).adBytes ≠ 2) (hi : ((decode ctxt).run h s).result = .ok i) :
    let p := e.prefixesAt ctxt
    let f := e.emulatedForm ctxt.mode (e.modrm ctxt code) (e.sib ctxt code)
    let next := p.eip + BitVec.ofNat _ f.length
    let ea := f.offset ctxt.regs code (e.modrmAddr ctxt) (next + BitVec.ofNat _ ((flagImm e.d).bytes p.opBytes)) +
      modrmBase ctxt p.overrideBase
    i.DecodedAs ctxt code e ∧ i.cr2 = (if p.adBytes ≠ 8 then lowBytes 4 ea else ea) ∧ i.eip = next := by
  intro p f next ea
  have hsib : p.eip + 1#_ + ctxt.csBase = e.modrmAddr ctxt + 1#_ := ByteMem.add_ofNat_comm ..
  refine (decode_ensures hf he hat (Q := fun i => i.DecodedAs ctxt code e ∧
    i.cr2 = (if p.adBytes ≠ 8 then lowBytes 4 ea else ea) ∧ i.eip = next) ?_ s hs i hi).1
  rw [decodeOperands_modrm hm]
  apply Prog.Ensures.bind_eq (decodeModrm_ensures32 hf e (p := p) hmod had e.d)
  refine Prog.ensures_ret ⟨⟨rfl, rfl, rfl, rfl, rfl, rfl, rfl⟩, ?_, ?_⟩
  · dsimp only
    rw [hsib, immediateBytes_eq]
    rfl
  · dsimp only
    rw [hsib]
    rfl

/-- The offset, before the segment base. -/
theorem Insn.offset_eq (hd : i.Decoded ctxt) (had : i.adBytes ≠ 2) {off : ULong arch}
    (hcr2 : i.cr2 = if i.adBytes ≠ 8 then lowBytes 4 (off + modrmBase ctxt i.overrideBase)
      else off + modrmBase ctxt i.overrideBase) : i.offset ctxt = lowBytes i.adBytes off := by
  unfold Insn.offset
  rw [hcr2]
  by_cases h8 : i.adBytes = 8
  · rw [if_neg (not_not_intro h8), BitVec.add_sub_cancel]
  · have h4 : i.adBytes = 4 := by
      have had' := hd.sizes.ad
      split at had' <;> omega
    rw [if_pos h8, h4, lowBytes_sub, BitVec.add_sub_cancel]

/-- The shadow instruction pointer of a committed instruction. -/
theorem committed_eip {cpu : HostCpu arch} {hasCmpxchg8b : Bool} {x : Exec arch} (hm : i.d &&& modRM ≠ 0)
    (hi : ((decode ctxt).run h s).result = .ok i) (hx : ((emulate cpu hasCmpxchg8b ctxt).run h s).result = .ok x) :
    (x86EmulateMemop h cpu hasCmpxchg8b ctxt s).2.1.rip = i.eip + BitVec.ofNat _ i.immediateLength := by
  obtain ⟨hres, hcall⟩ := x86EmulateMemop_ok hi hx
  rw [hcall]
  exact ((executeAndWriteback_eip cpu hasCmpxchg8b hm).run h _).2 x hres

/-- **32- and 64-bit effective addresses**: for every instruction with a memory operand, the offset and the consumed
bytes of a committed emulation are those of the tables, exactly if the instruction is neither in a row without base with
REX.B nor a test with an address relative to the next instruction. -/
theorem emulate_ea32 {cpu : HostCpu arch} {hasCmpxchg8b : Bool} {x : Exec arch} (hf : Fetches h code I) (hs : I s)
    (he : e.Valid ctxt.mode) (hat : CodeAt code (ctxt.rip + ctxt.csBase) e.bytes) (hm : e.HasModrm)
    (hmod : modField (e.modrm ctxt code) ≠ 3) (had : (e.prefixesAt ctxt).adBytes ≠ 2)
    (hi : ((decode ctxt).run h s).result = .ok i) (hx : ((emulate cpu hasCmpxchg8b ctxt).run h s).result = .ok x) :
    Ea32Done code ctxt (x86EmulateMemop h cpu hasCmpxchg8b ctxt s).2.1 e i ↔
      ¬ e.HiddenDisp (e.modrm ctxt code) (e.sib ctxt code) ∧ ¬ e.RipRelativeTest ctxt code := by
  obtain ⟨has, hcr2, heip⟩ := decoded_ea32 hf hs he hat hm hmod had hi
  have hrip := committed_eip (has.d ▸ hm) hi hx
  have hdec := decoded hi
  obtain ⟨hb, ht, hop, hadi, hseg, -, hreg⟩ := has
  have himm : i.immediateLength = (immSize e.twobyte e.opcode (e.reg ctxt code)).bytes (e.prefixesAt ctxt).opBytes := by
    unfold Insn.immediateLength
    rw [hb, ht, hreg, hop]
  have hlength : ∀ n m : Nat, (e.prefixesAt ctxt).eip + BitVec.ofNat _ n + BitVec.ofNat _ m =
      ctxt.rip + BitVec.ofNat _ (e.bytes.length + n + m) := by
    intro n m
    rw [← ByteMem.add_ofNat, ← ByteMem.add_ofNat]
    rfl
  rw [heip, himm, hlength] at hrip
  by_cases hhidden : e.HiddenDisp (e.modrm ctxt code) (e.sib ctxt code)
  · -- four bytes are not consumed
    refine iff_of_false (fun hdone => ?_) fun hno => hno.1 hhidden
    have hlen : (e.emulatedForm ctxt.mode (e.modrm ctxt code) (e.sib ctxt code)).length + 4 =
        (e.formAt ctxt code).length := Encoding.emulatedForm_length hhidden
    have hfour := hrip.symm.trans hdone.length
    unfold Encoding.lengthWith at hfour
    rw [← hlen, ← Nat.add_assoc, Nat.add_right_comm _ 4, ← ByteMem.add_ofNat ctxt.rip _ 4, BitVec.self_eq_add_right]
      at hfour
    cases arch <;> exact absurd hfour (by decide)
  · have hform : e.emulatedForm ctxt.mode (e.modrm ctxt code) (e.sib ctxt code) = e.formAt ctxt code :=
      Encoding.emulatedForm_eq hhidden
    rw [hform] at hrip
    rw [hform, hlength, ← hadi, ← hseg] at hcr2
    have hoff := Insn.offset_eq hdec (hadi ▸ had) hcr2
    have hsizes : 1 ≤ (e.prefixesAt ctxt).opBytes ∧ (e.prefixesAt ctxt).opBytes ≤ 8 := by
      rw [← hop]
      exact hdec.sizes.op_le
    have hflag := Encoding.flagImm_iff hm hsizes.1 (e.reg ctxt code)
    have hinj : ∀ m n : ImmSize,
        lowBytes i.adBytes (BitVec.ofNat arch.bitsPerLong (m.bytes (e.prefixesAt ctxt).opBytes)) =
          lowBytes i.adBytes (BitVec.ofNat _ (n.bytes (e.prefixesAt ctxt).opBytes)) ↔
            m.bytes (e.prefixesAt ctxt).opBytes = n.bytes (e.prefixesAt ctxt).opBytes := by
      intro m n
      have hm := ImmSize.bytes_le hsizes.2 m
      have hn := ImmSize.bytes_le hsizes.2 n
      exact lowBytes_ofNat_inj hdec.sizes.ad_pos (by omega) (by omega)
    -- the offset, where the immediate has some length
    have hat : ∀ k : Nat, (e.formAt ctxt code).offset ctxt.regs code (e.modrmAddr ctxt)
        (ctxt.rip + BitVec.ofNat _ (e.bytes.length + (e.formAt ctxt code).length + k)) =
          BitVec.ofNat _ (if (e.formAt ctxt code).ripRelative then k else 0) +
            (e.formAt ctxt code).offset ctxt.regs code (e.modrmAddr ctxt)
              (ctxt.rip + BitVec.ofNat _ (e.bytes.length + (e.formAt ctxt code).length)) := by
      intro k
      unfold EaForm.offset
      rw [← ByteMem.add_ofNat]
      split
      · ac_rfl
      · exact (BitVec.zero_add _).symm
    rw [hat] at hoff
    have hdone : Ea32Done code ctxt (x86EmulateMemop h cpu hasCmpxchg8b ctxt s).2.1 e i ↔
        lowBytes i.adBytes (BitVec.ofNat arch.bitsPerLong (if (e.formAt ctxt code).ripRelative = true then
            (flagImm e.d).bytes (e.prefixesAt ctxt).opBytes else 0)) =
          lowBytes i.adBytes (BitVec.ofNat _ (if (e.formAt ctxt code).ripRelative = true then
            (immSize e.twobyte e.opcode (e.reg ctxt code)).bytes (e.prefixesAt ctxt).opBytes else 0)) := by
      rw [← lowBytes_add_iff, ← hoff, ← hat]
      exact ⟨fun hdone => hdone.offset, fun hoff => ⟨hoff, hrip⟩⟩
    rw [hdone, iff_true_intro hhidden, true_and]
    by_cases hrel : (e.formAt ctxt code).ripRelative = true
    · have htest : e.RipRelativeTest ctxt code ↔
          e.twobyte = false ∧ (e.opcode = 0xf6 ∨ e.opcode = 0xf7) ∧ e.reg ctxt code &&& 6 = 0 :=
        and_iff_right hrel
      rw [if_pos hrel, if_pos hrel, hinj, hflag, htest]
    · rw [if_neg hrel, if_neg hrel]
      exact iff_of_true rfl fun hno => hrel hno.1

end

/-! ### Code at address 0 -/

/-- Bytes from address 0 on, and zeros behind them. -/
def codeAtZero (arch : Arch) (bytes : List (BitVec 8)) : EmulMem arch := fun addr => bytes.getD addr.toNat 0

theorem flatOps_fetches (code : EmulMem arch) : Fetches (flatOps arch) code (· = code) := by
  rintro addr bytes m v rfl hv
  cases hv
  refine ⟨?_, rfl⟩
  apply BitVec.eq_of_hasBit
  intro j hj
  rw [hasBit_lowBytes, BitVec.hasBit_setWidth, ByteMem.hasBit_load]
  by_cases hlow : j < 8 * bytes
  · simp [hlow]
  · simp [hlow]

def flatCtxt (arch : Arch) (mode : X86EmulMode) : X86EmulateCtxt arch where
  regs _ := 0#_
  rip := 0#_
  eflags := 2#_
  cr2 := 0#_
  mode := mode
  csBase := 0#_
  dsBase := 0#_
  esBase := 0#_
  ssBase := 0#_
  gsBase := 0#_
  fsBase := 0#_

/-- `mov 0(%rip), %eax`. -/
def movRip (rex : Option (BitVec 8)) : Encoding := ⟨[], rex, false, 0x8b⟩

def movRipCode (rex : Option (BitVec 8)) : EmulMem .x86_64 := codeAtZero .x86_64 (rex.toList ++ [0x8b, 0x05])

def movRipInsn : Insn .x86_64 where
  b := 0x8b
  twobyte := false
  mode := .prot64
  opBytes := 4
  adBytes := 8
  overrideBase := none
  lockPrefix := false
  repPrefix := false
  rexPrefix := 0
  modrmReg := 0
  modrmVal := 0
  cr2 := 6
  eip := 6

theorem movRip_valid : (movRip none).Valid .prot64 where
  legacy := by simp [movRip]
  rex := by simp [movRip]
  first := by decide
  noRex := by decide
  onebyte := by decide

theorem movRipB_valid : (movRip (some 0x41)).Valid .prot64 where
  legacy := by simp [movRip]
  rex := by
    rintro b hb
    cases hb
    decide
  first := by decide
  noRex := by decide
  onebyte := by decide

theorem emulate_ea32_small : Ea32Done (movRipCode none) (flatCtxt .x86_64 .prot64)
      (x86EmulateMemop (flatOps .x86_64) (idleHost .x86_64) true (flatCtxt .x86_64 .prot64) (movRipCode none)).2.1
      (movRip none) movRipInsn ↔
    ¬ (movRip none).HiddenDisp ((movRip none).modrm (flatCtxt .x86_64 .prot64) (movRipCode none))
      ((movRip none).sib (flatCtxt .x86_64 .prot64) (movRipCode none)) ∧
    ¬ (movRip none).RipRelativeTest (flatCtxt .x86_64 .prot64) (movRipCode none) :=
  emulate_ea32 (flatOps_fetches _) rfl movRip_valid ⟨rfl, trivial⟩ (by unfold Encoding.HasModrm; decide) (by decide)
    (by decide) rfl rfl

/-- With REX.B the displacement is not fetched, and the instruction ends three bytes after its start. -/
theorem rexB_base : ¬∀ (arch : Arch) (h : (c : OpCall arch) → EmulMem arch → OpReply arch c × EmulMem arch)
    (code : EmulMem arch) (I : EmulMem arch → Prop) (cpu : HostCpu arch) (ctxt : X86EmulateCtxt arch) (e : Encoding)
    (m : EmulMem arch) (i : Insn arch) (x : Exec arch), Fetches h code I → I m → e.Valid ctxt.mode →
      CodeAt code (ctxt.rip + ctxt.csBase) e.bytes → e.HasModrm → modField (e.modrm ctxt code) ≠ 3 →
        (e.prefixesAt ctxt).adBytes ≠ 2 → ((decode ctxt).run h m).result = .ok i →
          ((emulate cpu true ctxt).run h m).result = .ok x →
            Ea32Done code ctxt (x86EmulateMemop h cpu true ctxt m).2.1 e i := by
  intro hall
  have hdone := hall .x86_64 (flatOps .x86_64) (movRipCode (some 0x41)) (· = movRipCode (some 0x41)) (idleHost .x86_64)
    (flatCtxt .x86_64 .prot64) (movRip (some 0x41)) (movRipCode (some 0x41)) _ _ (flatOps_fetches _) rfl movRipB_valid
    ⟨rfl, rfl, trivial⟩ (by unfold Encoding.HasModrm; decide) (by decide) (by decide) rfl rfl
  exact absurd hdone.length (by decide)

end LearnKvm
