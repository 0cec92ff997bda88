import LearnKvm.Emulate.Addressing

/-!
# Effective addresses with 16 bits (`x86_emulate.c`)

The operand forms of the ModRM byte with 16-bit addresses, with the segments that they use.  Such addresses exist outside
64-bit mode only, so there is no REX prefix.
-/

namespace LearnKvm

open Calls

variable {arch : Arch} {σ : Type}

/-! ### Operand forms -/

/-- A memory operand with a 16-bit address, and how many bytes follow the ModRM byte. -/
structure EaForm16 where
  base : Option RegIndex
  index : Option RegIndex
  dispBytes : Nat

/-- The operand of a ModRM byte. -/
def eaForm16 (modrm : BitVec 8) : EaForm16 :=
  let mod := modField modrm
  let rm := modrm &&& 7
  { base :=
      if rm = 0 ∨ rm = 1 ∨ rm = 7 then some vcpuRegsRbx
      else if rm = 2 ∨ rm = 3 ∨ rm = 6 ∧ mod ≠ 0 then some vcpuRegsRbp
      else none
    index :=
      if rm = 0 ∨ rm = 2 ∨ rm = 4 then some vcpuRegsRsi
      else if rm = 1 ∨ rm = 3 ∨ rm = 5 then some vcpuRegsRdi
      else none
    dispBytes := if mod = 1 then 1 else if mod = 2 ∨ mod = 0 ∧ rm = 6 then 2 else 0 }

namespace EaForm16

/-- The length, from the ModRM byte on. -/
def length (f : EaForm16) : Nat := 1 + f.dispBytes

/-- One byte is sign-extended, two are zero-extended. -/
def disp (f : EaForm16) (code : ByteMem.Mem arch.bitsPerLong) (addr : ULong arch) : ULong arch :=
  if f.dispBytes = 1 then signExtendBytes 1 ((ByteMem.load code (addr + 1#_) 1).setWidth _)
  else (ByteMem.load code (addr + 1#_) f.dispBytes).setWidth _

/-- The offset of the operand of a ModRM byte at `addr`. -/
def offset (f : EaForm16) (regs : RegIndex → ULong arch) (code : ByteMem.Mem arch.bitsPerLong) (addr : ULong arch) :
    ULong arch :=
  lowBytes 2 (f.base.elim 0#_ regs + f.index.elim 0#_ regs + f.disp code addr)

/-- SS for the forms with BP. -/
def segment (f : EaForm16) : SegBase := if f.base = some vcpuRegsRbp then .ss else .ds

end EaForm16

/-! ### Runs of the decoder -/

theorem lowBytes_two_four (x : ULong arch) : lowBytes 2 (lowBytes 4 x) = lowBytes 2 x := by
  apply BitVec.eq_of_hasBit
  intro j _
  rw [hasBit_lowBytes, hasBit_lowBytes, hasBit_lowBytes]
  by_cases hj : j < 8 * 2
  · simp [hj, show j < 8 * 4 by omega]
  · simp [hj]

/-- The sum of the registers, up to bits that are truncated. -/
theorem modrmRegs16_eq (regs : RegIndex → ULong arch) (modrm : BitVec 8) :
    lowBytes 2 (modrmRegs16 regs (modField modrm) ((modrm &&& 7).setWidth 4)) =
      lowBytes 2 ((eaForm16 modrm).base.elim 0#_ regs + (eaForm16 modrm).index.elim 0#_ regs) := by
  have hsum : ∀ x y : ULong arch, lowBytes 2 (lowBytes 4 (lowBytes 4 x + lowBytes 4 y)) = lowBytes 2 (x + y) := by
    intro x y
    rw [lowBytes_two_four, lowBytes_add (lowBytes_two_four x), BitVec.add_comm, lowBytes_add (lowBytes_two_four y),
      BitVec.add_comm]
  have hright : ∀ x : ULong arch, lowBytes 2 (lowBytes 4 x) = lowBytes 2 (0#_ + x) := fun x => by
    rw [lowBytes_two_four, BitVec.zero_add]
  have hleft : ∀ x : ULong arch, lowBytes 2 (lowBytes 4 x) = lowBytes 2 (x + 0#_) := fun x => by
    rw [lowBytes_two_four, BitVec.add_zero]
  rcases and_seven_cases modrm with hrm | hrm | hrm | hrm | hrm | hrm | hrm | hrm
  all_goals unfold modrmRegs16 eaForm16
  all_goals rw [hrm]
  · exact hsum _ _
  · exact hsum _ _
  · exact hsum _ _
  · exact hsum _ _
  · exact hright _
  · exact hright _
  · by_cases hmod : modField modrm = 0
    · rw [hmod]
      exact congrArg (lowBytes 2) (BitVec.add_zero _).symm
    · simp only [hmod, ne_eq, not_false_eq_true, and_true]
      exact hleft _
  · exact hleft _

/-- The forms with BP are those for which the source takes the stack segment. -/
theorem eaForm16_base_eq_rbp (modrm : BitVec 8) :
    (eaForm16 modrm).base = some vcpuRegsRbp ↔ (modrm &&& 7).setWidth 4 = (2 : RegIndex) ∨
      (modrm &&& 7).setWidth 4 = (3 : RegIndex) ∨ (modrm &&& 7).setWidth 4 = (6 : RegIndex) ∧ modField modrm ≠ 0 := by
  rcases and_seven_cases modrm with hrm | hrm | hrm | hrm | hrm | hrm | hrm | hrm
  all_goals unfold eaForm16
  all_goals rw [hrm]
  all_goals by_cases hmod : modField modrm = 0
  all_goals simp [hmod, vcpuRegsRbx, vcpuRegsRbp]

section

variable {h : (c : OpCall arch) → σ → OpReply arch c × σ} {code : ByteMem.Mem arch.bitsPerLong} {I : σ → Prop}
  {ctxt : X86EmulateCtxt arch}

theorem modrmDisp16_ensures (hf : Fetches h code I) {modrm : BitVec 8} (hmod : modField modrm ≠ 3) (eip : ULong arch) :
    (modrmDisp16 ctxt (modField modrm) ((modrm &&& 7).setWidth 4) (eip + 1#_)).Ensures h I
      (· = ((eaForm16 modrm).disp code (eip + ctxt.csBase), eip + BitVec.ofNat _ (eaForm16 modrm).length)) := by
  have haddr : eip + 1#_ + ctxt.csBase = eip + ctxt.csBase + 1#_ := ByteMem.add_ofNat_comm ..
  have hnext : ∀ n : Nat, eip + 1#_ + BitVec.ofNat _ n = eip + BitVec.ofNat _ (1 + n) := ByteMem.add_ofNat eip 1
  have hsize : ∀ n, (eaForm16 modrm).dispBytes = n → (eaForm16 modrm).length = 1 + n := by
    rintro n rfl
    rfl
  have hfetch : (eaForm16 modrm).dispBytes = 2 → (fetchU ctxt 2 (eip + 1#_)).Ensures h I
      (· = ((eaForm16 modrm).disp code (eip + ctxt.csBase), eip + BitVec.ofNat _ (eaForm16 modrm).length)) := by
    intro htwo
    apply (fetchU_ensures hf ctxt 2 (eip + 1#_)).mono
    rintro _ rfl
    rw [hsize 2 htwo, ← hnext, haddr]
    unfold EaForm16.disp
    rw [htwo]
    rfl
  unfold modrmDisp16
  by_cases h0 : modField modrm = 0
  · rw [if_pos h0]
    by_cases h6 : modrm &&& 7 = 6
    · rw [h6]
      apply hfetch
      unfold eaForm16
      rw [h6, h0]
      rfl
    · have hno : ¬ (modrm &&& 7).setWidth 4 = (6 : RegIndex) := by
        rcases and_seven_cases modrm with hrm | hrm | hrm | hrm | hrm | hrm | hrm | hrm
        all_goals first | exact absurd hrm h6 | (rw [hrm]; decide)
      have hzero : (eaForm16 modrm).dispBytes = 0 := by
        show (if modField modrm = 1 then 1 else if modField modrm = 2 ∨ modField modrm = 0 ∧ modrm &&& 7 = 6 then 2 else 0) = 0
        rw [h0, if_neg (by decide), if_neg]
        rintro (hno | ⟨-, hno⟩)
        · exact absurd hno (by decide)
        · exact h6 hno
      rw [if_neg hno, hsize 0 hzero]
      apply Prog.ensures_ret
      unfold EaForm16.disp
      rw [hzero]
      simp [ByteMem.load]
  · rw [if_neg h0]
    by_cases h1 : modField modrm = 1
    · have hone : (eaForm16 modrm).dispBytes = 1 := if_pos h1
      rw [if_pos h1]
      apply (fetchS_ensures hf ctxt 1 (eip + 1#_)).mono
      rintro _ rfl
      rw [hsize 1 hone, ← hnext, haddr]
      unfold EaForm16.disp
      rw [hone]
      rfl
    · have h2 : modField modrm = 2 := by
        have hall : ∀ m : BitVec 2, m ≠ 0 → m ≠ 1 → m ≠ 3 → m = 2 := by decide
        exact hall _ h0 h1 hmod
      rw [if_neg h1]
      apply hfetch
      exact (if_neg h1).trans (if_pos (Or.inl h2))

/-- The operand of the ModRM byte with 16-bit addresses. -/
theorem decodeModrm_ensures16 (hf : Fetches h code I) {e : Encoding} (hmode : ctxt.mode ≠ .prot64) (hrex : e.rex = none)
    {p : Prefixes arch} (hmod : modField (code (p.eip + ctxt.csBase)) ≠ 3) (had : p.adBytes = 2) (d : BitVec 8) :
    let modrm := code (p.eip + ctxt.csBase)
    let f := eaForm16 modrm
    (decodeModrm ctxt p e.rexBits d).Ensures h I
      (· = (rexReg (e.rexBit 2) (modrm >>> 3), 0#_,
        lowBytes 4 (f.offset ctxt.regs code (p.eip + ctxt.csBase) + ctxt.base (p.overrideBase.getD f.segment)),
        p.eip + BitVec.ofNat _ f.length)) := by
  intro modrm f
  have hfield : ((code (p.eip + ctxt.csBase) &&& 0xc0) >>> 6).setWidth 2 = modField (code (p.eip + ctxt.csBase)) := rfl
  have hrm : rexReg (e.rexBit 0) modrm = (modrm &&& 7).setWidth 4 := by
    unfold Encoding.rexBit
    rw [hrex]
    exact BitVec.zero_or
  have hbase : ∀ seg : Option SegBase, modrmBase ctxt seg = ctxt.base (seg.getD .ds) := fun _ => if_neg fun hno => hmode hno.1
  apply Prog.Ensures.bind_eq (fetchByte_ensures hf ctxt p.eip)
  dsimp only
  rw [e.modrmReg_eq, e.modrmRm_eq, hfield, hrm, if_neg hmod]
  let seg := if f.base = some vcpuRegsRbp ∧ p.overrideBase = none then some .ss else p.overrideBase
  have hseg : modrmBase ctxt seg = ctxt.base (p.overrideBase.getD f.segment) := by
    rw [hbase]
    show ctxt.base ((if f.base = some vcpuRegsRbp ∧ p.overrideBase = none then some .ss else p.overrideBase).getD .ds) = _
    cases hov : p.overrideBase with
    | some o =>
      rw [if_neg fun hno => Option.some_ne_none o hno.2]
      rfl
    | none =>
      unfold EaForm16.segment
      by_cases hbp : f.base = some vcpuRegsRbp
      · rw [if_pos ⟨hbp, rfl⟩, if_pos hbp]
        rfl
      · rw [if_neg fun hno => hbp hno.1, if_neg hbp]
  refine Prog.Ensures.bind_eq (a := (f.offset ctxt.regs code (p.eip + ctxt.csBase), p.eip + BitVec.ofNat _ f.length,
    seg, false)) ?_ ?_
  · unfold modrmEa
    rw [if_pos had]
    unfold modrmEa16
    apply Prog.Ensures.bind_eq (a := (f.offset ctxt.regs code (p.eip + ctxt.csBase), p.eip + BitVec.ofNat _ f.length, seg))
    · apply Prog.Ensures.bind_eq (modrmDisp16_ensures hf hmod p.eip)
      apply Prog.ensures_ret
      have hoff : lowBytes 2 (f.disp code (p.eip + ctxt.csBase) +
            modrmRegs16 ctxt.regs (modField modrm) ((modrm &&& 7).setWidth 4)) =
          f.offset ctxt.regs code (p.eip + ctxt.csBase) := by
        rw [BitVec.add_comm, lowBytes_add (modrmRegs16_eq ctxt.regs modrm)]
        rfl
      refine Prod.ext hoff (Prod.ext rfl ?_)
      exact if_congr (and_congr_left' (eaForm16_base_eq_rbp modrm).symm) rfl rfl
    · exact Prog.ensures_ret rfl
  · apply Prog.ensures_ret
    dsimp only
    rw [hseg, if_neg Bool.false_ne_true, if_pos (by rw [had]; decide)]

variable {e : Encoding} {s : σ} {i : Insn arch}

/-- What is decoded at an encoding with a memory operand and 16-bit addresses. -/
theorem decoded_ea16 (hf : Fetches h code I) (hs : I s) (he : e.Valid ctxt.mode)
    (hat : CodeAt code (ctxt.rip + ctxt.csBase) e.bytes) (hm : e.HasModrm) (hmod : modField (e.modrm ctxt code) ≠ 3)
    (had : (e.prefixesAt ctxt).adBytes = 2) (hi : ((decode ctxt).run h s).result = .ok i) :
    let p := e.prefixesAt ctxt
    let f := eaForm16 (e.modrm ctxt code)
    i.DecodedAs ctxt code e ∧
      i.cr2 = lowBytes 4 (f.offset ctxt.regs code (e.modrmAddr ctxt) + ctxt.base (e.segment.getD f.segment)) ∧
        i.eip = p.eip + BitVec.ofNat _ f.length := by
  intro p f
  obtain ⟨sizes, hsizes⟩ := modeBytes_of_decode hi
  have hmode : ctxt.mode ≠ .prot64 := by
    intro hmode
    have had' := (Encoding.prefixes_sizes hsizes he (ctxt.rip + BitVec.ofNat _ e.bytes.length)).ad
    rw [if_pos hmode] at had'
    rcases had' with h4 | h8
    · exact absurd (had.symm.trans h4) (by decide)
    · exact absurd (had.symm.trans h8) (by decide)
  have hrex : e.rex = none := by
    cases hr : e.rex with
    | none => rfl
    | some r => exact absurd (he.rex r hr).1 hmode
  have hseg : p.overrideBase = e.segment := Encoding.prefixes_overrideBase ..
  refine (decode_ensures hf he hat (Q := fun i => i.DecodedAs ctxt code e ∧
    i.cr2 = lowBytes 4 (f.offset ctxt.regs code (e.modrmAddr ctxt) + ctxt.base (e.segment.getD f.segment)) ∧
    i.eip = p.eip + BitVec.ofNat _ f.length) ?_ s hs i hi).1
  rw [decodeOperands_modrm hm, ← hseg]
  apply Prog.Ensures.bind_eq (decodeModrm_ensures16 hf hmode hrex (p := p) hmod had e.d)
  exact Prog.ensures_ret ⟨⟨rfl, rfl, rfl, rfl, rfl, rfl, rfl⟩, rfl, rfl⟩

/-- What is decoded at an encoding with a memory operand. -/
theorem decoded_as (hf : Fetches h code I) (hs : I s) (he : e.Valid ctxt.mode)
    (hat : CodeAt code (ctxt.rip + ctxt.csBase) e.bytes) (hm : e.HasModrm) (hmod : modField (e.modrm ctxt code) ≠ 3)
    (hi : ((decode ctxt).run h s).result = .ok i) : i.DecodedAs ctxt code e := by
  by_cases had : (e.prefixesAt ctxt).adBytes = 2
  · exact (decoded_ea16 hf hs he hat hm hmod had hi).1
  · exact (decoded_ea32 hf hs he hat hm hmod had hi).1

end

end LearnKvm
