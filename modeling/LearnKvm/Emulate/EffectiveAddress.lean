import LearnKvm.Emulate.Encoding

/-!
# Effective addresses of the emulator (`x86_emulate.c`)

The operand forms of the ModRM and SIB bytes with 32- and 64-bit addresses.  `eaForm` is the table of the architecture,
`emulatedForm` the one of the source, whose special rows test a register number with REX.B in it.
-/

namespace LearnKvm

open Calls

variable {arch : Arch} {σ : Type}

/-! ### The fields of the bytes -/

def modField (modrm : BitVec 8) : BitVec 2 := ((modrm &&& 0xc0) >>> 6).setWidth 2

/-- The number of a register from three bits and a bit of REX. -/
def rexReg (rex : Bool) (code : BitVec 8) : RegIndex := (if rex then 8 else 0) ||| (code &&& 7).setWidth 4

theorem rexReg_lt (code : BitVec 8) : rexReg false code < 8 := by
  unfold rexReg
  rcases and_seven_cases code with h | h | h | h | h | h | h | h <;> rw [h] <;> decide

namespace Encoding

def rexBit (e : Encoding) (n : Nat) : Bool := (e.rex.getD 0).hasBit n

theorem hasBit_eight (i : Nat) : (8#4).hasBit i = decide (i = 3) :=
  @Bits.hasBit_one_shiftLeft 4 3 (by decide) i

theorem hasBit_seven {w : Nat} (hw : 3 < w) (i : Nat) : (7#w).hasBit i = decide (i < 3) := by
  have htest : Nat.testBit 7 i = decide (i < 3) := Nat.testBit_two_pow_sub_one 3 i
  unfold BitVec.hasBit
  rw [BitVec.getLsbD_ofNat, htest, ← Bool.decide_and]
  exact decide_eq_decide.2 (by omega)

/-- A bit of REX becomes the fourth bit of a register number. -/
theorem fourthBit {b mask : BitVec 8} {n k : Nat} (hmask : mask = 1#8 <<< n) (hk : n + k = 3) :
    ((b &&& mask) <<< k).setWidth 4 = if b.hasBit n then (8 : RegIndex) else 0 := by
  subst hmask
  apply BitVec.eq_of_hasBit
  intro i hi
  rw [BitVec.hasBit_setWidth, BitVec.hasBit_shiftLeft, BitVec.hasBit_and, Bits.hasBit_one_shiftLeft (by omega)]
  by_cases h3 : i = 3
  · subst h3
    rw [show 3 - k = n by omega]
    have hk : ¬3 < k := by omega
    cases b.hasBit n <;> simp [hasBit_eight, hk]
  · have hne : i < k ∨ i - k ≠ n := by omega
    rcases hne with hlt | hne
    · cases b.hasBit n <;> simp [hasBit_eight, hlt, h3]
    · cases b.hasBit n <;> simp [hasBit_eight, hne, h3]

theorem rexBits_modrmRm (e : Encoding) : e.rexBits.modrmRm = if e.rexBit 0 then 8 else 0 := by
  unfold rexBits rexBit
  cases e.rex with
  | none => rfl
  | some b => exact fourthBit rfl rfl

theorem rexBits_indexReg (e : Encoding) : e.rexBits.indexReg = if e.rexBit 1 then 8 else 0 := by
  unfold rexBits rexBit
  cases e.rex with
  | none => rfl
  | some b => exact fourthBit rfl rfl

theorem rexBits_modrmReg (e : Encoding) : e.rexBits.modrmReg = if e.rexBit 2 then 8 else 0 := by
  unfold rexBits rexBit
  cases e.rex with
  | none => rfl
  | some b => exact fourthBit rfl rfl

/-- The register number of ModRM.reg. -/
theorem modrmReg_eq (e : Encoding) (modrm : BitVec 8) :
    e.rexBits.modrmReg ||| ((modrm &&& 0x38) >>> 3).setWidth 4 = rexReg (e.rexBit 2) (modrm >>> 3) := by
  rw [rexBits_modrmReg, BitVec.ushiftRight_and_distrib]
  rfl

/-- The register number of ModRM.rm. -/
theorem modrmRm_eq (e : Encoding) (modrm : BitVec 8) :
    e.rexBits.modrmRm ||| (modrm &&& 0x07).setWidth 4 = rexReg (e.rexBit 0) modrm := by
  rw [rexBits_modrmRm]
  rfl

end Encoding

/-! ### Operand forms -/

/-- A memory operand: the registers, and how many bytes follow the ModRM byte. -/
structure EaForm where
  base : Option RegIndex
  index : Option (RegIndex × Nat)
  sib : Bool
  dispBytes : Nat
  ripRelative : Bool
  deriving DecidableEq

/-- The displacement that the mod field asks for. -/
def modDisp (mod : BitVec 2) : Nat := if mod = 0 then 0 else if mod = 1 then 1 else 4

/-- The displacement at an address, sign-extended. -/
def dispAt (code : ByteMem.Mem arch.bitsPerLong) (addr : ULong arch) (bytes : Nat) : ULong arch :=
  if bytes = 0 then 0#_ else signExtendBytes bytes ((ByteMem.load code addr bytes).setWidth _)

namespace EaForm

def sibBytes (f : EaForm) : Nat := if f.sib then 1 else 0

/-- The length, from the ModRM byte on. -/
def length (f : EaForm) : Nat := 1 + f.sibBytes + f.dispBytes

/-- Base, index and the displacement of a ModRM byte at `addr`. -/
def sum (f : EaForm) (regs : RegIndex → ULong arch) (code : ByteMem.Mem arch.bitsPerLong) (addr : ULong arch) :
    ULong arch :=
  f.base.elim 0#_ regs + f.index.elim 0#_ (fun r => regs r.1 <<< r.2) +
    dispAt code (addr + BitVec.ofNat _ (1 + f.sibBytes)) f.dispBytes

/-- The offset of the operand, where the next instruction is at `next`. -/
def offset (f : EaForm) (regs : RegIndex → ULong arch) (code : ByteMem.Mem arch.bitsPerLong) (addr next : ULong arch) :
    ULong arch :=
  f.sum regs code addr + if f.ripRelative then next else 0#_

end EaForm

namespace Encoding

/-- The operand of a ModRM and a SIB byte.  Without a base there is a displacement of 4 bytes, whatever REX.B; index 4
means none only without REX.X. -/
def eaForm (e : Encoding) (mode : X86EmulMode) (modrm sib : BitVec 8) : EaForm :=
  let mod := modField modrm
  let index := ((sib >>> 3) &&& 7)
  if modrm &&& 7 = 4 then
    { base := if sib &&& 7 = 5 ∧ mod = 0 then none else some (rexReg (e.rexBit 0) sib)
      index := if index = 4 ∧ e.rexBit 1 = false then none else some (rexReg (e.rexBit 1) (sib >>> 3), (sib >>> 6).toNat)
      sib := true
      dispBytes := if sib &&& 7 = 5 ∧ mod = 0 then 4 else modDisp mod
      ripRelative := false }
  else if modrm &&& 7 = 5 ∧ mod = 0 then ⟨none, none, false, 4, decide (mode = .prot64)⟩
  else ⟨some (rexReg (e.rexBit 0) modrm), none, false, modDisp mod, false⟩

/-- The operand as the emulator takes it. -/
def emulatedForm (e : Encoding) (mode : X86EmulMode) (modrm sib : BitVec 8) : EaForm :=
  let mod := modField modrm
  let base := rexReg (e.rexBit 0) sib
  let index := rexReg (e.rexBit 1) (sib >>> 3)
  let rm := rexReg (e.rexBit 0) modrm
  if rm = 4 ∨ rm = 12 then
    { base := if base = 5 ∧ mod = 0 then none else some base
      index := if index = 4 then none else some (index, (sib >>> 6).toNat)
      sib := true
      dispBytes := if base = 5 ∧ mod = 0 then 4 else modDisp mod
      ripRelative := false }
  else if rm = 5 ∧ mod = 0 then ⟨none, none, false, 4, decide (mode = .prot64)⟩
  else ⟨some rm, none, false, modDisp mod, false⟩

/-- A row without base whose encoding has REX.B. -/
def HiddenDisp (e : Encoding) (modrm sib : BitVec 8) : Prop :=
  e.rexBit 0 = true ∧ modField modrm = 0 ∧ (modrm &&& 7 = 5 ∨ modrm &&& 7 = 4 ∧ sib &&& 7 = 5)

/-- A register number is made of the bit and the three bits. -/
theorem rexReg_inj {rex rex' : Bool} {code code' : BitVec 8} :
    rexReg rex code = rexReg rex' code' ↔ code &&& 7 = code' &&& 7 ∧ rex = rex' := by
  constructor
  · intro h
    have hbit : ∀ i, (rexReg rex code).hasBit i = (rexReg rex' code').hasBit i := fun i => by rw [h]
    unfold rexReg at hbit
    refine ⟨BitVec.eq_of_hasBit fun i _ => ?_, ?_⟩
    · by_cases hi : i < 3
      · have hi' := hbit i
        cases rex <;> cases rex' <;> simpa [hasBit_eight, hasBit_seven, hi, show i < 4 by omega, show i ≠ 3 by omega] using hi'
      · simp [hasBit_seven, hi]
    · have h3 := hbit 3
      cases rex <;> cases rex' <;> simp [hasBit_eight, hasBit_seven] at h3 ⊢
  · rintro ⟨hcode, rfl⟩
    unfold rexReg
    rw [hcode]

theorem rexReg_eq_four (rex : Bool) (code : BitVec 8) : rexReg rex code = 4 ↔ code &&& 7 = 4 ∧ rex = false :=
  @rexReg_inj rex false code 4

theorem rexReg_eq_twelve (rex : Bool) (code : BitVec 8) : rexReg rex code = 12 ↔ code &&& 7 = 4 ∧ rex = true :=
  @rexReg_inj rex true code 4

theorem rexReg_eq_five (rex : Bool) (code : BitVec 8) : rexReg rex code = 5 ↔ code &&& 7 = 5 ∧ rex = false :=
  @rexReg_inj rex false code 5

/-- Outside these rows the emulator has the table of the architecture. -/
theorem emulatedForm_eq {e : Encoding} {mode : X86EmulMode} {modrm sib : BitVec 8} (hno : ¬ e.HiddenDisp modrm sib) :
    e.emulatedForm mode modrm sib = e.eaForm mode modrm sib := by
  unfold emulatedForm eaForm
  dsimp only
  unfold HiddenDisp at hno
  simp only [rexReg_eq_four, rexReg_eq_twelve, rexReg_eq_five]
  cases hrex : e.rexBit 0 with
  | false => simp
  | true =>
    rw [hrex] at hno
    by_cases hmod : modField modrm = 0
    · have h5 : ¬ modrm &&& 7 = 5 := fun h5 => hno ⟨rfl, hmod, Or.inl h5⟩
      by_cases h4 : modrm &&& 7 = 4
      · have hsib : ¬ sib &&& 7 = 5 := fun hsib => hno ⟨rfl, hmod, Or.inr ⟨h4, hsib⟩⟩
        simp only [h4, hsib, Bool.true_eq_false, and_true, and_false, false_and, or_true, if_true, if_false]
      · simp only [h4, h5, Bool.true_eq_false, and_false, false_and, or_false, if_false]
    · by_cases h4 : modrm &&& 7 = 4
      · simp only [hmod, h4, Bool.true_eq_false, and_true, and_false, or_true, if_true, if_false]
      · simp only [hmod, h4, Bool.true_eq_false, and_false, false_and, or_false, if_false]

/-- In these rows it leaves out the displacement. -/
theorem emulatedForm_length {e : Encoding} {mode : X86EmulMode} {modrm sib : BitVec 8} (hd : e.HiddenDisp modrm sib) :
    (e.emulatedForm mode modrm sib).length + 4 = (e.eaForm mode modrm sib).length := by
  obtain ⟨hrex, hmod, hrow⟩ := hd
  unfold emulatedForm eaForm EaForm.length EaForm.sibBytes
  dsimp only
  simp only [rexReg_eq_four, rexReg_eq_twelve, rexReg_eq_five, hrex, hmod]
  rcases hrow with h5 | ⟨h4, hsib⟩
  · have h4 : ¬ (5 : BitVec 8) = 4 := by decide
    simp only [h5, h4, modDisp, Bool.true_eq_false, and_false, or_false, and_true, if_true, if_false,
      Bool.false_eq_true]
  · simp only [h4, hsib, modDisp, Bool.true_eq_false, and_true, and_false, or_true, if_true, if_false]

/-- Where the displacement of the mod field stands. -/
theorem emulatedForm_disp (e : Encoding) (mode : X86EmulMode) (modrm sib : BitVec 8) :
    let f := e.emulatedForm mode modrm sib
    let late := if rexReg (e.rexBit 0) modrm = 5 ∧ modField modrm = 0 then 4 else modDisp (modField modrm)
    (f.sib = true ∧ f.base = none → late = 0) ∧ (¬ (f.sib = true ∧ f.base = none) → late = f.dispBytes) := by
  intro f late
  by_cases hsib : rexReg (e.rexBit 0) modrm = 4 ∨ rexReg (e.rexBit 0) modrm = 12
  · have h5 : ¬ (rexReg (e.rexBit 0) modrm = 5 ∧ modField modrm = 0) := by
      rintro ⟨h5, -⟩
      rw [h5] at hsib
      revert hsib
      decide
    have hlate : late = modDisp (modField modrm) := if_neg h5
    have hform : f = _ := if_pos hsib
    by_cases hno : rexReg (e.rexBit 0) sib = 5 ∧ modField modrm = 0
    · rw [if_pos hno, if_pos hno] at hform
      rw [hlate, hno.2, hform]
      exact ⟨fun _ => rfl, fun hne => absurd ⟨rfl, rfl⟩ hne⟩
    · rw [if_neg hno, if_neg hno] at hform
      rw [hlate, hform]
      exact ⟨fun hearly => absurd hearly.2 (Option.some_ne_none _), fun _ => rfl⟩
  · by_cases h5 : rexReg (e.rexBit 0) modrm = 5 ∧ modField modrm = 0
    · have hlate : late = 4 := if_pos h5
      have hform : f = _ := (if_neg hsib).trans (if_pos h5)
      rw [hlate, hform]
      exact ⟨fun hearly => absurd hearly.1 Bool.false_ne_true, fun _ => rfl⟩
    · have hlate : late = modDisp (modField modrm) := if_neg h5
      have hform : f = _ := (if_neg hsib).trans (if_neg h5)
      rw [hlate, hform]
      exact ⟨fun hearly => absurd hearly.1 Bool.false_ne_true, fun _ => rfl⟩

end Encoding

/-! ### Runs of the decoder -/

section

variable {h : (c : OpCall arch) → σ → OpReply arch c × σ} {code : ByteMem.Mem arch.bitsPerLong} {I : σ → Prop}
  {ctxt : X86EmulateCtxt arch}

theorem modrmDisp32_ensures (hf : Fetches h code I) (mod : BitVec 2) (rm : RegIndex) (eip : ULong arch) :
    let bytes := if rm = 5 ∧ mod = 0 then 4 else modDisp mod
    (modrmDisp32 ctxt mod rm eip).Ensures h I
      (· = (dispAt code (eip + ctxt.csBase) bytes, eip + BitVec.ofNat _ bytes)) := by
  intro bytes
  unfold modrmDisp32
  by_cases h0 : mod = 0
  · rw [if_pos h0]
    by_cases h5 : rm = 5
    · have hbytes : bytes = 4 := if_pos ⟨h5, h0⟩
      rw [if_pos h5, hbytes]
      exact fetchS_ensures hf ctxt 4 eip
    · have hbytes : bytes = 0 := by
        show (if rm = 5 ∧ mod = 0 then 4 else modDisp mod) = 0
        rw [if_neg fun hno => h5 hno.1]
        exact if_pos h0
      rw [if_neg h5, hbytes]
      apply Prog.ensures_ret
      simp [dispAt]
  · have hdisp : bytes = modDisp mod := if_neg fun hno => h0 hno.2
    rw [if_neg h0]
    by_cases h1 : mod = 1
    · have hbytes : bytes = 1 := by
        rw [hdisp, h1]
        rfl
      rw [if_pos h1, hbytes]
      exact fetchS_ensures hf ctxt 1 eip
    · have hbytes : bytes = 4 := by
        rw [hdisp]
        unfold modDisp
        rw [if_neg h0, if_neg h1]
      rw [if_neg h1, hbytes]
      exact fetchS_ensures hf ctxt 4 eip

/-- The SIB byte: the register number 5 stands for a displacement where mod is 0. -/
theorem sibEa_ensures (hf : Fetches h code I) (e : Encoding) (mod : BitVec 2) (eip : ULong arch) :
    let sib := code (eip + ctxt.csBase)
    let base := rexReg (e.rexBit 0) sib
    let index := rexReg (e.rexBit 1) (sib >>> 3)
    let bytes := if base = 5 ∧ mod = 0 then 4 else 0
    (sibEa ctxt mod e.rexBits eip).Ensures h I
      (· = ((if base = 5 ∧ mod = 0 then dispAt code (eip + 1#_ + ctxt.csBase) bytes else ctxt.regs base) +
          (if index = 4 then 0#_ else ctxt.regs index <<< (sib >>> 6).toNat), eip + 1#_ + BitVec.ofNat _ bytes)) := by
  intro sib base index bytes
  apply Prog.Ensures.bind (fetchByte_ensures hf ctxt eip)
  rintro _ rfl
  dsimp only
  rw [e.rexBits_modrmRm, e.rexBits_indexReg]
  refine Prog.Ensures.bind (Q := (· = (if base = 5 ∧ mod = 0 then dispAt code (eip + 1#_ + ctxt.csBase) bytes
    else ctxt.regs base, eip + 1#_ + BitVec.ofNat _ bytes))) ?_ ?_
  · show (sibBase ctxt mod base (eip + 1#_)).Ensures h I _
    unfold sibBase
    by_cases hno : base = 5 ∧ mod = 0
    · have hbytes : bytes = 4 := if_pos hno
      rw [if_pos hno, if_pos hno, hbytes]
      exact fetchS_ensures hf ctxt 4 _
    · have hbytes : bytes = 0 := if_neg hno
      rw [if_neg hno, if_neg hno, hbytes]
      apply Prog.ensures_ret
      simp
  · rintro _ rfl
    exact Prog.ensures_ret rfl

/-- Base and index, and the displacement in place of a base. -/
theorem modrmBase32_ensures (hf : Fetches h code I) (e : Encoding) (modrm : BitVec 8) (eip : ULong arch) :
    let f := e.emulatedForm ctxt.mode modrm (code (eip + ctxt.csBase))
    let early := if f.sib = true ∧ f.base = none then f.dispBytes else 0
    (modrmBase32 ctxt (modField modrm) (rexReg (e.rexBit 0) modrm) e.rexBits eip).Ensures h I
      (· = (f.base.elim 0#_ ctxt.regs + f.index.elim 0#_ (fun r => ctxt.regs r.1 <<< r.2) +
          dispAt code (eip + BitVec.ofNat _ f.sibBytes + ctxt.csBase) early,
        eip + BitVec.ofNat _ (f.sibBytes + early), f.ripRelative)) := by
  intro f early
  have hnil : ∀ addr : ULong arch, dispAt code addr 0 = 0#_ := fun _ => if_pos rfl
  have hadd : ∀ n : Nat, eip + 1#_ + BitVec.ofNat _ n = eip + BitVec.ofNat _ (1 + n) := ByteMem.add_ofNat eip 1
  unfold modrmBase32
  by_cases hsib : rexReg (e.rexBit 0) modrm = 4 ∨ rexReg (e.rexBit 0) modrm = 12
  · have hform : f = _ := if_pos hsib
    rw [if_pos hsib]
    apply Prog.Ensures.bind_eq (sibEa_ensures hf e (modField modrm) eip)
    apply Prog.ensures_ret
    have hindex : ∀ (index : RegIndex) (scale : Nat),
        (if index = 4 then none else some (index, scale)).elim 0#_ (fun r => ctxt.regs r.1 <<< r.2) =
          if index = 4 then 0#_ else ctxt.regs index <<< scale := by
      intro index scale
      split <;> rfl
    by_cases hno : rexReg (e.rexBit 0) (code (eip + ctxt.csBase)) = 5 ∧ modField modrm = 0
    · rw [if_pos hno, if_pos hno] at hform
      have hearly : early = 4 := by
        show (if f.sib = true ∧ f.base = none then f.dispBytes else 0) = 4
        rw [hform]
        rfl
      rw [hearly, hform, if_pos hno, if_pos hno]
      refine Prod.ext ?_ (Prod.ext (hadd 4) rfl)
      show _ = 0#_ + _ + _
      rw [BitVec.zero_add, BitVec.add_comm, ← hindex]
      rfl
    · rw [if_neg hno, if_neg hno] at hform
      have hearly : early = 0 := by
        show (if f.sib = true ∧ f.base = none then f.dispBytes else 0) = 0
        rw [hform]
        rfl
      rw [hearly, hform, if_neg hno, if_neg hno]
      refine Prod.ext ?_ (Prod.ext (hadd 0) rfl)
      show _ = _ + _ + _
      rw [hnil, ← hindex]
      exact (BitVec.add_zero _).symm
  · by_cases h5 : rexReg (e.rexBit 0) modrm = 5 ∧ modField modrm = 0
    · have hform : f = _ := (if_neg hsib).trans (if_pos h5)
      have hearly : early = 0 := by
        show (if f.sib = true ∧ f.base = none then f.dispBytes else 0) = 0
        rw [hform]
        rfl
      rw [if_neg hsib, if_pos h5, hearly, hform]
      apply Prog.ensures_ret
      simp [EaForm.sibBytes, hnil]
    · have hform : f = _ := (if_neg hsib).trans (if_neg h5)
      have hearly : early = 0 := by
        show (if f.sib = true ∧ f.base = none then f.dispBytes else 0) = 0
        rw [hform]
        rfl
      rw [if_neg hsib, if_neg h5, hearly, hform]
      apply Prog.ensures_ret
      simp [EaForm.sibBytes, hnil]

/-- 32/64-bit ModR/M decode. -/
theorem modrmEa32_ensures (hf : Fetches h code I) (e : Encoding) (modrm : BitVec 8) (eip : ULong arch) :
    let f := e.emulatedForm ctxt.mode modrm (code (eip + 1#_ + ctxt.csBase))
    (modrmEa32 ctxt (modField modrm) (rexReg (e.rexBit 0) modrm) e.rexBits (eip + 1#_)).Ensures h I
      (· = (f.sum ctxt.regs code (eip + ctxt.csBase), eip + BitVec.ofNat _ f.length, f.ripRelative)) := by
  intro f
  have hnil : ∀ addr : ULong arch, dispAt code addr 0 = 0#_ := fun _ => if_pos rfl
  have hfirst : (modrmBase32 ctxt (modField modrm) (rexReg (e.rexBit 0) modrm) e.rexBits (eip + 1#_)).Ensures h I
      (· = (f.base.elim 0#_ ctxt.regs + f.index.elim 0#_ (fun r => ctxt.regs r.1 <<< r.2) +
          dispAt code (eip + 1#_ + BitVec.ofNat _ f.sibBytes + ctxt.csBase)
            (if f.sib = true ∧ f.base = none then f.dispBytes else 0),
        eip + 1#_ + BitVec.ofNat _ (f.sibBytes + if f.sib = true ∧ f.base = none then f.dispBytes else 0),
        f.ripRelative)) := modrmBase32_ensures hf e modrm (eip + 1#_)
  obtain ⟨hnone, hlate⟩ : (f.sib = true ∧ f.base = none →
        (if rexReg (e.rexBit 0) modrm = 5 ∧ modField modrm = 0 then 4 else modDisp (modField modrm)) = 0) ∧
      (¬ (f.sib = true ∧ f.base = none) →
        (if rexReg (e.rexBit 0) modrm = 5 ∧ modField modrm = 0 then 4 else modDisp (modField modrm)) = f.dispBytes) :=
    e.emulatedForm_disp ctxt.mode modrm (code (eip + 1#_ + ctxt.csBase))
  clear_value f
  apply Prog.Ensures.bind_eq hfirst
  apply Prog.Ensures.bind_eq (modrmDisp32_ensures hf (modField modrm) (rexReg (e.rexBit 0) modrm) _)
  apply Prog.ensures_ret
  by_cases hearly : f.sib = true ∧ f.base = none
  · rw [if_pos hearly, hnone hearly, hnil]
    refine Prod.ext ?_ (Prod.ext ?_ rfl)
    · show _ + 0#_ = _
      rw [BitVec.add_zero, ByteMem.add_ofNat, ByteMem.add_ofNat_comm]
      rfl
    · show _ + 0#_ = _
      rw [BitVec.add_zero, ByteMem.add_ofNat, ← Nat.add_assoc]
      rfl
  · rw [if_neg hearly, hlate hearly, hnil]
    refine Prod.ext ?_ (Prod.ext ?_ rfl)
    · show _ + 0#_ + _ = _
      rw [BitVec.add_zero, ByteMem.add_ofNat, ByteMem.add_ofNat_comm]
      rfl
    · show eip + 1#_ + BitVec.ofNat _ (f.sibBytes + 0) + BitVec.ofNat _ f.dispBytes = _
      rw [ByteMem.add_ofNat, ByteMem.add_ofNat, Nat.add_zero, ← Nat.add_assoc]
      rfl

/-- The operand of the ModRM byte with 32- or 64-bit addresses. -/
theorem decodeModrm_ensures32 (hf : Fetches h code I) (e : Encoding) {p : Prefixes arch}
    (hmod : modField (code (p.eip + ctxt.csBase)) ≠ 3) (had : p.adBytes ≠ 2) (d : BitVec 8) :
    let modrm := code (p.eip + ctxt.csBase)
    let f := e.emulatedForm ctxt.mode modrm (code (p.eip + 1#_ + ctxt.csBase))
    let next := p.eip + BitVec.ofNat _ f.length
    let ea := f.offset ctxt.regs code (p.eip + ctxt.csBase) (next + BitVec.ofNat _ (immediateBytes d p.opBytes)) +
      modrmBase ctxt p.overrideBase
    (decodeModrm ctxt p e.rexBits d).Ensures h I
      (· = (rexReg (e.rexBit 2) (modrm >>> 3), 0#_, if p.adBytes ≠ 8 then lowBytes 4 ea else ea, next)) := by
  intro modrm f next ea
  have hfield : ((code (p.eip + ctxt.csBase) &&& 0xc0) >>> 6).setWidth 2 = modField (code (p.eip + ctxt.csBase)) := rfl
  have hea : (if f.ripRelative = true then f.sum ctxt.regs code (p.eip + ctxt.csBase) + modrmBase ctxt p.overrideBase +
        next + BitVec.ofNat _ (immediateBytes d p.opBytes)
      else f.sum ctxt.regs code (p.eip + ctxt.csBase) + modrmBase ctxt p.overrideBase) = ea := by
    show _ = f.sum _ _ _ + _ + _
    split
    · ac_rfl
    · rw [BitVec.add_zero]
  apply Prog.Ensures.bind_eq (fetchByte_ensures hf ctxt p.eip)
  dsimp only
  rw [e.modrmReg_eq, e.modrmRm_eq, hfield, if_neg hmod]
  refine Prog.Ensures.bind_eq (a := (f.sum ctxt.regs code (p.eip + ctxt.csBase), next, p.overrideBase, f.ripRelative)) ?_ ?_
  · unfold modrmEa
    rw [if_neg had]
    apply Prog.Ensures.bind_eq (modrmEa32_ensures hf e modrm p.eip)
    exact Prog.ensures_ret rfl
  · apply Prog.ensures_ret
    rw [← hea]

end

end LearnKvm
