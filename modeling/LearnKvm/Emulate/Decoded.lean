import LearnKvm.Emulate.Restart

/-!
# What the decoder calls and returns (`x86_emulate.c`)

For every handler: the decoder makes fetches only, and the sizes that it returns are those of the mode, switched by the
prefixes (`decode_within`).  `accesses` are the calls of a run other than fetches.
-/

namespace LearnKvm

open Calls

variable {arch : Arch}

def OpCall.isFetch : OpCall arch → Bool
  | .readStd .. => true
  | _ => false

/-- The calls of a run other than `read_std`. -/
def accesses (t : List (Event (OpReply arch))) : List (Event (OpReply arch)) := t.filter fun e => !e.1.isFetch

theorem accesses_append (t₁ t₂ : List (Event (OpReply arch))) : accesses (t₁ ++ t₂) = accesses t₁ ++ accesses t₂ :=
  List.filter_append ..

theorem accesses_eq_nil {t : List (Event (OpReply arch))} (ht : ∀ e ∈ t, e.1.isFetch = true) : accesses t = [] := by
  rw [accesses, List.filter_eq_nil_iff]
  intro e he
  simp [ht e he]

/-! ### Prefixes -/

/-- The segment of a segment override prefix. -/
def prefixSegment (b : BitVec 8) : Option SegBase :=
  if b = 0x2e then some .cs else if b = 0x3e then some .ds else if b = 0x26 then some .es else if b = 0x64 then some .fs
  else if b = 0x65 then some .gs else if b = 0x36 then some .ss else none

def isLegacyPrefix (b : BitVec 8) : Bool :=
  b == 0x66 || b == 0x67 || (prefixSegment b).isSome || b == 0xf0 || b == 0xf3 || b == 0xf2

/-- What a prefix changes. -/
def Prefixes.apply (mode : X86EmulMode) (p : Prefixes arch) (b : BitVec 8) : Prefixes arch :=
  { p with
    opBytes := if b = 0x66 then p.opBytes ^^^ 6 else p.opBytes
    adBytes := if b = 0x67 then p.adBytes ^^^ (if mode = .prot64 then 12 else 6) else p.adBytes
    overrideBase := (prefixSegment b).or p.overrideBase
    lockPrefix := p.lockPrefix || b == 0xf0
    repPrefix := p.repPrefix || b == 0xf3 }

theorem legacyPrefix_eq (mode : X86EmulMode) (p : Prefixes arch) :
    legacyPrefix mode p = if isLegacyPrefix p.b then some (p.apply mode p.b) else none := by
  obtain ⟨b, opBytes, adBytes, overrideBase, lockPrefix, repPrefix, eip⟩ := p
  unfold legacyPrefix
  dsimp only
  by_cases h66 : b = 0x66
  · subst h66
    simp [isLegacyPrefix, Prefixes.apply, prefixSegment]
  by_cases h67 : b = 0x67
  · subst h67
    simp [isLegacyPrefix, Prefixes.apply, prefixSegment]
  by_cases h2e : b = 0x2e
  · subst h2e
    simp [isLegacyPrefix, Prefixes.apply, prefixSegment]
  by_cases h3e : b = 0x3e
  · subst h3e
    simp [isLegacyPrefix, Prefixes.apply, prefixSegment]
  by_cases h26 : b = 0x26
  · subst h26
    simp [isLegacyPrefix, Prefixes.apply, prefixSegment]
  by_cases h64 : b = 0x64
  · subst h64
    simp [isLegacyPrefix, Prefixes.apply, prefixSegment]
  by_cases h65 : b = 0x65
  · subst h65
    simp [isLegacyPrefix, Prefixes.apply, prefixSegment]
  by_cases h36 : b = 0x36
  · subst h36
    simp [isLegacyPrefix, Prefixes.apply, prefixSegment]
  by_cases hf0 : b = 0xf0
  · subst hf0
    simp [isLegacyPrefix, Prefixes.apply, prefixSegment]
  by_cases hf3 : b = 0xf3
  · subst hf3
    simp [isLegacyPrefix, Prefixes.apply, prefixSegment]
  by_cases hf2 : b = 0xf2
  · subst hf2
    simp [isLegacyPrefix, Prefixes.apply, prefixSegment]
  have hseg : prefixSegment b = none := by
    unfold prefixSegment
    rw [if_neg h2e, if_neg h3e, if_neg h26, if_neg h64, if_neg h65, if_neg h36]
  have hno : isLegacyPrefix b = false := by
    unfold isLegacyPrefix
    rw [hseg, beq_eq_false_iff_ne.2 h66, beq_eq_false_iff_ne.2 h67, beq_eq_false_iff_ne.2 hf0,
      beq_eq_false_iff_ne.2 hf3, beq_eq_false_iff_ne.2 hf2]
    rfl
  rw [if_neg h66, if_neg h67, if_neg h2e, if_neg h3e, if_neg h26, if_neg h64, if_neg h65, if_neg h36, if_neg hf0,
    if_neg hf3, if_neg hf2, hno, if_neg Bool.false_ne_true]

/-- The sizes of an instruction.  Only 64-bit mode has operands and addresses of 8 bytes, and REX prefixes. -/
structure SizesOf (mode : X86EmulMode) (opBytes adBytes : Nat) : Prop where
  op : opBytes = 2 ∨ opBytes = 4 ∨ (opBytes = 8 ∧ mode = .prot64)
  ad : if mode = .prot64 then adBytes = 4 ∨ adBytes = 8 else adBytes = 2 ∨ adBytes = 4

theorem SizesOf.start {mode : X86EmulMode} {sizes : Nat × Nat} (hs : modeBytes arch mode = some sizes) :
    SizesOf mode sizes.1 sizes.2 := by
  cases mode with
  | prot64 =>
    unfold modeBytes at hs
    dsimp only at hs
    split at hs
    · cases hs
      exact ⟨by decide, by decide⟩
    · cases hs
  | _ =>
    cases hs
    exact ⟨by decide, by decide⟩

theorem modeBytes_ne_eight {mode : X86EmulMode} {sizes : Nat × Nat} (hs : modeBytes arch mode = some sizes) :
    sizes.1 ≠ 8 := by
  cases mode with
  | prot64 =>
    unfold modeBytes at hs
    dsimp only at hs
    split at hs
    · cases hs
      decide
    · cases hs
  | _ =>
    cases hs
    decide

/-- A prefix keeps the sizes possible. -/
theorem SizesOf.apply {mode : X86EmulMode} {p : Prefixes arch}
    (hp : SizesOf mode p.opBytes p.adBytes ∧ p.opBytes ≠ 8) (b : BitVec 8) :
    SizesOf mode (p.apply mode b).opBytes (p.apply mode b).adBytes ∧ (p.apply mode b).opBytes ≠ 8 := by
  obtain ⟨⟨hop, had⟩, hne⟩ := hp
  have hop2 : p.opBytes = 2 ∨ p.opBytes = 4 := by
    rcases hop with hop | hop | ⟨hop, -⟩
    · exact Or.inl hop
    · exact Or.inr hop
    · exact absurd hop hne
  have hopNew : (p.apply mode b).opBytes = 2 ∨ (p.apply mode b).opBytes = 4 := by
    unfold Prefixes.apply
    dsimp only
    split
    · rcases hop2 with h2 | h4
      · exact Or.inr (by rw [h2]; rfl)
      · exact Or.inl (by rw [h4]; rfl)
    · exact hop2
  have hadNew : if mode = .prot64 then (p.apply mode b).adBytes = 4 ∨ (p.apply mode b).adBytes = 8
      else (p.apply mode b).adBytes = 2 ∨ (p.apply mode b).adBytes = 4 := by
    unfold Prefixes.apply
    dsimp only
    by_cases h67 : b = 0x67
    · by_cases hmode : mode = .prot64
      · simp only [if_pos h67, if_pos hmode] at had ⊢
        rcases had with h4 | h8
        · exact Or.inr (by rw [h4]; rfl)
        · exact Or.inl (by rw [h8]; rfl)
      · simp only [if_pos h67, if_neg hmode] at had ⊢
        rcases had with h2 | h4
        · exact Or.inr (by rw [h2]; rfl)
        · exact Or.inl (by rw [h4]; rfl)
    · simp only [if_neg h67]
      exact had
  refine ⟨⟨?_, hadNew⟩, ?_⟩
  · rcases hopNew with h2 | h4
    · exact Or.inl h2
    · exact Or.inr (Or.inl h4)
  · omega

/-! ### Fetches -/

theorem readStd_within {Q : ULong arch → Prop} (addr : ULong arch) (bytes : Nat) (hQ : ∀ v, Q v) :
    (Emul.readStd addr bytes).Within (fun c => c.isFetch = true) Q := by
  refine ⟨rfl, fun r => ?_⟩
  cases r with
  | ok v => exact hQ v
  | error rc => trivial

theorem insnFetch_within (ctxt : X86EmulateCtxt arch) (size : Nat) (eip : ULong arch) :
    (insnFetch ctxt size eip).Within (fun c => c.isFetch = true) fun _ => True :=
  Prog.Within.bind (readStd_within _ _ fun _ => trivial) fun _ _ => trivial

theorem fetchU_within (ctxt : X86EmulateCtxt arch) (size : Nat) (eip : ULong arch) :
    (fetchU ctxt size eip).Within (fun c => c.isFetch = true) fun _ => True :=
  Prog.Within.bind (insnFetch_within _ _ _) fun _ _ => trivial

theorem fetchS_within (ctxt : X86EmulateCtxt arch) (size : Nat) (eip : ULong arch) :
    (fetchS ctxt size eip).Within (fun c => c.isFetch = true) fun _ => True :=
  Prog.Within.bind (insnFetch_within _ _ _) fun _ _ => trivial

theorem fetchByte_within (ctxt : X86EmulateCtxt arch) (eip : ULong arch) :
    (fetchByte ctxt eip).Within (fun c => c.isFetch = true) fun _ => True :=
  Prog.Within.bind (insnFetch_within _ _ _) fun _ _ => trivial

/-! ### The stages of the decoder -/

theorem legacyPrefixes_within (ctxt : X86EmulateCtxt arch) (n : Nat) {p : Prefixes arch}
    (hp : SizesOf ctxt.mode p.opBytes p.adBytes ∧ p.opBytes ≠ 8) :
    (legacyPrefixes ctxt n p).Within (fun c => c.isFetch = true) fun q =>
      SizesOf ctxt.mode q.opBytes q.adBytes ∧ q.opBytes ≠ 8 := by
  induction n generalizing p with
  | zero => exact hp
  | succ n ih =>
    apply Prog.Within.bind (fetchByte_within _ _)
    rintro ⟨b, eip⟩ -
    dsimp only
    rw [legacyPrefix_eq]
    cases isLegacyPrefix b with
    | true => exact ih (SizesOf.apply (p := { p with b := b, eip := eip }) hp b)
    | false => exact hp

theorem rexPrefix_within (ctxt : X86EmulateCtxt arch) {p : Prefixes arch}
    (hp : SizesOf ctxt.mode p.opBytes p.adBytes) :
    (rexPrefix ctxt p).Within (fun c => c.isFetch = true) fun q => SizesOf ctxt.mode q.1.opBytes q.1.adBytes := by
  unfold rexPrefix
  split
  · rename_i hrex
    apply Prog.Within.bind (fetchByte_within _ _)
    rintro ⟨b, eip⟩ -
    refine ⟨?_, hp.ad⟩
    dsimp only
    split
    · exact Or.inr (Or.inr ⟨rfl, hrex.1⟩)
    · exact hp.op
  · exact hp

theorem modrmDisp16_within (ctxt : X86EmulateCtxt arch) (modrmMod : BitVec 2) (modrmRm : RegIndex) (eip : ULong arch) :
    (modrmDisp16 ctxt modrmMod modrmRm eip).Within (fun c => c.isFetch = true) fun _ => True := by
  unfold modrmDisp16
  split
  · split
    · exact fetchU_within _ _ _
    · trivial
  · split
    · exact fetchS_within _ _ _
    · exact fetchU_within _ _ _

theorem modrmDisp32_within (ctxt : X86EmulateCtxt arch) (modrmMod : BitVec 2) (modrmRm : RegIndex) (eip : ULong arch) :
    (modrmDisp32 ctxt modrmMod modrmRm eip).Within (fun c => c.isFetch = true) fun _ => True := by
  unfold modrmDisp32
  split
  · split
    · exact fetchS_within _ _ _
    · trivial
  · split
    · exact fetchS_within _ _ _
    · exact fetchS_within _ _ _

theorem sibEa_within (ctxt : X86EmulateCtxt arch) (modrmMod : BitVec 2) (rex : RexBits) (eip : ULong arch) :
    (sibEa ctxt modrmMod rex eip).Within (fun c => c.isFetch = true) fun _ => True := by
  apply Prog.Within.bind (fetchByte_within _ _)
  rintro ⟨sib, eip⟩ -
  apply Prog.Within.bind (Q := fun _ => True)
  · unfold sibBase
    split
    · exact fetchS_within _ _ _
    · trivial
  · exact fun _ _ => trivial

theorem modrmBase32_within (ctxt : X86EmulateCtxt arch) (modrmMod : BitVec 2) (modrmRm : RegIndex) (rex : RexBits)
    (eip : ULong arch) :
    (modrmBase32 ctxt modrmMod modrmRm rex eip).Within (fun c => c.isFetch = true) fun _ => True := by
  unfold modrmBase32
  split
  · exact Prog.Within.bind (sibEa_within _ _ _ _) fun _ _ => trivial
  · split
    · trivial
    · trivial

theorem modrmEa_within (ctxt : X86EmulateCtxt arch) (p : Prefixes arch) (modrmMod : BitVec 2) (modrmRm : RegIndex)
    (rex : RexBits) (eip : ULong arch) :
    (modrmEa ctxt p modrmMod modrmRm rex eip).Within (fun c => c.isFetch = true) fun _ => True := by
  unfold modrmEa
  split
  · exact Prog.Within.bind (Q := fun _ => True)
      (Prog.Within.bind (modrmDisp16_within _ _ _ _) fun _ _ => trivial) fun _ _ => trivial
  · refine Prog.Within.bind (Q := fun _ => True) ?_ fun _ _ => trivial
    apply Prog.Within.bind (modrmBase32_within _ _ _ _ _)
    intro _ _
    exact Prog.Within.bind (modrmDisp32_within _ _ _ _) fun _ _ => trivial

theorem decodeModrm_within (ctxt : X86EmulateCtxt arch) (p : Prefixes arch) (rex : RexBits) (d : BitVec 8) :
    (decodeModrm ctxt p rex d).Within (fun c => c.isFetch = true) fun _ => True := by
  apply Prog.Within.bind (fetchByte_within _ _)
  rintro ⟨modrm, eip⟩ -
  dsimp only
  split
  · trivial
  · exact Prog.Within.bind (modrmEa_within _ _ _ _ _ _) fun _ _ => trivial

theorem decodeOpcode_within (ctxt : X86EmulateCtxt arch) (p : Prefixes arch) :
    (decodeOpcode ctxt p).Within (fun c => c.isFetch = true) fun _ => True := by
  unfold decodeOpcode
  split
  · split
    · apply Prog.Within.bind (fetchByte_within _ _)
      rintro ⟨b, eip⟩ -
      dsimp only
      split
      · trivial
      · trivial
    · trivial
  · trivial

/-- What holds of every instruction that is decoded. -/
structure Insn.Decoded (ctxt : X86EmulateCtxt arch) (i : Insn arch) : Prop where
  mode : i.mode = ctxt.mode
  sizes : SizesOf i.mode i.opBytes i.adBytes
  host : i.mode = .prot64 → arch = .x86_64

theorem decode_within (ctxt : X86EmulateCtxt arch) :
    (decode ctxt).Within (fun c => c.isFetch = true) (·.Decoded ctxt) := by
  unfold decode
  cases hs : modeBytes arch ctxt.mode with
  | none => trivial
  | some sizes =>
    have hhost : ctxt.mode = .prot64 → arch = .x86_64 := by
      intro hmode
      rw [hmode] at hs
      unfold modeBytes at hs
      dsimp only at hs
      split at hs
      · assumption
      · cases hs
    apply Prog.Within.bind (legacyPrefixes_within ctxt 8 ⟨SizesOf.start hs, modeBytes_ne_eight hs⟩)
    rintro p ⟨hp, -⟩
    apply Prog.Within.bind (rexPrefix_within ctxt hp)
    rintro ⟨p, rex⟩ hp
    apply Prog.Within.bind (decodeOpcode_within _ _)
    rintro ⟨b, twobyte, eip⟩ -
    dsimp only
    split
    · exact Prog.Within.bind (decodeModrm_within _ _ _ _) fun _ _ => ⟨rfl, hp, hhost⟩
    · exact ⟨rfl, hp, hhost⟩

section

variable {σ : Type} {h : (c : OpCall arch) → σ → OpReply arch c × σ} {ctxt : X86EmulateCtxt arch} {i : Insn arch} {s : σ}

theorem decoded (hi : ((decode ctxt).run h s).result = .ok i) : i.Decoded ctxt :=
  ((decode_within ctxt).run h s).2 i hi

theorem decode_accesses (ctxt : X86EmulateCtxt arch) (s : σ) : accesses ((decode ctxt).run h s).trace = [] :=
  accesses_eq_nil ((decode_within ctxt).run h s).1

/-- The accesses of a call are those of the instruction. -/
theorem emulate_accesses (cpu : HostCpu arch) (hasCmpxchg8b : Bool) (hi : ((decode ctxt).run h s).result = .ok i) :
    accesses ((emulate cpu hasCmpxchg8b ctxt).run h s).trace =
      accesses ((executeAndWriteback cpu hasCmpxchg8b ctxt i).run h ((decode ctxt).run h s).state).trace := by
  rw [emulate_run h cpu hasCmpxchg8b hi]
  dsimp only
  rw [accesses_append, decode_accesses, List.nil_append]

end

end LearnKvm
