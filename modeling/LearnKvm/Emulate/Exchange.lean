import LearnKvm.Emulate.Contract

/-!
# The exchange instructions of the emulator (`x86_emulate.c`)

cmpxchg8b has a branch for each host.  The one for i386 compares the high half with EDI in place of EDX
(`emulate_cmpxchg8b`).
-/

namespace LearnKvm

open Calls

variable {arch : Arch} {σ : Type} {h : (c : OpCall arch) → σ → OpReply arch c × σ} {mem : σ → EmulMem arch}

/-! ### Halves of a 64-bit value -/

theorem hasBit_join64 (hi lo : ULong arch) (i : Nat) :
    (join64 hi lo).hasBit i = (decide (i < 64) && if i < 32 then lo.hasBit i else hi.hasBit (i - 32)) := by
  unfold join64
  by_cases h64 : i < 64
  · by_cases h32 : i < 32
    · simp [h64, h32]
    · simp [h64, h32, show i - 32 < 64 by omega]
  · simp [h64]

/-- The halves of a value in memory. -/
theorem load_eight (m : EmulMem arch) (addr : ULong arch) :
    ByteMem.load m addr 8 = (ByteMem.load m (addr + 4#_) 4 <<< 32) ||| ByteMem.load m addr 4 := by
  apply BitVec.eq_of_hasBit
  intro i hi
  rw [BitVec.hasBit_or, BitVec.hasBit_shiftLeft, ByteMem.hasBit_load, ByteMem.hasBit_load, ByteMem.hasBit_load]
  by_cases h32 : i < 32
  · simp [h32, hi]
  · have haddr : addr + 4#_ + BitVec.ofNat _ ((i - 32) / 8) = addr + BitVec.ofNat _ (i / 8) := by
      rw [show i / 8 = 4 + (i - 32) / 8 by omega, BitVec.ofNat_add, BitVec.add_assoc]
    rw [haddr, show (i - 32) % 8 = i % 8 by omega]
    simp [h32, hi, show i - 32 < 32 by omega]
    omega

/-! ### cmpxchg8b -/

def edxEax (regs : RegIndex → ULong arch) : BitVec 64 := join64 (regs vcpuRegsRdx) (regs vcpuRegsRax)
def ecxEbx (regs : RegIndex → ULong arch) : BitVec 64 := join64 (regs vcpuRegsRcx) (regs vcpuRegsRbx)

/-- What cmpxchg8b does with the registers, the flags and the memory. -/
structure Cmpxchg8bDone (addr : ULong arch) (ctxt ctxt' : X86EmulateCtxt arch) (m m' : EmulMem arch) : Prop where
  equal : ByteMem.load m addr 8 = edxEax ctxt.regs → ctxt'.regs = ctxt.regs ∧
    ctxt'.eflags = ctxt.eflags ||| BitVec.ofNat _ eflgZf ∧ m' = ByteMem.store m addr 8 (ecxEbx ctxt.regs)
  different : ByteMem.load m addr 8 ≠ edxEax ctxt.regs → edxEax ctxt'.regs = ByteMem.load m addr 8 ∧
    (∀ r, r ≠ vcpuRegsRax → r ≠ vcpuRegsRdx → ctxt'.regs r = ctxt.regs r) ∧
    ctxt'.eflags = ctxt.eflags &&& ~~~BitVec.ofNat _ eflgZf ∧ m' = m

/-- The condition: on an i386 host, if the low half is EAX, then the high half is EDX if and only if it is EDI. -/
def Cmpxchg8bWhen (addr : ULong arch) (ctxt : X86EmulateCtxt arch) (m : EmulMem arch) : Prop :=
  arch = .i386 → ByteMem.load m addr 4 = (ctxt.regs vcpuRegsRax).setWidth 64 →
    (ByteMem.load m (addr + 4#_) 4 = (ctxt.regs vcpuRegsRdx).setWidth 64 ↔
      ByteMem.load m (addr + 4#_) 4 = (ctxt.regs vcpuRegsRdi).setWidth 64)

theorem cmpxchg8b_special : twobyteTable.getD (0xc7 : BitVec 8).toNat 0 &&& dstMask = implicitOps := rfl

theorem execute_cmpxchg8b (cpu : HostCpu arch) (hasCmpxchg8b : Bool) (ctxt : X86EmulateCtxt arch) {i : Insn arch}
    (ht : i.twobyte = true) (hb : i.b = 0xc7) :
    execute cpu hasCmpxchg8b ctxt i = cmpxchg8b hasCmpxchg8b i (specialExec ctxt i) := by
  have hd : i.d &&& dstMask = implicitOps := by
    rw [Insn.d_twobyte ht, hb]
    exact cmpxchg8b_special
  unfold execute
  rw [if_pos hd, if_pos ht]
  unfold twobyteSpecialInsn
  dsimp only
  rw [hb, if_neg (by decide), if_neg (by decide), if_pos rfl]

theorem writeback_imm {y : Exec arch} (hptr : y.dst.ptr = .imm) : writeback y = .ret y := by
  unfold writeback
  rw [hptr]
  split
  · rfl
  · rfl

theorem clearZf_flag (x : Exec arch) : x.clearZf.flag eflgZf = false := by
  unfold Exec.flag Exec.clearZf
  simp [BitVec.and_assoc]

/-- On a 64-bit host, the comparison of the halves is one of 64-bit values. -/
theorem eq_join64_iff (hw : arch.bitsPerLong = 64) (old hi lo : ULong arch) : old.setWidth 64 = join64 hi lo ↔
    lowBytes 4 old = lowBytes 4 lo ∧ lowBytes 4 (old >>> 32) = lowBytes 4 hi := by
  have hbit : ∀ i, (old.setWidth 64).hasBit i = old.hasBit i := by
    intro i
    by_cases h64 : i < 64
    · simp [h64]
    · simp [h64, BitVec.hasBit_of_ge old (i := i) (by omega)]
  constructor
  · intro heq
    constructor
    · apply BitVec.eq_of_hasBit
      intro i hi
      rw [hasBit_lowBytes, hasBit_lowBytes, ← hbit, heq, hasBit_join64]
      by_cases h32 : i < 32
      · simp [h32, show i < 64 by omega]
      · simp [h32]
    · apply BitVec.eq_of_hasBit
      intro i hi
      rw [hasBit_lowBytes, hasBit_lowBytes, BitVec.hasBit_ushiftRight, ← hbit, heq, hasBit_join64]
      by_cases h32 : i < 32
      · simp [show 32 + i < 64 by omega]
      · simp [h32]
  · rintro ⟨hlo, hhi⟩
    apply BitVec.eq_of_hasBit
    intro i hi
    rw [hbit, hasBit_join64]
    by_cases h32 : i < 32
    · have hcut := congrArg (fun v => BitVec.hasBit v i) hlo
      simpa [h32, hi] using hcut
    · have hcut := congrArg (fun v => BitVec.hasBit v (i - 32)) hhi
      simpa [h32, hi, show i - 32 < 32 by omega, show 32 + (i - 32) = i by omega] using hcut

theorem join64_words (hw : arch.bitsPerLong = 64) (hi lo : ULong arch) :
    ((hi <<< 32) ||| lowBytes 4 lo).setWidth 64 = join64 hi lo := by
  rw [eq_join64_iff hw]
  constructor
  · apply BitVec.eq_of_hasBit
    intro i hi
    by_cases h32 : i < 32 <;> simp [h32]
  · apply BitVec.eq_of_hasBit
    intro i hi
    by_cases h32 : i < 32
    · simp [h32, show 32 + i < arch.bitsPerLong by omega]
    · simp [h32]

theorem join64_inj (hw : arch.bitsPerLong = 32) {hi lo hi' lo' : ULong arch} :
    join64 hi lo = join64 hi' lo' ↔ lo = lo' ∧ hi = hi' := by
  constructor
  · intro heq
    constructor
    · apply BitVec.eq_of_hasBit
      intro i hi
      have hbit := congrArg (fun v => BitVec.hasBit v i) heq
      rw [hasBit_join64, hasBit_join64] at hbit
      simpa [show i < 32 by omega, show i < 64 by omega] using hbit
    · apply BitVec.eq_of_hasBit
      intro i hi
      have hbit := congrArg (fun v => BitVec.hasBit v (i + 32)) heq
      rw [hasBit_join64, hasBit_join64] at hbit
      simpa [show i + 32 < 64 by omega] using hbit
  · rintro ⟨rfl, rfl⟩
    rfl

/-- The halves that are read with 4 bytes each. -/
theorem join64_load (hw : arch.bitsPerLong = 32) (m : EmulMem arch) (addr : ULong arch) :
    join64 ((ByteMem.load m (addr + 4#_) 4).setWidth arch.bitsPerLong)
      ((ByteMem.load m addr 4).setWidth arch.bitsPerLong) = ByteMem.load m addr 8 := by
  rw [load_eight]
  apply BitVec.eq_of_hasBit
  intro i hi
  rw [hasBit_join64, BitVec.hasBit_or, BitVec.hasBit_shiftLeft, BitVec.hasBit_setWidth, BitVec.hasBit_setWidth,
    ByteMem.hasBit_load, ByteMem.hasBit_load]
  by_cases h32 : i < 32
  · simp [h32, hi, hw]
  · simp [h32, hi, hw, show i - 32 < 32 by omega]

section

variable {i : Insn arch} {x y : Exec arch} {t : σ}

theorem cmpxchg8bX86_64_run (hw : arch.bitsPerLong = 64) (hc : Conforms h mem) (hptr : x.dst.ptr = .imm)
    (hr : ((cmpxchg8bX86_64 i x >>= writeback).run h t).result = .ok y) :
    (ByteMem.load (mem t) i.cr2 8 = edxEax x.regs ∧ y = x.setZf ∧
      mem ((cmpxchg8bX86_64 i x >>= writeback).run h t).state = ByteMem.store (mem t) i.cr2 8 (ecxEbx x.regs)) ∨
    (ByteMem.load (mem t) i.cr2 8 ≠ edxEax x.regs ∧ (∃ lo hi, join64 hi lo = ByteMem.load (mem t) i.cr2 8 ∧
      y = ((x.setReg vcpuRegsRax lo).setReg vcpuRegsRdx hi).clearZf) ∧
      mem ((cmpxchg8bX86_64 i x >>= writeback).run h t).state = mem t) := by
  unfold cmpxchg8bX86_64 at hr ⊢
  rw [Prog.bind_assoc] at hr ⊢
  obtain ⟨old, hold, hrun⟩ := readEmulated_ok hr
  have hval : old.setWidth 64 = ByteMem.load (mem t) i.cr2 8 := by
    rw [hc.readEmulated _ _ _ _ hold, BitVec.setWidth_setWidth_of_le _ (by omega), BitVec.setWidth_eq]
  have hmem := hc.afterRead i.cr2 8 t
  have hcmp := eq_join64_iff hw old (x.regs vcpuRegsRdx) (x.regs vcpuRegsRax)
  rw [hval] at hcmp
  have hset : writeback x.setZf = .ret x.setZf := writeback_imm hptr
  have hclear : ∀ lo hi, writeback ((x.setReg vcpuRegsRax lo).setReg vcpuRegsRdx hi).clearZf =
      .ret ((x.setReg vcpuRegsRax lo).setReg vcpuRegsRdx hi).clearZf := fun lo hi => writeback_imm hptr
  rw [hrun] at hr ⊢
  dsimp only at hr ⊢
  split at hr
  · rename_i hne
    rw [if_pos hne]
    rw [Prog.pure_eq, Prog.ret_bind, hclear] at hr ⊢
    refine Or.inr ⟨fun heq => ?_, ⟨_, _, ?_, (Except.ok.inj hr).symm⟩, hmem⟩
    · obtain ⟨h1, h2⟩ := hcmp.1 heq
      exact hne.elim (fun hno => hno h1) fun hno => hno h2
    · rw [← hval, eq_comm, eq_join64_iff hw]
      constructor
      · apply BitVec.eq_of_hasBit
        intro i hi
        simp
      · apply BitVec.eq_of_hasBit
        intro i hi
        simp
  · rename_i heq
    rw [if_neg heq]
    simp only [ne_eq, not_or, not_not] at heq
    rw [Prog.bind_assoc] at hr ⊢
    obtain ⟨hok, hrun2⟩ := cmpxchgEmulated_ok hr
    rw [hrun2] at hr ⊢
    simp only [Prog.pure_eq, Prog.ret_bind] at hr ⊢
    rw [hset] at hr ⊢
    have hload : ByteMem.load (mem (h (.readEmulated i.cr2 8) t).2) i.cr2 8 = (lowBytes 8 old).setWidth 64 := by
      rw [hmem, ← hval]
      apply BitVec.eq_of_hasBit
      intro i hi
      simp [hi]
    have hstore := hc.cmpxchgEmulated _ _ _ _ _ hok hload
    rw [hmem, join64_words hw] at hstore
    exact Or.inl ⟨hcmp.2 heq, (Except.ok.inj hr).symm, hstore⟩

/-- On a 32-bit host, the high half is compared with EDI. -/
theorem cmpxchg8bI386_run (hw : arch.bitsPerLong = 32) (hc : Conforms h mem) (hptr : x.dst.ptr = .imm)
    (hr : ((cmpxchg8bI386 true i x >>= writeback).run h t).result = .ok y) :
    (ByteMem.load (mem t) i.cr2 8 = join64 (x.regs vcpuRegsRdi) (x.regs vcpuRegsRax) ∧ y = x.setZf ∧
      mem ((cmpxchg8bI386 true i x >>= writeback).run h t).state = ByteMem.store (mem t) i.cr2 8 (ecxEbx x.regs)) ∨
    (ByteMem.load (mem t) i.cr2 8 ≠ join64 (x.regs vcpuRegsRdi) (x.regs vcpuRegsRax) ∧
      (∃ lo hi, join64 hi lo = ByteMem.load (mem t) i.cr2 8 ∧
        y = ((x.setReg vcpuRegsRax lo).setReg vcpuRegsRdx hi).clearZf) ∧
      mem ((cmpxchg8bI386 true i x >>= writeback).run h t).state = mem t) := by
  unfold cmpxchg8bI386 at hr ⊢
  rw [Prog.bind_assoc] at hr ⊢
  obtain ⟨lo, hlo, hrun⟩ := readEmulated_ok hr
  have hloVal := hc.readEmulated _ _ _ _ hlo
  have hmem := hc.afterRead i.cr2 4 t
  rw [hrun] at hr ⊢
  dsimp only at hr ⊢
  rw [Prog.bind_assoc] at hr ⊢
  obtain ⟨hi, hhi, hrun2⟩ := readEmulated_ok hr
  have hhiVal := hc.readEmulated _ _ _ _ hhi
  have hmem2 := (hc.afterRead (i.cr2 + 4#_) 4 (h (.readEmulated i.cr2 4) t).2).trans hmem
  rw [hrun2] at hr ⊢
  dsimp only at hr ⊢
  rw [hmem] at hhiVal
  have hjoin : join64 hi lo = ByteMem.load (mem t) i.cr2 8 := by
    rw [hloVal, hhiVal]
    exact join64_load hw _ _
  have hcmp := @join64_inj _ hw hi lo (x.regs vcpuRegsRdi) (x.regs vcpuRegsRax)
  rw [hjoin] at hcmp
  have hset : writeback x.setZf = .ret x.setZf := writeback_imm hptr
  have hclear : ∀ lo hi, writeback ((x.setReg vcpuRegsRax lo).setReg vcpuRegsRdx hi).clearZf =
      .ret ((x.setReg vcpuRegsRax lo).setReg vcpuRegsRdx hi).clearZf := fun lo hi => writeback_imm hptr
  split at hr
  · rename_i hne
    rw [if_pos hne]
    rw [Prog.pure_eq, Prog.ret_bind, hclear] at hr ⊢
    refine Or.inr ⟨fun heq => ?_, ⟨lo, hi, hjoin, (Except.ok.inj hr).symm⟩, hmem2⟩
    obtain ⟨h1, h2⟩ := hcmp.1 heq
    exact hne.elim (fun hno => hno h1) fun hno => hno h2
  · rename_i heq
    rw [if_neg heq]
    simp only [ne_eq, not_or, not_not] at heq
    simp only [Bool.not_true, Bool.false_eq_true, if_false] at hr ⊢
    rw [Prog.bind_assoc] at hr ⊢
    obtain ⟨hok, hrun3⟩ := cmpxchg8bEmulated_ok hr
    rw [hrun3] at hr ⊢
    simp only [Prog.pure_eq, Prog.ret_bind] at hr ⊢
    rw [hset] at hr ⊢
    have hload : ByteMem.load (mem (h (.readEmulated (i.cr2 + 4#_) 4) (h (.readEmulated i.cr2 4) t).2).2) i.cr2 8 =
        join64 hi lo := by
      rw [hmem2, hjoin]
    have hstore := hc.cmpxchg8bEmulated _ _ _ _ _ _ hok hload
    rw [hmem2] at hstore
    exact Or.inl ⟨hcmp.2 heq, (Except.ok.inj hr).symm, hstore⟩

/-- The register that the high half is compared with. -/
def cmpxchg8bHigh (regs : RegIndex → ULong arch) : ULong arch :=
  if arch = .i386 then regs vcpuRegsRdi else regs vcpuRegsRdx

theorem cmpxchg8b_run (hc : Conforms h mem) (hptr : x.dst.ptr = .imm)
    (hr : ((cmpxchg8b true i x >>= writeback).run h t).result = .ok y) :
    (ByteMem.load (mem t) i.cr2 8 = join64 (cmpxchg8bHigh x.regs) (x.regs vcpuRegsRax) ∧ y = x.setZf ∧
      mem ((cmpxchg8b true i x >>= writeback).run h t).state = ByteMem.store (mem t) i.cr2 8 (ecxEbx x.regs)) ∨
    (ByteMem.load (mem t) i.cr2 8 ≠ join64 (cmpxchg8bHigh x.regs) (x.regs vcpuRegsRax) ∧
      (∃ lo hi, join64 hi lo = ByteMem.load (mem t) i.cr2 8 ∧
        y = ((x.setReg vcpuRegsRax lo).setReg vcpuRegsRdx hi).clearZf) ∧
      mem ((cmpxchg8b true i x >>= writeback).run h t).state = mem t) := by
  unfold cmpxchg8b at hr ⊢
  unfold cmpxchg8bHigh
  by_cases harch : arch = .i386
  · simp only [if_pos harch] at hr ⊢
    exact cmpxchg8bI386_run (by rw [harch]; rfl) hc hptr hr
  · have hw : arch.bitsPerLong = 64 := by
      cases arch with
      | i386 => exact absurd rfl harch
      | x86_64 => rfl
    simp only [if_neg harch] at hr ⊢
    exact cmpxchg8bX86_64_run hw hc hptr hr

/-- A comparison with `old` makes the instruction right exactly if it says the same as one with EDX:EAX. -/
theorem cmpxchg8bDone_iff {addr : ULong arch} {ctxt ctxt' : X86EmulateCtxt arch} {m m' : EmulMem arch} {old : BitVec 64}
    (hcase : (ByteMem.load m addr 8 = old ∧ ctxt'.regs = ctxt.regs ∧
        ctxt'.eflags = ctxt.eflags ||| BitVec.ofNat _ eflgZf ∧ m' = ByteMem.store m addr 8 (ecxEbx ctxt.regs)) ∨
      (ByteMem.load m addr 8 ≠ old ∧ edxEax ctxt'.regs = ByteMem.load m addr 8 ∧
        (∀ r, r ≠ vcpuRegsRax → r ≠ vcpuRegsRdx → ctxt'.regs r = ctxt.regs r) ∧
        ctxt'.eflags = ctxt.eflags &&& ~~~BitVec.ofNat _ eflgZf ∧ m' = m)) :
    Cmpxchg8bDone addr ctxt ctxt' m m' ↔ (ByteMem.load m addr 8 = edxEax ctxt.regs ↔ ByteMem.load m addr 8 = old) := by
  have hzf : ∀ e : ULong arch, e ||| BitVec.ofNat _ eflgZf ≠ e &&& ~~~BitVec.ofNat _ eflgZf := by
    intro e heq
    have hbit := congrArg (fun v => BitVec.hasBit v 6) heq
    have hone : (BitVec.ofNat arch.bitsPerLong eflgZf).hasBit 6 = true := by cases arch <;> rfl
    simp [hone] at hbit
  constructor
  · intro hdone
    rcases hcase with ⟨hold, -, hset, -⟩ | ⟨hold, -, -, hclear, -⟩
    · refine iff_of_true (by_contra fun hne => ?_) hold
      exact hzf _ (hset.symm.trans (hdone.different hne).2.2.1)
    · refine iff_of_false (fun heq => ?_) hold
      exact hzf _ ((hdone.equal heq).2.1.symm.trans hclear)
  · intro hiff
    rcases hcase with ⟨hold, hrest⟩ | ⟨hold, hrest⟩
    · exact ⟨fun _ => hrest, fun hne => absurd (hiff.2 hold) hne⟩
    · exact ⟨fun heq => absurd (hiff.1 heq) hold, fun _ => hrest⟩

theorem cmpxchg8bWhen_iff {addr : ULong arch} {ctxt : X86EmulateCtxt arch} {m : EmulMem arch} :
    Cmpxchg8bWhen addr ctxt m ↔ (ByteMem.load m addr 8 = edxEax ctxt.regs ↔
      ByteMem.load m addr 8 = join64 (cmpxchg8bHigh ctxt.regs) (ctxt.regs vcpuRegsRax)) := by
  unfold Cmpxchg8bWhen cmpxchg8bHigh edxEax
  by_cases harch : arch = .i386
  · have hw : arch.bitsPerLong = 32 := by rw [harch]; rfl
    have hword : ∀ (a v : ULong arch), ByteMem.load m a 4 = v.setWidth 64 ↔ (ByteMem.load m a 4).setWidth _ = v := by
      intro a v
      constructor
      · intro heq
        rw [heq]
        apply BitVec.eq_of_hasBit
        intro i hi
        simp [hi, show i < 64 by omega]
      · intro heq
        rw [← heq]
        apply BitVec.eq_of_hasBit
        intro i hi
        rw [BitVec.hasBit_setWidth, BitVec.hasBit_setWidth, ByteMem.hasBit_load]
        by_cases h32 : i < 32
        · simp [h32, hw, hi]
        · simp [h32]
    rw [if_pos harch, ← join64_load hw, join64_inj hw, join64_inj hw, hword, hword, hword]
    simp only [harch, forall_const]
    exact and_congr_right_iff.symm
  · rw [if_neg harch]
    exact iff_of_true (fun hno => absurd hno harch) Iff.rfl

/-- **cmpxchg8b**: the emulation does what the instruction does, on an i386 host exactly if the comparison with EDI says
the same as one with EDX. -/
theorem emulate_cmpxchg8b (hc : Conforms h mem) (cpu : HostCpu arch) (ctxt : X86EmulateCtxt arch) (s : σ)
    (hi : ((decode ctxt).run h s).result = .ok i) (ht : i.twobyte = true) (hb : i.b = 0xc7)
    (hx : ((emulate cpu true ctxt).run h s).result = .ok x) :
    Cmpxchg8bDone i.cr2 ctxt (x86EmulateMemop h cpu true ctxt s).2.1 (mem s) (mem (x86EmulateMemop h cpu true ctxt s).2.2) ↔
      Cmpxchg8bWhen i.cr2 ctxt (mem s) := by
  have hmem := hc.decode hi
  obtain ⟨hres, hcall⟩ := x86EmulateMemop_ok hi hx
  have hexec : executeAndWriteback cpu true ctxt i = cmpxchg8b true i (specialExec ctxt i) >>= writeback := by
    unfold executeAndWriteback
    rw [execute_cmpxchg8b cpu true ctxt ht hb]
  rw [hcall]
  rw [hexec] at hres ⊢
  have hsplit := cmpxchg8b_run hc (x := specialExec ctxt i) rfl hres
  rw [hmem] at hsplit
  rw [cmpxchg8bWhen_iff]
  apply cmpxchg8bDone_iff
  rcases hsplit with ⟨hold, rfl, hstore⟩ | ⟨hold, ⟨lo, hi, hjoin, rfl⟩, hkept⟩
  · exact Or.inl ⟨hold, rfl, rfl, hstore⟩
  · refine Or.inr ⟨hold, hjoin, fun r hrax hrdx => ?_, rfl, hkept⟩
    exact (Function.update_of_ne hrdx _ _).trans (Function.update_of_ne hrax _ _)

end

/-- `cmpxchg8b (%esi)` at address 0; the rest of the memory is 0. -/
def cmpxchg8bMem : EmulMem .i386 := fun a => if a = 0 then 0x0f else if a = 1 then 0xc7 else if a = 2 then 0x0e else 0

def cmpxchg8bCtxt (edi : BitVec 32) : X86EmulateCtxt .i386 where
  regs r := if r = vcpuRegsRdi then edi else if r = vcpuRegsRsi then 0x100 else if r = vcpuRegsRbx then 7 else 0
  rip := 0
  eflags := 2
  cr2 := 0
  mode := .prot32
  csBase := 0
  dsBase := 0
  esBase := 0
  ssBase := 0
  gsBase := 0
  fsBase := 0

def cmpxchg8bInsn : Insn .i386 where
  b := 0xc7
  twobyte := true
  mode := .prot32
  opBytes := 4
  adBytes := 4
  overrideBase := none
  lockPrefix := false
  repPrefix := false
  rexPrefix := 0
  modrmReg := 1
  modrmVal := 0
  cr2 := 0x100
  eip := 3

theorem cmpxchg8b_decoded_zero :
    ((decode (cmpxchg8bCtxt 0)).run (flatOps .i386) cmpxchg8bMem).result = .ok cmpxchg8bInsn := rfl

theorem cmpxchg8b_decoded_one :
    ((decode (cmpxchg8bCtxt 1)).run (flatOps .i386) cmpxchg8bMem).result = .ok cmpxchg8bInsn := rfl

theorem emulate_cmpxchg8b_small : Cmpxchg8bDone cmpxchg8bInsn.cr2 (cmpxchg8bCtxt 0)
    (x86EmulateMemop (flatOps .i386) (idleHost .i386) true (cmpxchg8bCtxt 0) cmpxchg8bMem).2.1 cmpxchg8bMem
    (x86EmulateMemop (flatOps .i386) (idleHost .i386) true (cmpxchg8bCtxt 0) cmpxchg8bMem).2.2 :=
  (emulate_cmpxchg8b (flatOps_conforms .i386) _ _ _ cmpxchg8b_decoded_zero rfl rfl rfl).2 fun _ _ => Iff.rfl

/-- EDX:EAX is the value in memory, and EDI is not its high half. -/
theorem cmpxchg8b_compares_edi : ¬∀ (arch : Arch) (h : (c : OpCall arch) → EmulMem arch → OpReply arch c × EmulMem arch)
    (cpu : HostCpu arch) (ctxt : X86EmulateCtxt arch) (m : EmulMem arch) (i : Insn arch) (x : Exec arch),
    Conforms h (fun m => m) → ((decode ctxt).run h m).result = .ok i → i.twobyte = true → i.b = 0xc7 →
      ((emulate cpu true ctxt).run h m).result = .ok x →
        Cmpxchg8bDone i.cr2 ctxt (x86EmulateMemop h cpu true ctxt m).2.1 m (x86EmulateMemop h cpu true ctxt m).2.2 := by
  intro hall
  have hdone := hall .i386 (flatOps .i386) (idleHost .i386) (cmpxchg8bCtxt 1) cmpxchg8bMem cmpxchg8bInsn _
    (flatOps_conforms .i386) cmpxchg8b_decoded_one rfl rfl rfl
  have hflags := (hdone.equal (by decide)).2.1
  exact absurd hflags (by decide)

end LearnKvm
