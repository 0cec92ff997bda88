import LearnKvm.Emulate.Exchange
import LearnKvm.Emulate.Head

/-!
# Moves from and to control registers (`x86_emulate.c`)

In the ModRM byte of `0F 20` and `0F 22` the field reg names the control register and rm the general register.  The
emulator takes them the other way round, and hands only the low half of a 64-bit register to `realmode_set_cr`.  A move
is right exactly if the two fields are equal, and a move to a control register only with a 32-bit value
(`movCr_iff`).  Two mistakes of the same kind cancel out: what is read into a register is written back to where it came
from.
-/

namespace LearnKvm

open Calls

variable {arch : Arch} {σ : Type} {h : (c : OpCall arch) → σ → OpReply arch c × σ} {cpu : HostCpu arch}
  {hasCmpxchg8b : Bool} {ctxt : X86EmulateCtxt arch} {modrm : BitVec 8} {s : σ} {x : Exec arch}

/-- The control register that a ModRM byte names. -/
def crNumber (modrm : BitVec 8) : BitVec 8 := (modrm >>> 3) &&& 7

/-- The general register that a ModRM byte names. -/
def crOperand (modrm : BitVec 8) : RegIndex := (modrm &&& 7).setWidth 4

/-- The two fields of a ModRM byte are equal. -/
def SameFields (modrm : BitVec 8) : Prop := crNumber modrm = modrm &&& 7

/-- At RIP lies an instruction that the decoder takes, with a ModRM byte for two registers: the callbacks deliver its bytes
and end in the second state. -/
structure MovCrAt (h : (c : OpCall arch) → σ → OpReply arch c × σ) (opcode modrm : BitVec 8) (ctxt : X86EmulateCtxt arch)
    (e : Encoding) (s t : σ) : Prop where
  mode : HostMode arch ctxt.mode
  valid : e.Valid ctxt.mode
  short : e.legacy.length < 8
  twobyte : e.twobyte = true
  opcode : e.opcode = opcode
  mod : modField modrm = 3
  fetches : FetchesTo h (ctxt.rip + ctxt.csBase) (e.bytes ++ [modrm]) s t

/-- The move commits: the general register gets the value that was read from the control register, and nothing else
changes. -/
def MovFromCrDone (modrm : BitVec 8) (o : Calls.Outcome (OpReply arch) (Exit arch) σ (Exec arch))
    (regs : RegIndex → ULong arch) : Prop :=
  ∃ x v, o.result = .ok x ∧ ⟨.realmodeGetCr (crNumber modrm), v⟩ ∈ o.trace ∧
    x.regs = Function.update regs (crOperand modrm) v

/-- The move commits: the value of the general register is written to the control register. -/
def MovToCrDone (modrm : BitVec 8) (o : Calls.Outcome (OpReply arch) (Exit arch) σ (Exec arch))
    (regs : RegIndex → ULong arch) : Prop :=
  ∃ x rflags r, o.result = .ok x ∧ ⟨.realmodeSetCr (crNumber modrm) (regs (crOperand modrm)) rflags, r⟩ ∈ o.trace

/-! ### What the emulator does -/

theorem movCr_special (opcode : BitVec 8) (ho : opcode = 0x20 ∨ opcode = 0x22) :
    twobyteTable.getD opcode.toNat 0 = implicitOps := by
  rcases ho with rfl | rfl <;> rfl

section

variable {opcode : BitVec 8} {e : Encoding} {t : σ}

theorem crModrm_returns {eip : ULong arch} (hmod : modField modrm = 3)
    (hb : FetchesTo h (eip + ctxt.csBase) [modrm] s t) : Returns h (crModrm ctxt eip) s (modrm, eip + 1#_) t := by
  have hc0 : ∀ b : BitVec 8, modField b = 3 → b &&& 0xc0 = 0xc0 := by decide +kernel
  apply (fetchByte_returns hb).bind
  dsimp only
  rw [if_neg (not_not_intro (hc0 modrm hmod))]
  exact Returns.ret _ _

/-- The instruction behind its opcode. -/
theorem movCr_run (cpu : HostCpu arch) (hasCmpxchg8b : Bool) (ho : opcode = 0x20 ∨ opcode = 0x22)
    (hat : MovCrAt h opcode modrm ctxt e s t) :
    ∃ (i : Insn arch) (u : σ), i.b = opcode ∧ FetchesTo h (i.eip + ctxt.csBase) [modrm] u t ∧
      SameRun ((emulate cpu hasCmpxchg8b ctxt).run h s)
        ((twobyteSpecialInsn hasCmpxchg8b ctxt i >>= writeback).run h u) := by
  have htable := movCr_special opcode ho
  obtain ⟨u, hbytes, hmodrm⟩ := FetchesTo.append hat.fetches
  have hd : e.d = implicitOps := by
    unfold Encoding.d
    rw [hat.twobyte, hat.opcode]
    exact htable
  obtain ⟨i, hi, hib, hit, heip⟩ : ∃ i : Insn arch, e.decodeRest ctxt = .ret i ∧ i.b = opcode ∧ i.twobyte = true ∧
      i.eip = ctxt.rip + BitVec.ofNat _ e.bytes.length := by
    unfold Encoding.decodeRest decodeOperands
    rw [hat.twobyte, hat.opcode, if_neg (by rw [hd]; decide)]
    dsimp only
    rw [Insn.d_twobyte rfl]
    dsimp only
    rw [htable, if_neg (by decide)]
    exact ⟨_, rfl, rfl, rfl, rfl⟩
  have hexec : executeAndWriteback cpu hasCmpxchg8b ctxt i =
      twobyteSpecialInsn hasCmpxchg8b ctxt i >>= writeback := by
    have hid : i.d = implicitOps := by
      rw [Insn.d_twobyte hit, hib]
      exact htable
    unfold executeAndWriteback execute
    rw [hid, if_pos (by decide), if_pos hit]
  have hdec := decode_head hat.mode hat.valid hat.short hbytes
  rw [hi] at hdec
  refine ⟨i, u, hib, hmodrm.cast ?_ rfl, ?_⟩
  · rw [heip, ByteMem.add_ofNat_comm]
  · rw [emulate_eq, ← hexec]
    exact hdec.bind _

/-- A service is called, and nothing is written back. -/
theorem service_run (c : OpCall arch) (y : OpReply arch c → Exec arch) (hy : ∀ r, (y r).dst.ptr = .imm) (u : σ) :
    (Prog.call c fun r => writeback (y r)).run h u = ⟨.ok (y (h c u).1), (h c u).2, [⟨c, (h c u).1⟩]⟩ := by
  rw [Prog.run_call, writeback_imm (hy _)]
  rfl

/-- A move from a control register. -/
theorem movFromCr_run (cpu : HostCpu arch) (hasCmpxchg8b : Bool) (hat : MovCrAt h 0x20 modrm ctxt e s t) :
    ∃ x v, ((emulate cpu hasCmpxchg8b ctxt).run h s).result = .ok x ∧
      accesses ((emulate cpu hasCmpxchg8b ctxt).run h s).trace = [⟨.realmodeGetCr (modrm &&& 7), v⟩] ∧
      x.regs = Function.update ctxt.regs (crReg modrm) v := by
  obtain ⟨i, u, hb, hmodrm, hsame⟩ := movCr_run cpu hasCmpxchg8b (Or.inl rfl) hat
  have hinsn : twobyteSpecialInsn hasCmpxchg8b ctxt i = movFromCr ctxt (specialExec ctxt i) := if_pos hb
  have hret : Returns h (crModrm ctxt (specialExec ctxt i).eip) u (modrm, (specialExec ctxt i).eip + 1#_) t :=
    crModrm_returns hat.mod hmodrm
  have hgo := hret.same fun r =>
    (Emul.realmodeGetCr (r.1 &&& 7) >>= fun val =>
      .ret { (specialExec ctxt i).setReg (crReg r.1) val with eip := r.2 } : Emul arch (Exec arch)) >>= writeback
  have hrun := service_run (h := h) (.realmodeGetCr (modrm &&& 7))
    (fun v => { (specialExec ctxt i).setReg (crReg modrm) v with eip := (specialExec ctxt i).eip + 1#_ })
    (fun _ => rfl) t
  rw [hinsn] at hsame
  unfold movFromCr at hsame
  rw [Prog.bind_assoc] at hsame
  have hall := hsame.trans hgo
  refine ⟨_, _, hall.result.trans (congrArg Calls.Outcome.result hrun),
    hall.accesses.trans (congrArg (fun o => accesses o.trace) hrun), rfl⟩

/-- A move to a control register. -/
theorem movToCr_run (cpu : HostCpu arch) (hasCmpxchg8b : Bool) (hat : MovCrAt h 0x22 modrm ctxt e s t) :
    ∃ x rflags r, ((emulate cpu hasCmpxchg8b ctxt).run h s).result = .ok x ∧
      accesses ((emulate cpu hasCmpxchg8b ctxt).run h s).trace =
        [⟨.realmodeSetCr (modrm &&& 7) (lowBytes 4 (ctxt.regs (crReg modrm))) rflags, r⟩] := by
  obtain ⟨i, u, hb, hmodrm, hsame⟩ := movCr_run cpu hasCmpxchg8b (Or.inr rfl) hat
  have hinsn : twobyteSpecialInsn hasCmpxchg8b ctxt i = movToCr ctxt (specialExec ctxt i) := by
    unfold twobyteSpecialInsn
    dsimp only
    rw [hb, if_neg (by decide), if_pos rfl]
  have hret : Returns h (crModrm ctxt (specialExec ctxt i).eip) u (modrm, (specialExec ctxt i).eip + 1#_) t :=
    crModrm_returns hat.mod hmodrm
  have hgo := hret.same fun r =>
    (Emul.realmodeSetCr (r.1 &&& 7) (lowBytes 4 ((specialExec ctxt i).regs (crReg r.1))) (specialExec ctxt i).eflags >>=
      fun eflags => .ret { specialExec ctxt i with eip := r.2, eflags := eflags } : Emul arch (Exec arch)) >>= writeback
  have hrun := service_run (h := h) (.realmodeSetCr (modrm &&& 7) (lowBytes 4 (ctxt.regs (crReg modrm))) ctxt.eflags)
    (fun eflags => { specialExec ctxt i with eip := (specialExec ctxt i).eip + 1#_, eflags := eflags })
    (fun _ => rfl) t
  rw [hinsn] at hsame
  unfold movToCr at hsame
  rw [Prog.bind_assoc] at hsame
  have hall := hsame.trans hgo
  exact ⟨_, _, _, hall.result.trans (congrArg Calls.Outcome.result hrun),
    hall.accesses.trans (congrArg (fun o => accesses o.trace) hrun)⟩

end

/-! ### When it is right -/

/-- An access of a run is not a fetch. -/
theorem mem_accesses_iff {t : List (Event (OpReply arch))} {e : Event (OpReply arch)} (he : e.1.isFetch = false) :
    e ∈ accesses t ↔ e ∈ t := by
  unfold accesses
  rw [List.mem_filter, he]
  simp

theorem crReg_eq_crOperand (hsame : SameFields modrm) : crReg modrm = crOperand modrm := by
  unfold SameFields crNumber at hsame
  unfold crReg crOperand
  rw [hsame]

section

variable {e : Encoding} {t : σ}

theorem movFromCrDone_iff (cpu : HostCpu arch) (hasCmpxchg8b : Bool) (hat : MovCrAt h 0x20 modrm ctxt e s t) :
    MovFromCrDone modrm ((emulate cpu hasCmpxchg8b ctxt).run h s) ctxt.regs ↔ SameFields modrm := by
  obtain ⟨x, v, hx, htrace, hregs⟩ := movFromCr_run cpu hasCmpxchg8b hat
  constructor
  · rintro ⟨y, w, -, hw, -⟩
    rw [← mem_accesses_iff rfl, htrace, List.mem_singleton] at hw
    exact OpCall.realmodeGetCr.inj (congrArg Sigma.fst hw)
  · intro hsame
    refine ⟨x, v, hx, ?_, ?_⟩
    · rw [← mem_accesses_iff rfl, htrace, hsame]
      exact List.mem_singleton_self _
    · rw [hregs, crReg_eq_crOperand hsame]

theorem lowBytes_four_iff (v : ULong arch) : lowBytes 4 v = v ↔ v.toNat < 2 ^ 32 := by
  rw [← BitVec.toNat_inj, lowBytes_toNat]
  constructor
  · intro heq
    rw [← heq]
    exact Nat.mod_lt _ (by decide)
  · exact Nat.mod_eq_of_lt

theorem movToCrDone_iff (cpu : HostCpu arch) (hasCmpxchg8b : Bool) (hat : MovCrAt h 0x22 modrm ctxt e s t) :
    MovToCrDone modrm ((emulate cpu hasCmpxchg8b ctxt).run h s) ctxt.regs ↔
      SameFields modrm ∧ (ctxt.regs (crOperand modrm)).toNat < 2 ^ 32 := by
  obtain ⟨x, rflags, r, hx, htrace⟩ := movToCr_run cpu hasCmpxchg8b hat
  rw [← lowBytes_four_iff]
  constructor
  · rintro ⟨y, rflags', r', -, hw⟩
    rw [← mem_accesses_iff rfl, htrace, List.mem_singleton] at hw
    obtain ⟨hcr, hval, -⟩ := OpCall.realmodeSetCr.inj (congrArg Sigma.fst hw)
    have hsame : SameFields modrm := hcr
    rw [crReg_eq_crOperand hsame] at hval
    exact ⟨hsame, hval.symm⟩
  · rintro ⟨hsame, hval⟩
    refine ⟨x, rflags, r, hx, ?_⟩
    rw [← mem_accesses_iff rfl, htrace, crReg_eq_crOperand hsame, hval, hsame]
    exact List.mem_singleton_self _

/-- What a move has read from a control register is written back to it by the opposite move. -/
theorem movCr_back_iff (cpu : HostCpu arch) (hasCmpxchg8b : Bool) (hat : MovCrAt h 0x20 modrm ctxt e s t)
    {ctxt' : X86EmulateCtxt arch} {e' : Encoding} {s' t' : σ} (hat' : MovCrAt h 0x22 modrm ctxt' e' s' t')
    (hx : ((emulate cpu hasCmpxchg8b ctxt).run h s).result = .ok x) (hregs : ctxt'.regs = x.regs) {cr : BitVec 8}
    {v : ULong arch} (hv : ⟨.realmodeGetCr cr, v⟩ ∈ ((emulate cpu hasCmpxchg8b ctxt).run h s).trace) :
    (∃ rflags r, ⟨.realmodeSetCr cr v rflags, r⟩ ∈ ((emulate cpu hasCmpxchg8b ctxt').run h s').trace) ↔
      v.toNat < 2 ^ 32 := by
  obtain ⟨y, w, hy, htrace, hupd⟩ := movFromCr_run cpu hasCmpxchg8b hat
  obtain ⟨-, rflags, r, -, htrace'⟩ := movToCr_run cpu hasCmpxchg8b hat'
  obtain rfl : y = x := Except.ok.inj (hy.symm.trans hx)
  rw [← mem_accesses_iff rfl, htrace, List.mem_singleton] at hv
  cases hv
  have hval : ctxt'.regs (crReg modrm) = v := by
    rw [hregs, hupd, Function.update_self]
  rw [hval] at htrace'
  rw [← lowBytes_four_iff]
  constructor
  · rintro ⟨rflags', r', hw⟩
    rw [← mem_accesses_iff rfl, htrace', List.mem_singleton] at hw
    exact (OpCall.realmodeSetCr.inj (congrArg Sigma.fst hw)).2.1.symm
  · intro hlow
    refine ⟨rflags, r, ?_⟩
    rw [← mem_accesses_iff rfl, htrace', hlow]
    exact List.mem_singleton_self _

end

/-- **Moves from and to control registers**: they are right exactly if the fields of the ModRM byte are equal, and in the
second direction the value has 32 bits.  What is read is written back exactly if it has 32 bits. -/
theorem movCr_iff (h : (c : OpCall arch) → σ → OpReply arch c × σ) (cpu : HostCpu arch) (hasCmpxchg8b : Bool)
    (modrm : BitVec 8) :
    (∀ ctxt e s t, MovCrAt h 0x20 modrm ctxt e s t →
      (MovFromCrDone modrm ((emulate cpu hasCmpxchg8b ctxt).run h s) ctxt.regs ↔ SameFields modrm)) ∧
    (∀ ctxt e s t, MovCrAt h 0x22 modrm ctxt e s t →
      (MovToCrDone modrm ((emulate cpu hasCmpxchg8b ctxt).run h s) ctxt.regs ↔
        SameFields modrm ∧ (ctxt.regs (crOperand modrm)).toNat < 2 ^ 32)) ∧
    (∀ ctxt e s t ctxt' e' s' t' x cr v, MovCrAt h 0x20 modrm ctxt e s t → MovCrAt h 0x22 modrm ctxt' e' s' t' →
      ((emulate cpu hasCmpxchg8b ctxt).run h s).result = .ok x → ctxt'.regs = x.regs →
        ⟨.realmodeGetCr cr, v⟩ ∈ ((emulate cpu hasCmpxchg8b ctxt).run h s).trace →
          ((∃ rflags r, ⟨.realmodeSetCr cr v rflags, r⟩ ∈ ((emulate cpu hasCmpxchg8b ctxt').run h s').trace) ↔
            v.toNat < 2 ^ 32)) := by
  refine ⟨fun ctxt e s t hat => movFromCrDone_iff cpu hasCmpxchg8b hat,
    fun ctxt e s t hat => movToCrDone_iff cpu hasCmpxchg8b hat, ?_⟩
  intro ctxt e s t ctxt' e' s' t' x cr v hat hat' hx hregs hv
  exact movCr_back_iff cpu hasCmpxchg8b hat hat' hx hregs hv

/-! ### CR0 and CR1 -/

/-- `mov %cr0, reg`. -/
def movFromCr0 : Encoding := ⟨[], none, true, 0x20⟩

theorem movFromCr0_at {modrm : BitVec 8} (hm : modrm = 0xc0 ∨ modrm = 0xc1) :
    MovCrAt (flatOps .x86_64) 0x20 modrm (flatCtxt .x86_64 .prot32) movFromCr0
      (codeAtZero .x86_64 [0x0f, 0x20, modrm]) (codeAtZero .x86_64 [0x0f, 0x20, modrm]) where
  mode := by intro hmode; cases hmode
  valid := ⟨by simp [movFromCr0], by simp [movFromCr0], by decide, by decide, by decide⟩
  short := by decide
  twobyte := rfl
  opcode := rfl
  mod := by rcases hm with rfl | rfl <;> rfl
  fetches := by
    rcases hm with rfl | rfl
    · exact .cons rfl (by decide) (.cons rfl (by decide) (.cons rfl (by decide) (.nil _ _)))
    · exact .cons rfl (by decide) (.cons rfl (by decide) (.cons rfl (by decide) (.nil _ _)))

theorem movCr_iff_small : MovFromCrDone 0xc0 ((emulate (idleHost .x86_64) true (flatCtxt .x86_64 .prot32)).run
    (flatOps .x86_64) (codeAtZero .x86_64 [0x0f, 0x20, 0xc0])) (flatCtxt .x86_64 .prot32).regs :=
  ((movCr_iff (flatOps .x86_64) (idleHost .x86_64) true 0xc0).1 _ _ _ _ (movFromCr0_at (Or.inl rfl))).2 rfl

/-- `mov %cr0, %ecx` reads CR1. -/
theorem movCr_swapped : ¬∀ (arch : Arch) (h : (c : OpCall arch) → EmulMem arch → OpReply arch c × EmulMem arch)
    (cpu : HostCpu arch) (modrm : BitVec 8) (ctxt : X86EmulateCtxt arch) (e : Encoding) (m m' : EmulMem arch),
    MovCrAt h 0x20 modrm ctxt e m m' →
      MovFromCrDone modrm ((emulate cpu true ctxt).run h m) ctxt.regs := by
  intro hall
  have hdone := hall .x86_64 (flatOps .x86_64) (idleHost .x86_64) 0xc1 _ _ _ _ (movFromCr0_at (Or.inr rfl))
  rw [movFromCrDone_iff (idleHost .x86_64) true (movFromCr0_at (Or.inr rfl))] at hdone
  exact absurd hdone (by unfold SameFields; decide)

end LearnKvm
