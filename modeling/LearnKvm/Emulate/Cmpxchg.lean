import LearnKvm.Emulate.Exchange
import LearnKvm.Emulate.Decoded
import LearnKvm.Emulate.RegisterWrites

/-!
# cmpxchg and xchg in the emulator (`x86_emulate.c`)

Both read a memory operand and a register operand.  cmpxchg takes its flags from a host comparison whose operands are
exchanged, and xchg makes no store where nothing changes (`emulate_exchange`).
-/

namespace LearnKvm

open Calls

variable {arch : Arch} {σ : Type} {h : (c : OpCall arch) → σ → OpReply arch c × σ}

/-! ### The flags of a comparison -/

def flagIf (cond : Bool) (flag : Nat) : ULong arch := if cond then BitVec.ofNat _ flag else 0#_

/-- An even number of bits is set in the low byte. -/
def evenParity (x : ULong arch) : Bool := ((List.range 8).countP x.hasBit) % 2 == 0

/-- CF, PF, AF, ZF, SF and OF of `a - b`. -/
def subFlags (bytes : Nat) (a b : ULong arch) : ULong arch :=
  let a := lowBytes bytes a
  let b := lowBytes bytes b
  let r := lowBytes bytes (a - b)
  let sign := fun x : ULong arch => x.hasBit (8 * bytes - 1)
  flagIf (decide (a < b)) eflgCf ||| flagIf (evenParity r) eflgPf ||| flagIf (decide (a &&& 15#_ < b &&& 15#_)) eflgAf |||
    flagIf (decide (a = b)) eflgZf ||| flagIf (sign r) eflgSf ||| flagIf (sign a != sign b && sign r != sign a) eflgOf

/-- The host's cmp sets the flags of destination minus source. -/
def DocumentedCmp (cpu : HostCpu arch) : Prop := ∀ bytes src dst eflags, OperandSize bytes → 8 * bytes ≤ arch.bitsPerLong →
  (cpu.op2 .cmp bytes src dst eflags).2 &&& BitVec.ofNat _ eflagsMask = subFlags bytes dst src

theorem ofNat_flag (arch : Arch) (k : Nat) : BitVec.ofNat arch.bitsPerLong (1 <<< k) = 1#_ <<< k := by
  have hone : 1 % 2 ^ arch.bitsPerLong = 1 := by cases arch <;> rfl
  apply BitVec.eq_of_toNat_eq
  rw [BitVec.toNat_shiftLeft, BitVec.toNat_ofNat, BitVec.toNat_ofNat, hone]

theorem hasBit_flagIf (cond : Bool) {k : Nat} (hk : k < 32) (j : Nat) :
    (flagIf cond (1 <<< k) : ULong arch).hasBit j = (cond && decide (j = k)) := by
  have hw : k < arch.bitsPerLong := by
    cases arch with
    | i386 => exact hk
    | x86_64 => exact hk.trans (by decide)
  unfold flagIf
  cases cond with
  | true => rw [if_pos rfl, ofNat_flag, Bits.hasBit_one_shiftLeft hw, Bool.true_and]
  | false => simp

section

variable {bytes : Nat} {a b : ULong arch}

theorem subFlags_cf : (subFlags bytes a b).hasBit 0 = decide (lowBytes bytes a < lowBytes bytes b) := by
  unfold subFlags
  simp only [BitVec.hasBit_or]
  unfold eflgCf eflgPf eflgAf eflgZf eflgSf eflgOf
  rw [hasBit_flagIf _ (by decide), hasBit_flagIf _ (by decide), hasBit_flagIf _ (by decide), hasBit_flagIf _ (by decide),
    hasBit_flagIf _ (by decide), hasBit_flagIf _ (by decide)]
  simp

theorem subFlags_zf : (subFlags bytes a b).hasBit 6 = decide (lowBytes bytes a = lowBytes bytes b) := by
  unfold subFlags
  simp only [BitVec.hasBit_or]
  unfold eflgCf eflgPf eflgAf eflgZf eflgSf eflgOf
  rw [hasBit_flagIf _ (by decide), hasBit_flagIf _ (by decide), hasBit_flagIf _ (by decide), hasBit_flagIf _ (by decide),
    hasBit_flagIf _ (by decide), hasBit_flagIf _ (by decide)]
  simp

/-- The flags say which operand is less, so exchanging operands that differ changes them. -/
theorem subFlags_comm_iff : subFlags bytes a b = subFlags bytes b a ↔ lowBytes bytes a = lowBytes bytes b := by
  constructor
  · intro heq
    have hcf := congrArg (fun v => BitVec.hasBit v 0) heq
    simp only [subFlags_cf, decide_eq_decide] at hcf
    apply BitVec.eq_of_toNat_eq
    rw [BitVec.lt_def, BitVec.lt_def] at hcf
    omega
  · intro heq
    unfold subFlags
    rw [heq]

end

theorem subFlags_low (bytes : Nat) (a b : ULong arch) : subFlags bytes a (lowBytes bytes b) = subFlags bytes a b := by
  have hlow : lowBytes bytes (lowBytes bytes b) = lowBytes bytes b := by
    apply BitVec.eq_of_hasBit
    intro j hj
    simp
  unfold subFlags
  rw [hlow]

section

variable {cpu : HostCpu arch} {bytes : Nat}

/-- The flags after the host's cmp. -/
theorem DocumentedCmp.merge (hcpu : DocumentedCmp cpu) (hsize : OperandSize bytes ∧ 8 * bytes ≤ arch.bitsPerLong)
    (src dst before eflags : ULong arch) :
    mergeEflags eflags (cpu.op2 .cmp bytes src dst before).2 = mergeEflags eflags (subFlags bytes dst src) := by
  have hcmp := hcpu bytes src dst before hsize.1 hsize.2
  unfold mergeEflags
  rw [← hcmp, BitVec.and_assoc, BitVec.and_self]

theorem DocumentedCmp.zf (hcpu : DocumentedCmp cpu) (hsize : OperandSize bytes ∧ 8 * bytes ≤ arch.bitsPerLong)
    (src dst before eflags : ULong arch) :
    (mergeEflags eflags (cpu.op2 .cmp bytes src dst before).2 &&& BitVec.ofNat _ eflgZf != 0#_) =
      decide (lowBytes bytes dst = lowBytes bytes src) := by
  have hlong : 6 < arch.bitsPerLong := by cases arch <;> decide
  have hmask : (BitVec.ofNat arch.bitsPerLong eflagsMask).hasBit 6 = true := by cases arch <;> rfl
  unfold eflgZf
  rw [ofNat_flag, Bits.and_one_shiftLeft_bne_zero hlong, hcpu.merge hsize]
  unfold mergeEflags
  simp [hlong, hmask, subFlags_zf]

end

/-! ### A memory operand that is read and a register operand -/

/-- The shadow state of an instruction that has read `v`. -/
def readModifyExec (ctxt : X86EmulateCtxt arch) (i : Insn arch) (v : ULong arch) : Exec arch where
  regs := ctxt.regs
  eip := i.eip
  eflags := ctxt.eflags
  dst := ⟨.mem i.cr2, i.operandBytes, v, v⟩
  src := modrmRegOperand ctxt.regs i i.isByteOp
  mov := i.isMov
  lockPrefix := i.lockPrefix

theorem execute_readModify (cpu : HostCpu arch) (hasCmpxchg8b : Bool) (ctxt : X86EmulateCtxt arch) {i : Insn arch}
    (hdst : i.d &&& dstMask = dstMem) (hsrc : i.d &&& srcMask = srcReg) (hmov : i.isMov = false) :
    execute cpu hasCmpxchg8b ctxt i = Emul.readEmulated i.cr2 i.operandBytes >>= fun v =>
      if i.twobyte then twobyteInsn cpu i (readModifyExec ctxt i v)
      else onebyteInsn cpu ctxt i (readModifyExec ctxt i v) := by
  have himp : ¬ i.d &&& dstMask = implicitOps := by
    rw [hdst]
    decide
  have hreg : ¬ i.d &&& dstMask = dstReg := by
    rw [hdst]
    decide
  unfold execute fetchDst fetchSrc
  rw [if_neg himp, if_neg hreg, if_neg (by simp [hmov]), if_pos hsrc, Prog.bind_assoc]
  rfl

theorem Insn.operandSize {ctxt : X86EmulateCtxt arch} {i : Insn arch} (hd : i.Decoded ctxt) :
    OperandSize i.operandBytes ∧ 8 * i.operandBytes ≤ arch.bitsPerLong := by
  have hlong : 32 ≤ arch.bitsPerLong := by cases arch <;> decide
  unfold Insn.operandBytes OperandSize
  split
  · exact ⟨Or.inl rfl, by omega⟩
  · rcases hd.sizes.op with h2 | h4 | ⟨h8, hmode⟩
    · rw [h2]
      exact ⟨by decide, by omega⟩
    · rw [h4]
      exact ⟨by decide, by omega⟩
    · rw [h8]
      have harch := hd.host hmode
      subst harch
      exact ⟨by decide, by decide⟩

/-- The register operand of ModRM.reg. -/
def Insn.regOperand (i : Insn arch) : RegPtr := registerOperand i.modrmReg i.isByteOp (i.rexPrefix != 0)

theorem modrmRegOperand_eq (regs : RegIndex → ULong arch) (i : Insn arch) :
    modrmRegOperand regs i i.isByteOp = ⟨.reg i.regOperand, i.operandBytes, operandValue regs i.regOperand i.operandBytes,
      operandValue regs i.regOperand i.operandBytes⟩ := by
  have hptr : decodeRegister i.modrmReg (i.isByteOp && i.rexPrefix == 0) = i.regOperand := by
    unfold Insn.regOperand
    rw [← decodeRegister_eq]
    simp [bne]
  have hhigh : i.regOperand.high = true → i.operandBytes = 1 := fun hh => if_pos (registerOperand_byte hh)
  have hval := readReg_eq regs hhigh
  unfold modrmRegOperand
  dsimp only
  rw [hptr]
  unfold Insn.operandBytes at hval ⊢
  rw [hval]

theorem Insn.regOperand_high {i : Insn arch} (hh : i.regOperand.high = true) : i.operandBytes = 1 :=
  if_pos (registerOperand_byte hh)

/-! ### What the instructions do -/

def Insn.IsCmpxchg (i : Insn arch) : Prop := i.twobyte = true ∧ inCase i.b 0xb0 0xb1 = true
def Insn.IsXchg (i : Insn arch) : Prop := i.twobyte = false ∧ inCase i.b 0x86 0x87 = true

/-- The value of the source register. -/
def Insn.source (i : Insn arch) (regs : RegIndex → ULong arch) : ULong arch :=
  operandValue regs i.regOperand i.operandBytes

def Insn.accumulator (i : Insn arch) (regs : RegIndex → ULong arch) : ULong arch :=
  operandValue regs ⟨vcpuRegsRax, false⟩ i.operandBytes

/-- The access that stores `new` where `old` was read: under a LOCK prefix `old` is expected. -/
def storeAccess (lock : Bool) (i : Insn arch) (old new : ULong arch) : Event (OpReply arch) :=
  if lock then ⟨.cmpxchgEmulated i.cr2 old new i.operandBytes, .ok ()⟩
  else ⟨.writeEmulated i.cr2 new i.operandBytes, .ok ()⟩

/-- What cmpxchg does where `v` is in memory: the flags are those of accumulator minus memory operand. -/
structure CmpxchgDone (ctxt ctxt' : X86EmulateCtxt arch) (i : Insn arch) (v : ULong arch)
    (stores : List (Event (OpReply arch))) : Prop where
  flags : ctxt'.eflags = mergeEflags ctxt.eflags (subFlags i.operandBytes (i.accumulator ctxt.regs) v)
  equal : i.accumulator ctxt.regs = v →
    ctxt'.regs = ctxt.regs ∧ stores = [storeAccess i.lockPrefix i v (i.source ctxt.regs)]
  different : i.accumulator ctxt.regs ≠ v →
    RegWritten i.mode ctxt.regs ctxt'.regs ⟨vcpuRegsRax, false⟩ i.operandBytes v ∧ stores = []

/-- What xchg does where `v` is in memory: its LOCK prefix is implied. -/
structure XchgDone (ctxt ctxt' : X86EmulateCtxt arch) (i : Insn arch) (v : ULong arch)
    (stores : List (Event (OpReply arch))) : Prop where
  flags : ctxt'.eflags = ctxt.eflags
  loaded : RegWritten i.mode ctxt.regs ctxt'.regs i.regOperand i.operandBytes v
  stored : stores = [storeAccess true i v (i.source ctxt.regs)]

structure ExchangeDone (ctxt ctxt' : X86EmulateCtxt arch) (i : Insn arch) (v : ULong arch)
    (stores : List (Event (OpReply arch))) : Prop where
  cmpxchg : i.IsCmpxchg → CmpxchgDone ctxt ctxt' i v stores
  xchg : i.IsXchg → XchgDone ctxt ctxt' i v stores

/-- The condition: cmpxchg finds the accumulator in memory, xchg does not find the source there. -/
structure ExchangeWhen (ctxt : X86EmulateCtxt arch) (i : Insn arch) (v : ULong arch) : Prop where
  cmpxchg : i.IsCmpxchg → i.accumulator ctxt.regs = v
  xchg : i.IsXchg → i.source ctxt.regs ≠ v

theorem cmpxchg_table (b : BitVec 8) (hb : inCase b 0xb0 0xb1 = true) :
    twobyteTable.getD b.toNat 0 &&& dstMask = dstMem ∧ twobyteTable.getD b.toNat 0 &&& srcMask = srcReg ∧
      (twobyteTable.getD b.toNat 0 &&& movFlag != 0) = false := by
  rcases inCase_pair hb rfl with rfl | rfl <;> exact ⟨rfl, rfl, rfl⟩

theorem xchg_table (b : BitVec 8) (hb : inCase b 0x86 0x87 = true) :
    opcodeTable.getD b.toNat 0 &&& dstMask = dstMem ∧ opcodeTable.getD b.toNat 0 &&& srcMask = srcReg ∧
      (opcodeTable.getD b.toNat 0 &&& movFlag != 0) = false := by
  rcases inCase_pair hb rfl with rfl | rfl <;> exact ⟨rfl, rfl, rfl⟩

theorem execute_cmpxchg (cpu : HostCpu arch) (hasCmpxchg8b : Bool) (ctxt : X86EmulateCtxt arch) {i : Insn arch}
    (hi : i.IsCmpxchg) : execute cpu hasCmpxchg8b ctxt i =
      Emul.readEmulated i.cr2 i.operandBytes >>= fun v => .ret ((readModifyExec ctxt i v).cmpxchg cpu) := by
  obtain ⟨ht, hb⟩ := hi
  have hd := Insn.d_twobyte ht
  obtain ⟨hdst, hsrc, hmov⟩ := cmpxchg_table i.b hb
  rw [← hd] at hdst hsrc hmov
  have h01 : ¬ i.b = 0x01 ∧ ¬ inCase i.b 0x40 0x4f = true := by
    rcases inCase_pair hb rfl with h | h <;> rw [h] <;> decide
  rw [execute_readModify cpu hasCmpxchg8b ctxt hdst hsrc hmov]
  apply congrArg (Emul.readEmulated i.cr2 i.operandBytes >>= ·)
  funext v
  rw [if_pos ht]
  unfold twobyteInsn
  dsimp only
  rw [if_neg h01.1, if_neg h01.2, if_pos hb]
  rfl

theorem execute_xchg (cpu : HostCpu arch) (hasCmpxchg8b : Bool) (ctxt : X86EmulateCtxt arch) {i : Insn arch}
    (hi : i.IsXchg) : execute cpu hasCmpxchg8b ctxt i =
      Emul.readEmulated i.cr2 i.operandBytes >>= fun v => .ret (readModifyExec ctxt i v).xchg := by
  obtain ⟨ht, hb⟩ := hi
  have hd := Insn.d_onebyte ht
  obtain ⟨hdst, hsrc, hmov⟩ := xchg_table i.b hb
  rw [← hd] at hdst hsrc hmov
  rw [execute_readModify cpu hasCmpxchg8b ctxt hdst hsrc hmov]
  apply congrArg (Emul.readEmulated i.cr2 i.operandBytes >>= ·)
  funext v
  rw [if_neg (by simp [ht])]
  unfold onebyteInsn
  rcases inCase_pair hb rfl with hb | hb
  · rw [hb]
    rfl
  · rw [hb]
    rfl

/-! ### Runs -/

section

variable {x y : Exec arch} {t : σ}

/-- The access of a writeback to memory. -/
def storeEvent (y : Exec arch) (addr : ULong arch) : Event (OpReply arch) :=
  if y.lockPrefix then ⟨.cmpxchgEmulated addr y.dst.origVal y.dst.val y.dst.bytes, .ok ()⟩
  else ⟨.writeEmulated addr y.dst.val y.dst.bytes, .ok ()⟩

/-- A writeback to memory is one call. -/
theorem writeback_trace {addr : ULong arch} (hptr : y.dst.ptr = .mem addr)
    (hw : (y.mov || y.dst.origVal != y.dst.val) = true) (hr : ((writeback y).run h t).result = .ok x) :
    x = y ∧ ((writeback y).run h t).trace = [storeEvent y addr] := by
  unfold storeEvent
  rw [writeback_call hptr hw] at hr ⊢
  cases hlock : y.lockPrefix with
  | true =>
    simp only [hlock, if_true] at hr ⊢
    obtain ⟨-, hrun⟩ := cmpxchgEmulated_ok hr
    rw [hrun] at hr ⊢
    exact ⟨(Except.ok.inj hr).symm, rfl⟩
  | false =>
    simp only [hlock, Bool.false_eq_true, if_false] at hr ⊢
    obtain ⟨-, hrun⟩ := writeEmulated_ok hr
    rw [hrun] at hr ⊢
    exact ⟨(Except.ok.inj hr).symm, rfl⟩

theorem writeback_mem {addr : ULong arch} (hptr : y.dst.ptr = .mem addr)
    (hw : (y.mov || y.dst.origVal != y.dst.val) = true) (hr : ((writeback y).run h t).result = .ok x) :
    x = y ∧ accesses ((writeback y).run h t).trace = [storeEvent y addr] := by
  obtain ⟨hx, htrace⟩ := writeback_trace hptr hw hr
  refine ⟨hx, ?_⟩
  rw [htrace]
  unfold storeEvent
  cases y.lockPrefix <;> rfl

theorem writeback_unchanged (hw : (y.mov || y.dst.origVal != y.dst.val) = false) : writeback y = .ret y :=
  if_neg (by rw [hw]; exact Bool.false_ne_true)

theorem writeback_reg {ptr : RegPtr} (hptr : y.dst.ptr = .reg ptr) (hw : (y.mov || y.dst.origVal != y.dst.val) = true) :
    writeback y = .ret { y with regs := writeRegister y.regs ptr y.dst.bytes y.dst.val } := by
  unfold writeback
  rw [if_pos hw, hptr]
  rfl

end

section

variable {cpu : HostCpu arch} {hasCmpxchg8b : Bool} {ctxt : X86EmulateCtxt arch} {i : Insn arch} {x : Exec arch} {t : σ}

/-- An instruction that reads its memory operand and then computes. -/
theorem readModify_run {f : ULong arch → Exec arch} (hexec : execute cpu hasCmpxchg8b ctxt i =
      Emul.readEmulated i.cr2 i.operandBytes >>= fun v => .ret (f v))
    (hx : ((executeAndWriteback cpu hasCmpxchg8b ctxt i).run h t).result = .ok x) :
    ∃ v u, (h (.readEmulated i.cr2 i.operandBytes) t).1 = .ok v ∧
      ((writeback (f v)).run h u).result = .ok x ∧
        accesses ((executeAndWriteback cpu hasCmpxchg8b ctxt i).run h t).trace =
          ⟨.readEmulated i.cr2 i.operandBytes, .ok v⟩ :: accesses ((writeback (f v)).run h u).trace := by
  unfold executeAndWriteback at hx ⊢
  rw [hexec, Prog.bind_assoc] at hx ⊢
  obtain ⟨v, hv, hrun⟩ := readEmulated_ok hx
  rw [hrun] at hx ⊢
  exact ⟨v, _, hv, hx, rfl⟩

/-- `read_emulated` zero-extends what it reads. -/
def ZeroExtends (h : (c : OpCall arch) → σ → OpReply arch c × σ) : Prop :=
  ∀ addr bytes s v, (h (.readEmulated addr bytes) s).1 = .ok v → lowBytes bytes v = v

theorem accumulator_eq (i : Insn arch) (regs : RegIndex → ULong arch) :
    i.accumulator regs = lowBytes i.operandBytes (regs vcpuRegsRax) := by
  unfold Insn.accumulator operandValue RegPtr.shift
  rw [if_neg Bool.false_ne_true, BitVec.ushiftRight_zero]

/-- After the comparison of cmpxchg. -/
def cmpxchgCompared (cpu : HostCpu arch) (ctxt : X86EmulateCtxt arch) (i : Insn arch) (v : ULong arch) : Exec arch :=
  { ((readModifyExec ctxt i v).setSrc (ctxt.regs vcpuRegsRax)).emulate2op cpu .cmp with mov := true }

theorem cmpxchg_eq (v : ULong arch) : (readModifyExec ctxt i v).cmpxchg cpu =
    if (cmpxchgCompared cpu ctxt i v).flag eflgZf
    then (cmpxchgCompared cpu ctxt i v).setDst (readModifyExec ctxt i v).src.val
    else { cmpxchgCompared cpu ctxt i v with
      dst := { (cmpxchgCompared cpu ctxt i v).dst with ptr := .reg ⟨vcpuRegsRax, false⟩ } } := rfl

/-- The flags of the host are those of the memory operand minus the accumulator. -/
theorem cmpxchgCompared_flags (hcpu : DocumentedCmp cpu) (hd : i.Decoded ctxt) (v : ULong arch) :
    (cmpxchgCompared cpu ctxt i v).eflags =
      mergeEflags ctxt.eflags (subFlags i.operandBytes v (i.accumulator ctxt.regs)) := by
  have hmerge := hcpu.merge (Insn.operandSize hd) (ctxt.regs vcpuRegsRax) v
    (ctxt.eflags &&& BitVec.ofNat _ eflagsMask) ctxt.eflags
  rw [← subFlags_low, ← accumulator_eq] at hmerge
  exact hmerge

theorem cmpxchgCompared_zf (hcpu : DocumentedCmp cpu) (hd : i.Decoded ctxt) {v : ULong arch}
    (hv : lowBytes i.operandBytes v = v) :
    (cmpxchgCompared cpu ctxt i v).flag eflgZf = decide (v = i.accumulator ctxt.regs) := by
  have hflag := hcpu.zf (Insn.operandSize hd) (ctxt.regs vcpuRegsRax) v
    (ctxt.eflags &&& BitVec.ofNat _ eflagsMask) ctxt.eflags
  rw [hv, ← accumulator_eq] at hflag
  exact hflag

/-- cmpxchg is right exactly if it finds the accumulator in memory. -/
theorem cmpxchg_iff (hcpu : DocumentedCmp cpu) (hd : i.Decoded ctxt) {v : ULong arch}
    (hv : lowBytes i.operandBytes v = v)
    (hx : ((writeback ((readModifyExec ctxt i v).cmpxchg cpu)).run h t).result = .ok x) :
    CmpxchgDone ctxt { ctxt with regs := x.regs, rip := x.eip, eflags := x.eflags } i v
      (accesses ((writeback ((readModifyExec ctxt i v).cmpxchg cpu)).run h t).trace) ↔ i.accumulator ctxt.regs = v := by
  have hsrc : (readModifyExec ctxt i v).src.val = i.source ctxt.regs := by
    unfold readModifyExec
    rw [modrmRegOperand_eq]
    rfl
  have hflags := cmpxchgCompared_flags hcpu hd v
  have hzf := cmpxchgCompared_zf hcpu hd hv
  rw [cmpxchg_eq, hsrc] at hx ⊢
  by_cases heq : i.accumulator ctxt.regs = v
  · -- the source goes to memory
    rw [decide_eq_true heq.symm] at hzf
    rw [if_pos hzf] at hx ⊢
    have hptr : ((cmpxchgCompared cpu ctxt i v).setDst (i.source ctxt.regs)).dst.ptr = .mem i.cr2 := rfl
    obtain ⟨rfl, hacc⟩ := writeback_mem hptr rfl hx
    refine iff_of_true ⟨?_, fun _ => ⟨rfl, hacc⟩, fun hne => absurd heq hne⟩ heq
    rw [heq] at hflags ⊢
    exact hflags
  · -- the flags say that the operands were exchanged
    rw [decide_eq_false fun hv => heq hv.symm] at hzf
    rw [if_neg (Bool.eq_false_iff.1 hzf), @writeback_reg _ _ ⟨vcpuRegsRax, false⟩ rfl rfl] at hx
    cases hx
    refine iff_of_false (fun hdone => heq ?_) heq
    have hboth : mergeEflags ctxt.eflags (subFlags i.operandBytes v (i.accumulator ctxt.regs)) =
        mergeEflags ctxt.eflags (subFlags i.operandBytes (i.accumulator ctxt.regs) v) := hflags.symm.trans hdone.flags
    have hcf : ∀ a b : ULong arch, (mergeEflags ctxt.eflags (subFlags i.operandBytes a b)).hasBit 0 =
        decide (lowBytes i.operandBytes a < lowBytes i.operandBytes b) := by
      intro a b
      have hlong : 0 < arch.bitsPerLong := by cases arch <;> decide
      have hmask : (BitVec.ofNat arch.bitsPerLong eflagsMask).hasBit 0 = true := by cases arch <;> rfl
      unfold mergeEflags
      simp [hlong, hmask, subFlags_cf]
    have hacc : lowBytes i.operandBytes (i.accumulator ctxt.regs) = i.accumulator ctxt.regs := by
      rw [accumulator_eq]
      apply BitVec.eq_of_hasBit
      intro j hj
      simp
    have hless := congrArg (fun w => BitVec.hasBit w 0) hboth
    simp only [hcf, hacc, hv, decide_eq_decide, BitVec.lt_def] at hless
    apply BitVec.eq_of_toNat_eq
    omega

/-- xchg is right exactly if it does not find the source in memory. -/
theorem xchg_iff (hd : i.Decoded ctxt) (hi : i.IsXchg) {v : ULong arch}
    (hx : ((writeback (readModifyExec ctxt i v).xchg).run h t).result = .ok x) :
    XchgDone ctxt { ctxt with regs := x.regs, rip := x.eip, eflags := x.eflags } i v
      (accesses ((writeback (readModifyExec ctxt i v).xchg).run h t).trace) ↔ i.source ctxt.regs ≠ v := by
  have hmov : i.isMov = false := by
    unfold Insn.isMov
    rw [Insn.d_onebyte hi.1]
    exact (xchg_table i.b hi.2).2.2
  have hsrc : (readModifyExec ctxt i v).src = ⟨.reg i.regOperand, i.operandBytes, i.source ctxt.regs,
      i.source ctxt.regs⟩ := modrmRegOperand_eq ctxt.regs i
  have hxchg : (readModifyExec ctxt i v).xchg = { (readModifyExec ctxt i v).setDst (i.source ctxt.regs) with
      regs := writeRegister ctxt.regs i.regOperand i.operandBytes v, lockPrefix := true } := by
    unfold Exec.xchg
    rw [hsrc]
    rfl
  have hwritten := @writeRegister_written arch i.regOperand i.operandBytes i.mode ctxt.regs v Insn.regOperand_high
    (Insn.operandSize hd).1
  rw [hxchg] at hx ⊢
  by_cases heq : i.source ctxt.regs = v
  · -- nothing changes in memory, and there is no store
    have hsame : (i.isMov || v != i.source ctxt.regs) = false := by
      rw [hmov, heq, bne_self_eq_false]
      rfl
    rw [writeback_unchanged hsame] at hx ⊢
    refine iff_of_false (fun hdone => ?_) fun hne => hne heq
    cases hdone.stored
  · have hdiff : (i.isMov || v != i.source ctxt.regs) = true := by
      rw [hmov, bne_iff_ne.2 (Ne.symm heq)]
      rfl
    obtain ⟨rfl, hacc⟩ := @writeback_mem _ _ _ _ _ _ i.cr2 rfl hdiff hx
    exact iff_of_true ⟨rfl, hwritten, hacc⟩ heq

/-- **cmpxchg and xchg**: for every register file and memory value, a committed emulation does what the instruction does,
cmpxchg exactly if it finds the accumulator in memory, and xchg exactly if it does not find the source there. -/
theorem emulate_exchange {s : σ} (hz : ZeroExtends h) (hcpu : DocumentedCmp cpu)
    (hi : ((decode ctxt).run h s).result = .ok i) (hex : i.IsCmpxchg ∨ i.IsXchg)
    (hx : ((emulate cpu hasCmpxchg8b ctxt).run h s).result = .ok x) :
    ∃ v stores, accesses ((emulate cpu hasCmpxchg8b ctxt).run h s).trace =
        ⟨.readEmulated i.cr2 i.operandBytes, .ok v⟩ :: stores ∧
      (ExchangeDone ctxt (x86EmulateMemop h cpu hasCmpxchg8b ctxt s).2.1 i v stores ↔ ExchangeWhen ctxt i v) := by
  have hd := decoded hi
  obtain ⟨hres, hcall⟩ := x86EmulateMemop_ok hi hx
  rw [hcall, emulate_accesses cpu hasCmpxchg8b hi]
  rcases hex with hcmp | hxchg
  · obtain ⟨v, u, hv, hwb, hacc⟩ := readModify_run (execute_cmpxchg cpu hasCmpxchg8b ctxt hcmp) hres
    refine ⟨v, _, hacc, ?_⟩
    have hiff := cmpxchg_iff hcpu hd (hz _ _ _ _ hv) hwb
    have hno : ¬ i.IsXchg := fun hi => absurd (hi.1.symm.trans hcmp.1) (by decide)
    exact ⟨fun hdone => ⟨fun _ => hiff.1 (hdone.cmpxchg hcmp), fun hi => absurd hi hno⟩,
      fun hwhen => ⟨fun _ => hiff.2 (hwhen.cmpxchg hcmp), fun hi => absurd hi hno⟩⟩
  · obtain ⟨v, u, hv, hwb, hacc⟩ := readModify_run (execute_xchg cpu hasCmpxchg8b ctxt hxchg) hres
    refine ⟨v, _, hacc, ?_⟩
    have hiff := xchg_iff hd hxchg hwb
    have hno : ¬ i.IsCmpxchg := fun hi => absurd (hi.1.symm.trans hxchg.1) (by decide)
    exact ⟨fun hdone => ⟨fun hi => absurd hi hno, fun _ => hiff.1 (hdone.xchg hxchg)⟩,
      fun hwhen => ⟨fun hi => absurd hi hno, fun _ => hiff.2 (hwhen.xchg hxchg)⟩⟩

end

/-! ### Callbacks and a host of this kind -/

theorem flatOps_zeroExtends (arch : Arch) : ZeroExtends (flatOps arch) := by
  intro addr bytes m v hv
  cases hv
  apply BitVec.eq_of_hasBit
  intro j hj
  rw [hasBit_lowBytes, BitVec.hasBit_setWidth, ByteMem.hasBit_load]
  by_cases hlow : j < 8 * bytes
  · simp [hlow]
  · simp [hlow]

/-- A host whose cmp is the documented one. -/
def cmpHost (arch : Arch) : HostCpu arch where
  op2 op bytes src dst eflags := (dst, if op = .cmp then subFlags bytes dst src else eflags)
  op1 _ _ dst eflags := (dst, eflags)

theorem cmpHost_documented (arch : Arch) : DocumentedCmp (cmpHost arch) := by
  intro bytes src dst eflags _ _
  have hin : ∀ (cond : Bool) {flag : Nat},
      BitVec.ofNat arch.bitsPerLong flag &&& BitVec.ofNat _ eflagsMask = BitVec.ofNat _ flag →
        (flagIf cond flag : ULong arch) &&& BitVec.ofNat _ eflagsMask = flagIf cond flag := by
    intro cond flag hflag
    unfold flagIf
    cases cond with
    | true => exact hflag
    | false => exact BitVec.zero_and
  have hdist : ∀ x y z : ULong arch, (x ||| y) &&& z = (x &&& z) ||| (y &&& z) := by
    intro x y z
    apply BitVec.eq_of_hasBit
    intro j hj
    simp [Bool.and_or_distrib_right]
  show subFlags bytes dst src &&& _ = _
  unfold subFlags
  dsimp only
  rw [hdist, hdist, hdist, hdist, hdist, hin, hin, hin, hin, hin, hin] <;> (cases arch <;> rfl)

/-- `cmpxchg %ecx, (%esi)` at address 0; the rest of the memory is 0. -/
def cmpxchgMem : EmulMem .i386 := fun a => if a = 0 then 0x0f else if a = 1 then 0xb1 else if a = 2 then 0x0e else 0

def cmpxchgCtxt (eax : BitVec 32) : X86EmulateCtxt .i386 :=
  { cmpxchg8bCtxt 0 with
    regs := fun r => if r = vcpuRegsRax then eax else if r = vcpuRegsRcx then 7 else if r = vcpuRegsRsi then 0x100 else 0 }

def cmpxchgInsn : Insn .i386 := { cmpxchg8bInsn with b := 0xb1 }

theorem cmpxchg_decoded_zero : ((decode (cmpxchgCtxt 0)).run (flatOps .i386) cmpxchgMem).result = .ok cmpxchgInsn := rfl

theorem cmpxchg_decoded_one : ((decode (cmpxchgCtxt 1)).run (flatOps .i386) cmpxchgMem).result = .ok cmpxchgInsn := rfl

theorem emulate_exchange_small : ∃ v stores,
    accesses ((emulate (cmpHost .i386) true (cmpxchgCtxt 0)).run (flatOps .i386) cmpxchgMem).trace =
        ⟨.readEmulated cmpxchgInsn.cr2 cmpxchgInsn.operandBytes, .ok v⟩ :: stores ∧
      (ExchangeDone (cmpxchgCtxt 0) (x86EmulateMemop (flatOps .i386) (cmpHost .i386) true (cmpxchgCtxt 0) cmpxchgMem).2.1
        cmpxchgInsn v stores ↔ ExchangeWhen (cmpxchgCtxt 0) cmpxchgInsn v) :=
  emulate_exchange (flatOps_zeroExtends .i386) (cmpHost_documented .i386) cmpxchg_decoded_zero (Or.inl ⟨rfl, rfl⟩) rfl

/-- EAX is 1 and the value in memory is 0: the carry flag is that of 0 minus 1. -/
theorem cmpxchg_compares_memory : ¬∀ (arch : Arch) (h : (c : OpCall arch) → EmulMem arch → OpReply arch c × EmulMem arch)
    (cpu : HostCpu arch) (ctxt : X86EmulateCtxt arch) (m : EmulMem arch) (i : Insn arch) (x : Exec arch),
    ZeroExtends h → DocumentedCmp cpu → ((decode ctxt).run h m).result = .ok i → i.IsCmpxchg ∨ i.IsXchg →
      ((emulate cpu true ctxt).run h m).result = .ok x →
        ∃ v stores, accesses ((emulate cpu true ctxt).run h m).trace =
            ⟨.readEmulated i.cr2 i.operandBytes, .ok v⟩ :: stores ∧
          ExchangeDone ctxt (x86EmulateMemop h cpu true ctxt m).2.1 i v stores := by
  intro hall
  obtain ⟨v, stores, hacc, hdone⟩ := hall .i386 (flatOps .i386) (cmpHost .i386) (cmpxchgCtxt 1) cmpxchgMem cmpxchgInsn _
    (flatOps_zeroExtends .i386) (cmpHost_documented .i386) cmpxchg_decoded_one (Or.inl ⟨rfl, rfl⟩) rfl
  have hrun : accesses ((emulate (cmpHost .i386) true (cmpxchgCtxt 1)).run (flatOps .i386) cmpxchgMem).trace =
      [⟨.readEmulated 0x100 4, .ok (0 : BitVec 32)⟩] := rfl
  rw [hrun] at hacc
  cases hacc
  have hflags := (hdone.cmpxchg ⟨rfl, rfl⟩).flags
  exact absurd hflags (by decide)

end LearnKvm
