import LearnKvm.Emulate.Cmpxchg
import LearnKvm.Lib.BitString

/-!
# Bit instructions with a memory operand (`x86_emulate.c`)

bt, bts, btr and btc with a register offset address a bit string that goes on in both directions.  The emulator cuts the
offset to the operand and stays in the cell at the effective address, so these forms are right exactly for the offsets of
this cell (`emulate_bits`).  An immediate offset is cut by the instruction, too.
-/

namespace LearnKvm

open Calls

variable {arch : Arch} {σ : Type} {h : (c : OpCall arch) → σ → OpReply arch c × σ} {mem : σ → EmulMem arch}
  {cpu : HostCpu arch} {hasCmpxchg8b : Bool} {ctxt : X86EmulateCtxt arch} {i : Insn arch} {op : Op2}

/-- The bit instructions with a memory operand, by opcode and ModRM.reg. -/
def bitInsn (b : BitVec 8) (reg : RegIndex) : Option Op2 :=
  if b = 0xa3 then some .bt
  else if b = 0xab then some .bts
  else if b = 0xb3 then some .btr
  else if b = 0xbb then some .btc
  else if b = 0xba then
    if reg &&& 7 = 4 then some .bt
    else if reg &&& 7 = 5 then some .bts
    else if reg &&& 7 = 6 then some .btr
    else if reg &&& 7 = 7 then some .btc
    else none
  else none

def Insn.IsBit (i : Insn arch) (op : Op2) : Prop := i.twobyte = true ∧ bitInsn i.b i.modrmReg = some op

/-- The bit offset: a signed register, or an immediate modulo the bits of the operand. -/
def Insn.bitOffset (ctxt : X86EmulateCtxt arch) (m : EmulMem arch) (i : Insn arch) : Int :=
  if i.b = 0xba then ((m (i.eip + ctxt.csBase)).toNat % (8 * i.opBytes) : Nat)
  else ((ctxt.regs i.modrmReg).setWidth (8 * i.opBytes)).toInt

/-- The cell with a bit. -/
def bitCell (ea : ULong arch) (bytes : Nat) (n : Int) : ULong arch :=
  ea + BitVec.ofInt _ (bytes * (n / (8 * bytes : Nat)))

/-- What becomes of the bit. -/
def bitResult (op : Op2) (b : Bool) : Bool :=
  match op with
  | .bts => true
  | .btr => false
  | .btc => !b
  | _ => b

/-- The sizes of an operand of more than one byte. -/
def WideSize (bytes : Nat) : Prop := bytes = 2 ∨ bytes = 4 ∨ bytes = 8

def Op2.IsBit (op : Op2) : Prop := op = .bt ∨ op = .bts ∨ op = .btr ∨ op = .btc

/-- What the host's bit instructions make of an offset in the operand. -/
structure DocumentedBits (cpu : HostCpu arch) : Prop where
  carry : ∀ op bytes src dst eflags, op.IsBit → WideSize bytes → 8 * bytes ≤ arch.bitsPerLong → src.toNat < 8 * bytes →
    (cpu.op2 op bytes src dst eflags).2.hasBit 0 = dst.hasBit src.toNat
  value : ∀ op bytes src dst eflags, op.IsBit → op.writesDst = true → WideSize bytes → 8 * bytes ≤ arch.bitsPerLong →
    src.toNat < 8 * bytes → ∀ j < 8 * bytes, (cpu.op2 op bytes src dst eflags).1.hasBit j =
      if j = src.toNat then bitResult op (dst.hasBit j) else dst.hasBit j

/-- `read_std` reads the memory of the other callbacks. -/
def StdReads (h : (c : OpCall arch) → σ → OpReply arch c × σ) (mem : σ → EmulMem arch) : Prop :=
  ∀ addr bytes s v, (h (.readStd addr bytes) s).1 = .ok v → lowBytes bytes v = (ByteMem.load (mem s) addr bytes).setWidth _

/-- The cell with the bit is read, CF is the old bit, and no other bit of the memory changes. -/
structure BitDone (ctxt ctxt' : X86EmulateCtxt arch) (m m' : EmulMem arch) (i : Insn arch) (op : Op2)
    (calls : List (Event (OpReply arch))) : Prop where
  cell : ∃ v, calls.head? = some ⟨.readEmulated (bitCell i.cr2 i.opBytes (i.bitOffset ctxt m)) i.opBytes, .ok v⟩
  carry : ctxt'.eflags.hasBit 0 = ByteMem.bit m i.cr2 (i.bitOffset ctxt m)
  memory : m' = ByteMem.setBit m i.cr2 (i.bitOffset ctxt m) (bitResult op (ByteMem.bit m i.cr2 (i.bitOffset ctxt m)))

/-- A register offset lies in the operand at the effective address. -/
def InCell (ctxt : X86EmulateCtxt arch) (m : EmulMem arch) (i : Insn arch) : Prop :=
  i.b ≠ 0xba → 0 ≤ i.bitOffset ctxt m ∧ i.bitOffset ctxt m < 8 * i.opBytes

/-! ### The offset in the operand -/

/-- The mask of the source. -/
theorem subword_toNat {bytes : Nat} (hbytes : WideSize bytes) (x : ULong arch) :
    (x &&& (BitVec.ofNat _ (bytes <<< 3) - 1#_)).toNat = x.toNat % (8 * bytes) := by
  obtain ⟨k, hk, hpow⟩ : ∃ k < 8, bytes <<< 3 = 2 ^ k := by
    rcases hbytes with rfl | rfl | rfl
    · exact ⟨4, by decide, rfl⟩
    · exact ⟨5, by decide, rfl⟩
    · exact ⟨6, by decide, rfl⟩
  have hw : k < arch.bitsPerLong := hk.trans_le (by cases arch <;> decide)
  have hone : BitVec.ofNat arch.bitsPerLong (2 ^ k) = 1#_ <<< k := by
    rw [← Nat.one_shiftLeft, ofNat_flag]
  have hmul : 8 * bytes = 2 ^ k := by
    rw [← hpow, Nat.shiftLeft_eq]
    omega
  rw [hpow, hone, hmul]
  apply Nat.eq_of_testBit_eq
  intro j
  rw [BitVec.testBit_toNat, Nat.testBit_mod_two_pow, BitVec.testBit_toNat]
  show BitVec.hasBit _ j = _
  rw [BitVec.hasBit_and, Bits.hasBit_lowMask hw, Bool.and_comm]
  rfl

/-- A signed offset modulo the bits of the operand. -/
theorem signed_emod {bytes : Nat} (hbytes : WideSize bytes) (x : ULong arch) :
    (x.setWidth (8 * bytes)).toInt % (8 * bytes : Nat) = (x.toNat % (8 * bytes) : Nat) := by
  have hdvd : 8 * bytes ∣ 2 ^ (8 * bytes) := by
    rcases hbytes with rfl | rfl | rfl <;> decide
  have hcast : ((8 * bytes : Nat) : Int) ∣ ((2 ^ (8 * bytes) : Nat) : Int) := Int.natCast_dvd_natCast.2 hdvd
  have hnat : (x.setWidth (8 * bytes)).toNat % (8 * bytes) = x.toNat % (8 * bytes) := by
    rw [BitVec.toNat_setWidth, Nat.mod_mod_of_dvd _ hdvd]
  rw [← hnat, Int.natCast_emod, BitVec.toInt_eq_toNat_cond]
  split
  · rfl
  · exact (Int.emod_emod_of_dvd _ (Int.dvd_refl _)).symm.trans (by rw [Int.sub_emod, Int.emod_eq_zero_of_dvd hcast]; simp)

/-! ### What the emulator does -/

theorem bitInsn_table : ∀ b : BitVec 8, b = 0xa3 ∨ b = 0xab ∨ b = 0xb3 ∨ b = 0xbb →
    twobyteTable.getD b.toNat 0 = dstMem ||| srcReg ||| modRM := by
  rintro b (rfl | rfl | rfl | rfl) <;> rfl

theorem grp8_table : twobyteTable.getD (0xba : BitVec 8).toNat 0 = dstMem ||| srcImmByte ||| modRM := rfl

theorem bitInsn_cases {b : BitVec 8} {reg : RegIndex} (hop : bitInsn b reg = some op) :
    b = 0xba ∨ b = 0xa3 ∨ b = 0xab ∨ b = 0xb3 ∨ b = 0xbb := by
  unfold bitInsn at hop
  by_cases h1 : b = 0xa3 <;> by_cases h2 : b = 0xab <;> by_cases h3 : b = 0xb3 <;> by_cases h4 : b = 0xbb <;>
    by_cases h5 : b = 0xba <;> simp_all

theorem bitInsn_isBit {b : BitVec 8} {reg : RegIndex} (hop : bitInsn b reg = some op) : op.IsBit := by
  have hall : ∀ reg : RegIndex, ∀ op ∈ bitInsn 0xba reg, op = .bt ∨ op = .bts ∨ op = .btr ∨ op = .btc := by
    decide
  rcases bitInsn_cases hop with rfl | rfl | rfl | rfl | rfl
  · exact hall reg op hop
  all_goals
    cases hop
    unfold Op2.IsBit
    decide

/-- The source switches over two bits of ModRM.reg. -/
theorem grp8Op_eq {reg : RegIndex} (hop : bitInsn 0xba reg = some op) : grp8Op reg = op := by
  have hall : ∀ reg : RegIndex, bitInsn 0xba reg = none ∨ bitInsn 0xba reg = some (grp8Op reg) := by decide
  rcases hall reg with hnone | hsome
  · rw [hnone] at hop
    cases hop
  · rw [hsome] at hop
    exact Option.some.inj hop

/-- A bit instruction that has read `v`, with its source operand. -/
def bitExec (ctxt : X86EmulateCtxt arch) (i : Insn arch) (src : Operand arch) (eip v : ULong arch) : Exec arch where
  regs := ctxt.regs
  eip := eip
  eflags := ctxt.eflags
  dst := ⟨.mem i.cr2, i.opBytes, v, v⟩
  src := src
  mov := false
  lockPrefix := i.lockPrefix

theorem Insn.bytes_of_flags (hd : i.d &&& byteOp = 0) : i.operandBytes = i.opBytes := by
  unfold Insn.operandBytes Insn.isByteOp
  rw [hd]
  rfl

/-- The forms with a register. -/
theorem execute_bitReg (cpu : HostCpu arch) (hasCmpxchg8b : Bool) (ctxt : X86EmulateCtxt arch) (hi : i.IsBit op)
    (hb : i.b ≠ 0xba) : execute cpu hasCmpxchg8b ctxt i = Emul.readEmulated i.cr2 i.opBytes >>= fun v =>
      .ret ((bitExec ctxt i (modrmRegOperand ctxt.regs i false) i.eip v).bitOp cpu op) := by
  obtain ⟨ht, hop⟩ := hi
  have hcases := (bitInsn_cases hop).resolve_left hb
  have hd : i.d = dstMem ||| srcReg ||| modRM := (Insn.d_twobyte ht).trans (bitInsn_table i.b hcases)
  have hbytes : i.operandBytes = i.opBytes := Insn.bytes_of_flags (by rw [hd]; rfl)
  have hmov : i.isMov = false := by
    unfold Insn.isMov
    rw [hd]
    rfl
  have hbyte : i.isByteOp = false := by
    unfold Insn.isByteOp
    rw [hd]
    rfl
  rw [execute_readModify cpu hasCmpxchg8b ctxt (by rw [hd]; rfl) (by rw [hd]; rfl) hmov, hbytes]
  apply congrArg (Emul.readEmulated i.cr2 i.opBytes >>= ·)
  funext v
  have hexec : readModifyExec ctxt i v = bitExec ctxt i (modrmRegOperand ctxt.regs i false) i.eip v := by
    unfold readModifyExec bitExec
    rw [hbytes, hmov, hbyte]
  rw [if_pos ht, hexec]
  unfold twobyteInsn
  rcases hcases with hb | hb | hb | hb
  all_goals
    rw [hb] at hop ⊢
    cases hop
    rfl

/-- The forms with an immediate. -/
theorem execute_bitImm (cpu : HostCpu arch) (hasCmpxchg8b : Bool) (ctxt : X86EmulateCtxt arch) (hi : i.IsBit op)
    (hb : i.b = 0xba) : execute cpu hasCmpxchg8b ctxt i = Emul.readEmulated i.cr2 i.opBytes >>= fun v =>
      fetchImmSrc ctxt 1 i.eip >>= fun r => .ret ((bitExec ctxt i r.1 r.2 v).bitOp cpu op) := by
  obtain ⟨ht, hop⟩ := hi
  have hd : i.d = dstMem ||| srcImmByte ||| modRM := by rw [Insn.d_twobyte ht, hb, grp8_table]
  have hbytes : i.operandBytes = i.opBytes := Insn.bytes_of_flags (by rw [hd]; rfl)
  have hmov : i.isMov = false := by
    unfold Insn.isMov
    rw [hd]
    rfl
  have hdst : fetchDst ctxt i = Emul.readEmulated i.cr2 i.opBytes >>= fun v => .ret ⟨.mem i.cr2, i.opBytes, v, v⟩ := by
    unfold fetchDst
    rw [hd, if_neg (by decide), hmov, if_neg Bool.false_ne_true, hbytes]
    rfl
  have hsrc : fetchSrc ctxt i = fetchImmSrc ctxt 1 i.eip := by
    unfold fetchSrc
    rw [hd]
    rfl
  rw [hb] at hop
  unfold execute
  rw [hd, if_neg (by decide), hdst, Prog.bind_assoc]
  apply congrArg (Emul.readEmulated i.cr2 i.opBytes >>= ·)
  funext v
  rw [Prog.ret_bind, hsrc]
  apply congrArg (fetchImmSrc ctxt 1 i.eip >>= ·)
  funext r
  dsimp only
  rw [if_pos ht, hmov]
  unfold twobyteInsn
  rw [hb, ← grp8Op_eq hop]
  rfl

/-- The number of the bit in the operand. -/
def Exec.subword (x : Exec arch) : Nat := x.src.val.toNat % (8 * x.dst.bytes)

/-- The carry flag and the destination after a bit instruction. -/
theorem bitOp_spec (hcpu : DocumentedBits cpu) (hop : op.IsBit) {x : Exec arch} (hsize : WideSize x.dst.bytes)
    (hw : 8 * x.dst.bytes ≤ arch.bitsPerLong) :
    (x.bitOp cpu op).eflags.hasBit 0 = x.dst.val.hasBit x.subword ∧
      ∀ j < 8 * x.dst.bytes, (x.bitOp cpu op).dst.val.hasBit j =
        if j = x.subword then bitResult op (x.dst.val.hasBit j) else x.dst.val.hasBit j := by
  have hne : ¬ x.dst.bytes = 1 := by
    rcases hsize with hb | hb | hb <;> omega
  have hsrc : (x.src.val &&& (BitVec.ofNat _ (x.dst.bytes <<< 3) - 1#_)).toNat = x.subword := subword_toNat hsize _
  have hlt : x.subword < 8 * x.dst.bytes := Nat.mod_lt _ (by rcases hsize with hb | hb | hb <;> omega)
  have hbit : x.bitOp cpu op =
      (x.setSrc (x.src.val &&& (BitVec.ofNat _ (x.dst.bytes <<< 3) - 1#_))).emulate2op cpu op := if_neg hne
  rw [← hsrc] at hlt ⊢
  constructor
  · have hlong : 0 < arch.bitsPerLong := by cases arch <;> decide
    have hmask : (BitVec.ofNat arch.bitsPerLong eflagsMask).hasBit 0 = true := by cases arch <;> rfl
    have hcarry := hcpu.carry op x.dst.bytes _ x.dst.val (x.eflags &&& BitVec.ofNat _ eflagsMask) hop hsize hw hlt
    rw [hbit, ← hcarry]
    show (mergeEflags _ _).hasBit 0 = _
    unfold mergeEflags
    simp [hlong, hmask, Exec.setSrc]
  · intro j hj
    rw [hbit]
    show (if op.writesDst then setLow x.dst.bytes x.dst.val _ else x.dst.val).hasBit j = _
    cases hwrites : op.writesDst with
    | true =>
      rw [if_pos rfl, hasBit_setLow, if_pos hj]
      exact hcpu.value op x.dst.bytes _ x.dst.val (x.eflags &&& BitVec.ofNat _ eflagsMask) hop hwrites hsize hw hlt j hj
    | false =>
      -- bt
      have hbt : op = .bt := by
        rcases hop with rfl | rfl | rfl | rfl
        · rfl
        all_goals cases hwrites
      rw [if_neg Bool.false_ne_true, hbt]
      split <;> rfl

section

variable {x y : Exec arch} {t : σ}

/-- A writeback stores the value of the destination where the old value was read. -/
theorem writeback_memory (hc : Conforms h mem) {addr : ULong arch} (hptr : y.dst.ptr = .mem addr)
    (hbits : 8 * y.dst.bytes ≤ arch.bitsPerLong) (hold : y.dst.origVal = (ByteMem.load (mem t) addr y.dst.bytes).setWidth _)
    (hr : ((writeback y).run h t).result = .ok x) :
    x = y ∧ (mem ((writeback y).run h t).state = ByteMem.store (mem t) addr y.dst.bytes (y.dst.val.setWidth 64) ∨
      y.dst.val = y.dst.origVal ∧ mem ((writeback y).run h t).state = mem t) := by
  by_cases hw : (y.mov || y.dst.origVal != y.dst.val) = true
  · rw [writeback_call hptr hw] at hr ⊢
    cases hlock : y.lockPrefix with
    | true =>
      simp only [hlock, if_true] at hr ⊢
      obtain ⟨hok, hrun⟩ := cmpxchgEmulated_ok hr
      rw [hrun] at hr ⊢
      have hexpected : ByteMem.load (mem t) addr y.dst.bytes = (lowBytes y.dst.bytes y.dst.origVal).setWidth 64 := by
        rw [hold]
        apply BitVec.eq_of_hasBit
        intro j hj
        rw [BitVec.hasBit_setWidth, hasBit_lowBytes, BitVec.hasBit_setWidth, ByteMem.hasBit_load]
        by_cases hlow : j < 8 * y.dst.bytes
        · simp [hj, hlow, show j < arch.bitsPerLong by omega]
        · simp [hlow]
      exact ⟨(Except.ok.inj hr).symm, Or.inl (hc.cmpxchgEmulated _ _ _ _ _ hok hexpected)⟩
    | false =>
      simp only [hlock, Bool.false_eq_true, if_false] at hr ⊢
      obtain ⟨hok, hrun⟩ := writeEmulated_ok hr
      rw [hrun] at hr ⊢
      exact ⟨(Except.ok.inj hr).symm, Or.inl (hc.writeEmulated _ _ _ _ hok)⟩
  · have hsame := Bool.eq_false_iff.2 hw
    rw [writeback_unchanged hsame] at hr ⊢
    obtain ⟨-, hval⟩ := Bool.or_eq_false_iff.1 hsame
    exact ⟨(Except.ok.inj hr).symm, Or.inr ⟨(bne_eq_false_iff_eq.1 hval).symm, rfl⟩⟩

/-- A bit instruction behind its reads: CF is the old bit, and the bit is replaced in memory. -/
theorem bitOp_memory (hc : Conforms h mem) (hcpu : DocumentedBits cpu) (hop : op.IsBit) (hsize : WideSize i.opBytes)
    (hw : 8 * i.opBytes ≤ arch.bitsPerLong) {src : Operand arch} {eip v : ULong arch} {k : Nat}
    (hk : src.val.toNat % (8 * i.opBytes) = k) (hv : v = (ByteMem.load (mem t) i.cr2 i.opBytes).setWidth _)
    (hr : ((writeback ((bitExec ctxt i src eip v).bitOp cpu op)).run h t).result = .ok x) :
    x.eflags.hasBit 0 = ByteMem.bit (mem t) i.cr2 k ∧
      mem ((writeback ((bitExec ctxt i src eip v).bitOp cpu op)).run h t).state =
        ByteMem.setBit (mem t) i.cr2 k (bitResult op (ByteMem.bit (mem t) i.cr2 k)) := by
  have hpos : 0 < 8 * i.opBytes := by rcases hsize with hb | hb | hb <;> omega
  have hlt : k < 8 * i.opBytes := hk ▸ Nat.mod_lt _ hpos
  have hle : i.opBytes ≤ 8 := by rcases hsize with hb | hb | hb <;> omega
  have hspace : i.opBytes ≤ 2 ^ arch.bitsPerLong := hle.trans (by cases arch <;> decide)
  have hbit : ∀ j < 8 * i.opBytes, v.hasBit j = (ByteMem.load (mem t) i.cr2 i.opBytes).hasBit j := by
    intro j hj
    rw [hv, BitVec.hasBit_setWidth, decide_eq_true (hj.trans_le hw), Bool.true_and]
  have hold : ByteMem.bit (mem t) i.cr2 k = v.hasBit k := by
    rw [ByteMem.bit_natCast _ _ hlt hle, hbit k hlt]
  obtain ⟨hcarry, hval⟩ := @bitOp_spec _ cpu op hcpu hop (bitExec ctxt i src eip v) hsize hw
  have hsub : (bitExec ctxt i src eip v).subword = k := hk
  rw [hsub] at hcarry hval
  have hshape : ((bitExec ctxt i src eip v).bitOp cpu op).dst =
      ⟨.mem i.cr2, i.opBytes, ((bitExec ctxt i src eip v).bitOp cpu op).dst.val, v⟩ := by
    unfold Exec.bitOp Exec.emulate2opNobyte
    split <;> rfl
  have hptr : ((bitExec ctxt i src eip v).bitOp cpu op).dst.ptr = .mem i.cr2 := by rw [hshape]
  obtain ⟨rfl, hmem⟩ := writeback_memory hc hptr (by rw [hshape]; exact hw) (by rw [hshape]; exact hv) hr
  rw [hshape] at hmem
  refine ⟨hcarry.trans hold.symm, ?_⟩
  rcases hmem with hmem | ⟨hsame, hmem⟩
  · rw [hmem]
    apply ByteMem.store_eq_setBit _ _ hlt hle hspace
    intro j hj
    have hlong : j < 64 := by omega
    rw [BitVec.hasBit_setWidth, decide_eq_true hlong, Bool.true_and]
    refine (hval j hj).trans ?_
    by_cases hj' : j = k
    · rw [if_pos hj', if_pos hj', hold, hj']
      rfl
    · rw [if_neg hj', if_neg hj']
      exact hbit j hj
  · -- nothing changes
    have hkept := hval k hlt
    rw [if_pos rfl] at hkept
    have hval' : ((bitExec ctxt i src eip v).bitOp cpu op).dst.val = v := hsame
    have hres : bitResult op (v.hasBit k) = v.hasBit k :=
      hkept.symm.trans (congrArg (fun w => BitVec.hasBit w k) hval')
    rw [hmem, hold, hres, ← hold, ByteMem.setBit_self]

/-- What is left of an offset in the operand. -/
def Insn.subword (ctxt : X86EmulateCtxt arch) (m : EmulMem arch) (i : Insn arch) : Nat :=
  (i.bitOffset ctxt m % (8 * i.opBytes : Nat)).toNat

/-- The run of a bit instruction: the emulator stays in the operand at its address. -/
def BitRun (mem : σ → EmulMem arch) (ctxt : X86EmulateCtxt arch) (i : Insn arch) (op : Op2) (t : σ)
    (o : Calls.Outcome (OpReply arch) (Exit arch) σ (Exec arch)) (x : Exec arch) : Prop :=
  (∃ v, (accesses o.trace).head? = some ⟨.readEmulated i.cr2 i.opBytes, .ok v⟩) ∧
    x.eflags.hasBit 0 = ByteMem.bit (mem t) i.cr2 (i.subword ctxt (mem t)) ∧
      mem o.state = ByteMem.setBit (mem t) i.cr2 (i.subword ctxt (mem t))
        (bitResult op (ByteMem.bit (mem t) i.cr2 (i.subword ctxt (mem t))))

theorem bitReg_run (hc : Conforms h mem) (hcpu : DocumentedBits cpu) (hsize : WideSize i.opBytes)
    (hw : 8 * i.opBytes ≤ arch.bitsPerLong) (hi : i.IsBit op) (hb : i.b ≠ 0xba)
    (hx : ((executeAndWriteback cpu hasCmpxchg8b ctxt i).run h t).result = .ok x) :
    BitRun mem ctxt i op t ((executeAndWriteback cpu hasCmpxchg8b ctxt i).run h t) x := by
  have hoffset : i.bitOffset ctxt (mem t) = ((ctxt.regs i.modrmReg).setWidth (8 * i.opBytes)).toInt := if_neg hb
  have hsub : (modrmRegOperand ctxt.regs i false).val.toNat % (8 * i.opBytes) = i.subword ctxt (mem t) := by
    have hdvd : 8 * i.opBytes ∣ 2 ^ (8 * i.opBytes) := by
      rcases hsize with hb | hb | hb <;> (rw [hb]; decide)
    have hval : (modrmRegOperand ctxt.regs i false).val = lowBytes i.opBytes (ctxt.regs i.modrmReg) := rfl
    unfold Insn.subword
    rw [hoffset, signed_emod hsize, Int.toNat_natCast, hval, lowBytes_toNat, Nat.mod_mod_of_dvd _ hdvd]
  unfold executeAndWriteback at hx ⊢
  rw [execute_bitReg cpu hasCmpxchg8b ctxt hi hb, Prog.bind_assoc] at hx ⊢
  obtain ⟨v, hv, hrun⟩ := readEmulated_ok hx
  have hread := hc.readEmulated _ _ _ _ hv
  have hkept := hc.afterRead i.cr2 i.opBytes t
  rw [hrun] at hx ⊢
  have hmem := bitOp_memory hc hcpu (bitInsn_isBit hi.2) hsize hw hsub (hread.trans (by rw [hkept])) hx
  rw [hkept] at hmem
  exact ⟨⟨v, rfl⟩, hmem⟩

theorem Conforms.afterStd (hc : Conforms h mem) (addr : ULong arch) (bytes : Nat) (s : σ) :
    mem (h (.readStd addr bytes) s).2 = mem s := by
  refine hc.kept _ s ?_
  rintro ⟨hno, -⟩
  cases hno

/-- The low bits of an immediate byte. -/
theorem immediate_mod {bytes : Nat} (hbytes : WideSize bytes) {w : ULong arch} {b : BitVec 8} (hb : w.setWidth 8 = b) :
    (signExtendBytes 1 w).toNat % (8 * bytes) = b.toNat % (8 * bytes) := by
  have hlow : (signExtendBytes 1 w).setWidth 8 = b := by
    have hlong : 32 ≤ arch.bitsPerLong := by cases arch <;> decide
    rw [← hb]
    apply BitVec.eq_of_getLsbD_eq
    intro j hj
    have hj' : j < arch.bitsPerLong := by omega
    unfold signExtendBytes
    rw [BitVec.getLsbD_setWidth, decide_eq_true hj, Bool.true_and, BitVec.getLsbD_signExtend, decide_eq_true hj',
      Bool.true_and, if_pos hj]
  have hdvd : 8 * bytes ∣ 2 ^ 8 := by rcases hbytes with rfl | rfl | rfl <;> decide
  rw [← hlow, BitVec.toNat_setWidth, Nat.mod_mod_of_dvd _ hdvd]

theorem bitImm_run (hc : Conforms h mem) (hstd : StdReads h mem) (hcpu : DocumentedBits cpu) (hsize : WideSize i.opBytes)
    (hw : 8 * i.opBytes ≤ arch.bitsPerLong) (hi : i.IsBit op) (hb : i.b = 0xba)
    (hx : ((executeAndWriteback cpu hasCmpxchg8b ctxt i).run h t).result = .ok x) :
    BitRun mem ctxt i op t ((executeAndWriteback cpu hasCmpxchg8b ctxt i).run h t) x := by
  have hexec : executeAndWriteback cpu hasCmpxchg8b ctxt i = Emul.readEmulated i.cr2 i.opBytes >>= fun v =>
      Emul.readStd (i.eip + ctxt.csBase) 1 >>= fun w =>
        writeback ((bitExec ctxt i ⟨.imm, 1, signExtendBytes 1 w, 0#_⟩ (i.eip + 1#_) v).bitOp cpu op) := by
    unfold executeAndWriteback
    rw [execute_bitImm cpu hasCmpxchg8b ctxt hi hb]
    unfold fetchImmSrc fetchS insnFetch
    simp only [Prog.bind_assoc]
    rfl
  rw [hexec] at hx ⊢
  obtain ⟨v, hv, hrun⟩ := readEmulated_ok hx
  have hread := hc.readEmulated _ _ _ _ hv
  have hkept := hc.afterRead i.cr2 i.opBytes t
  rw [hrun] at hx ⊢
  dsimp only at hx ⊢
  obtain ⟨w, hfetch, hrun2⟩ := readStd_ok hx
  have hbyte := hstd _ _ _ _ hfetch
  have hkept2 := (hc.afterStd (i.eip + ctxt.csBase) 1 (h (.readEmulated i.cr2 i.opBytes) t).2).trans hkept
  rw [hrun2] at hx ⊢
  rw [hkept] at hbyte
  have hsub : (⟨.imm, 1, signExtendBytes 1 w, 0#_⟩ : Operand arch).val.toNat % (8 * i.opBytes) =
      i.subword ctxt (mem t) := by
    have hw8 : w.setWidth 8 = mem t (i.eip + ctxt.csBase) := by
      have hlong : 32 ≤ arch.bitsPerLong := by cases arch <;> decide
      apply BitVec.eq_of_hasBit
      intro j hj
      have hbit := congrArg (fun u => BitVec.hasBit u j) hbyte
      simp only [hasBit_lowBytes, BitVec.hasBit_setWidth, ByteMem.hasBit_load] at hbit
      rw [show j / 8 = 0 by omega, show j % 8 = j by omega] at hbit
      simpa [hj, show j < arch.bitsPerLong by omega, show j < 64 by omega] using hbit
    unfold Insn.subword Insn.bitOffset
    rw [if_pos hb, immediate_mod hsize hw8, ← Int.natCast_emod, Int.toNat_natCast, Nat.mod_mod]
  have hmem := bitOp_memory hc hcpu (bitInsn_isBit hi.2) hsize hw hsub (hread.trans (by rw [hkept2])) hx
  rw [hkept2] at hmem
  exact ⟨⟨v, rfl⟩, hmem⟩

end

/-! ### When it is right -/

/-- The cell of an offset that an operand can have is the one at the effective address exactly if the offset lies in it. -/
theorem bitCell_eq_iff {bytes : Nat} (hbytes : WideSize bytes) (hw : 8 * bytes ≤ arch.bitsPerLong) (ea : ULong arch)
    {n : Int} (hlo : -2 ^ (8 * bytes - 1) ≤ n) (hhi : n < 2 ^ (8 * bytes - 1)) :
    bitCell ea bytes n = ea ↔ 0 ≤ n ∧ n < 8 * bytes := by
  unfold bitCell
  constructor
  · intro heq
    have hzero := congrArg BitVec.toNat (BitVec.self_eq_add_right.1 heq.symm)
    rw [BitVec.toNat_ofInt] at hzero
    cases arch with
    | i386 =>
      have hw' : 8 * bytes ≤ 32 := hw
      have hmod : ((bytes * (n / (8 * bytes : Nat)) : Int) % (2 ^ 32 : Nat)).toNat = 0 := hzero
      rcases hbytes with rfl | rfl | rfl <;> omega
    | x86_64 =>
      have hmod : ((bytes * (n / (8 * bytes : Nat)) : Int) % (2 ^ 64 : Nat)).toNat = 0 := hzero
      rcases hbytes with rfl | rfl | rfl <;> omega
  · rintro ⟨h0, hlt⟩
    have hdiv : n / ((8 * bytes : Nat) : Int) = 0 := Int.ediv_eq_zero_of_lt h0 (by omega)
    rw [hdiv, Int.mul_zero]
    simp

theorem Insn.bitOffset_bounds {m : EmulMem arch} (hbytes : WideSize i.opBytes) :
    -2 ^ (8 * i.opBytes - 1) ≤ i.bitOffset ctxt m ∧ i.bitOffset ctxt m < 2 ^ (8 * i.opBytes - 1) := by
  unfold Insn.bitOffset
  split
  · rcases hbytes with hb | hb | hb <;> (rw [hb]; omega)
  · exact ⟨BitVec.le_toInt _, BitVec.toInt_lt⟩

/-- **Bit instructions with a memory operand**: for every operand size, registers, effective address and memory, a committed
bt, bts, btr or btc reads the cell with the bit, sets CF to the old bit and changes no other bit of the memory, exactly if a
register offset lies in the operand at the effective address. -/
theorem emulate_bits {s : σ} {x : Exec arch} (hc : Conforms h mem) (hstd : StdReads h mem) (hcpu : DocumentedBits cpu)
    (hi : ((decode ctxt).run h s).result = .ok i) (hbit : i.IsBit op)
    (hx : ((emulate cpu hasCmpxchg8b ctxt).run h s).result = .ok x) :
    BitDone ctxt (x86EmulateMemop h cpu hasCmpxchg8b ctxt s).2.1 (mem s) (mem (x86EmulateMemop h cpu hasCmpxchg8b ctxt s).2.2)
      i op (accesses ((emulate cpu hasCmpxchg8b ctxt).run h s).trace) ↔ InCell ctxt (mem s) i := by
  have hdec := decoded hi
  have hmem := hc.decode hi
  have hsize : WideSize i.opBytes ∧ 8 * i.opBytes ≤ arch.bitsPerLong := by
    have hlong : 32 ≤ arch.bitsPerLong := by cases arch <;> decide
    rcases hdec.sizes.op with h2 | h4 | ⟨h8, hmode⟩
    · exact ⟨Or.inl h2, by omega⟩
    · exact ⟨Or.inr (Or.inl h4), by omega⟩
    · have harch := hdec.host hmode
      subst harch
      exact ⟨Or.inr (Or.inr h8), by rw [h8]; decide⟩
  obtain ⟨hres, hcall⟩ := x86EmulateMemop_ok hi hx
  have hrun : BitRun mem ctxt i op ((decode ctxt).run h s).state
      ((executeAndWriteback cpu hasCmpxchg8b ctxt i).run h ((decode ctxt).run h s).state) x := by
    by_cases hb : i.b = 0xba
    · exact bitImm_run hc hstd hcpu hsize.1 hsize.2 hbit hb hres
    · exact bitReg_run hc hcpu hsize.1 hsize.2 hbit hb hres
  unfold BitRun at hrun
  rw [hmem] at hrun
  obtain ⟨⟨v, hhead⟩, hcarry, hstored⟩ := hrun
  obtain ⟨hlo, hhi⟩ := @Insn.bitOffset_bounds arch ctxt i (mem s) hsize.1
  have hcell := bitCell_eq_iff hsize.1 hsize.2 i.cr2 hlo hhi
  rw [hcall, emulate_accesses cpu hasCmpxchg8b hi]
  constructor
  · rintro ⟨⟨w, hread⟩, -, -⟩ -
    rw [hhead] at hread
    obtain ⟨haddr, -⟩ := OpCall.readEmulated.inj (congrArg Sigma.fst (Option.some.inj hread))
    exact hcell.1 haddr.symm
  · intro hin
    have hbounds : 0 ≤ i.bitOffset ctxt (mem s) ∧ i.bitOffset ctxt (mem s) < 8 * i.opBytes := by
      by_cases hb : i.b = 0xba
      · have hoffset : i.bitOffset ctxt (mem s) = ((mem s (i.eip + ctxt.csBase)).toNat % (8 * i.opBytes) : Nat) := if_pos hb
        have hlt : (mem s (i.eip + ctxt.csBase)).toNat % (8 * i.opBytes) < 8 * i.opBytes :=
          Nat.mod_lt _ (by rcases hsize.1 with h2 | h4 | h8 <;> omega)
        rw [hoffset]
        omega
      · exact hin hb
    have hsub : (i.subword ctxt (mem s) : Int) = i.bitOffset ctxt (mem s) := by
      unfold Insn.subword
      rw [Int.emod_eq_of_lt hbounds.1 (by omega), Int.toNat_of_nonneg hbounds.1]
    rw [hsub] at hcarry hstored
    refine ⟨⟨v, ?_⟩, hcarry, hstored⟩
    rw [hcell.2 hbounds]
    exact hhead

/-! ### A host of this kind -/

/-- A host whose bit instructions are the documented ones. -/
def bitHost (arch : Arch) : HostCpu arch where
  op2 op _ src dst _ := (ByteMem.withBit dst src.toNat (bitResult op (dst.hasBit src.toNat)),
    if dst.hasBit src.toNat then 1#_ else 0#_)
  op1 _ _ dst eflags := (dst, eflags)

theorem bitHost_documented (arch : Arch) : DocumentedBits (bitHost arch) where
  carry op bytes src dst eflags _ _ _ _ := by
    show (if dst.hasBit src.toNat then 1#_ else 0#_ : ULong arch).hasBit 0 = _
    cases hbit : dst.hasBit src.toNat with
    | true => cases arch <;> rfl
    | false => exact BitVec.hasBit_zero 0
  value op bytes src dst eflags _ _ _ hw hlt j _ := by
    show (ByteMem.withBit dst src.toNat _).hasBit j = _
    rw [ByteMem.hasBit_withBit _ (hlt.trans_le hw)]
    split
    · rename_i hj
      rw [hj]
    · rfl

theorem flatOps_stdReads (arch : Arch) : StdReads (flatOps arch) fun m => m := by
  intro addr bytes m v hv
  cases hv
  exact flatOps_zeroExtends arch addr bytes m _ rfl

/-- `bts %ecx, (%esi)` at address 0; the rest of the memory is 0. -/
def btsMem : EmulMem .i386 := fun a => if a = 0 then 0x0f else if a = 1 then 0xab else if a = 2 then 0x0e else 0

def btsCtxt (ecx : BitVec 32) : X86EmulateCtxt .i386 :=
  { cmpxchg8bCtxt 0 with regs := fun r => if r = vcpuRegsRcx then ecx else if r = vcpuRegsRsi then 0x100 else 0 }

def btsInsn : Insn .i386 := { cmpxchg8bInsn with b := 0xab }

theorem bts_decoded_five : ((decode (btsCtxt 5)).run (flatOps .i386) btsMem).result = .ok btsInsn := rfl

theorem bts_decoded_next : ((decode (btsCtxt 32)).run (flatOps .i386) btsMem).result = .ok btsInsn := rfl

theorem emulate_bits_small : BitDone (btsCtxt 5)
    (x86EmulateMemop (flatOps .i386) (bitHost .i386) true (btsCtxt 5) btsMem).2.1 btsMem
    (x86EmulateMemop (flatOps .i386) (bitHost .i386) true (btsCtxt 5) btsMem).2.2 btsInsn .bts
    (accesses ((emulate (bitHost .i386) true (btsCtxt 5)).run (flatOps .i386) btsMem).trace) :=
  (emulate_bits (flatOps_conforms .i386) (flatOps_stdReads .i386) (bitHost_documented .i386) bts_decoded_five ⟨rfl, rfl⟩
    rfl).2 fun _ => by decide

/-- Bit 32 of the string at 0x100 is looked for in the cell at 0x100. -/
theorem bits_stay_in_cell : ¬∀ (arch : Arch) (h : (c : OpCall arch) → EmulMem arch → OpReply arch c × EmulMem arch)
    (cpu : HostCpu arch) (ctxt : X86EmulateCtxt arch) (m : EmulMem arch) (i : Insn arch) (op : Op2) (x : Exec arch),
    Conforms h (fun m => m) → StdReads h (fun m => m) → DocumentedBits cpu →
      ((decode ctxt).run h m).result = .ok i → i.IsBit op → ((emulate cpu true ctxt).run h m).result = .ok x →
        BitDone ctxt (x86EmulateMemop h cpu true ctxt m).2.1 m (x86EmulateMemop h cpu true ctxt m).2.2 i op
          (accesses ((emulate cpu true ctxt).run h m).trace) := by
  intro hall
  have hdone := hall .i386 (flatOps .i386) (bitHost .i386) (btsCtxt 32) btsMem btsInsn .bts _ (flatOps_conforms .i386)
    (flatOps_stdReads .i386) (bitHost_documented .i386) bts_decoded_next ⟨rfl, rfl⟩ rfl
  obtain ⟨v, hread⟩ := hdone.cell
  have hhead : (accesses ((emulate (bitHost .i386) true (btsCtxt 32)).run (flatOps .i386) btsMem).trace).head? =
      some ⟨.readEmulated 0x100 4, .ok (0 : BitVec 32)⟩ := rfl
  rw [hhead] at hread
  have haddr := (OpCall.readEmulated.inj (congrArg Sigma.fst (Option.some.inj hread))).1
  exact absurd haddr (by decide)

end LearnKvm
