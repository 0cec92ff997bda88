import LearnKvm.Emulate.Cmpxchg
import LearnKvm.Emulate.EffectiveAddress16

/-!
# Instructions that load a register (`x86_emulate.c`)

Arithmetic, mov, cmov and the extending moves with a memory source.  The emulator writes the register that the instruction
names wherever it takes no shortcut: movsx of a byte uses the pointer of a byte register, and a write of 32 bits in 64-bit
mode is left out where the low half does not change (`emulate_load`).
-/

namespace LearnKvm

open Calls

variable {arch : Arch} {σ : Type}

/-! ### The instructions -/

inductive Load where
  | alu (op : Op2)
  | mov | movsxd | cmov
  | movzx (word : Bool)
  | movsx (word : Bool)
  deriving DecidableEq

def wordBytes (word : Bool) : Nat := if word then 2 else 1

def aluOp (b : BitVec 8) : Op2 :=
  if b < 0x08 then .add else if b < 0x10 then .or else if b < 0x18 then .adc else if b < 0x20 then .sbb
  else if b < 0x28 then .and else if b < 0x30 then .sub else .xor

/-- The instructions that load a register, by the opcode maps. -/
def loadOf (twobyte : Bool) (b : BitVec 8) : Option Load :=
  if twobyte then
    if b &&& 0xf0 = 0x40 then some .cmov
    else if b = 0xb6 then some (.movzx false) else if b = 0xb7 then some (.movzx true)
    else if b = 0xbe then some (.movsx false) else if b = 0xbf then some (.movsx true)
    else none
  else if b < 0x38 ∧ (b &&& 7 = 2 ∨ b &&& 7 = 3) then some (.alu (aluOp b))
  else if b = 0x8a ∨ b = 0x8b then some .mov
  else if b = 0x63 then some .movsxd
  else none

/-- The destination is a byte. -/
def byteDest (twobyte : Bool) (b : BitVec 8) : Bool := !twobyte && b &&& 1 == 0

/-- What the arithmetic leaves in the destination. -/
def aluResult (op : Op2) (dst src eflags : ULong arch) : ULong arch :=
  let carry : ULong arch := if eflags.hasBit 0 then 1#_ else 0#_
  match op with
  | .add => dst + src
  | .or => dst ||| src
  | .adc => dst + src + carry
  | .sbb => dst - (src + carry)
  | .and => dst &&& src
  | .sub => dst - src
  | .xor => dst ^^^ src
  | _ => dst

/-- The condition of an opcode: CF, PF, ZF, SF and OF are the bits 0, 2, 6, 7 and 11. -/
def conditionHolds (b : BitVec 8) (eflags : ULong arch) : Bool :=
  let cond := (b &&& 15) >>> 1
  let even :=
    if cond = 0 then eflags.hasBit 11
    else if cond = 1 then eflags.hasBit 0
    else if cond = 2 then eflags.hasBit 6
    else if cond = 3 then eflags.hasBit 0 || eflags.hasBit 6
    else if cond = 4 then eflags.hasBit 7
    else if cond = 5 then eflags.hasBit 2
    else if cond = 6 then eflags.hasBit 7 != eflags.hasBit 11
    else eflags.hasBit 6 || eflags.hasBit 7 != eflags.hasBit 11
  even ^^ b.hasBit 0

/-- What is loaded, where `old` is the destination and `v` the memory operand. -/
def Load.result (b : BitVec 8) (old v eflags : ULong arch) : Load → ULong arch
  | .alu op => aluResult op old v eflags
  | .mov => v
  | .movsxd => signExtendBytes 4 v
  | .cmov => if conditionHolds b eflags then v else old
  | .movzx word => lowBytes (wordBytes word) v
  | .movsx word => signExtendBytes (wordBytes word) v

/-- The bytes of the memory operand. -/
def Load.sourceBytes (destBytes : Nat) : Load → Nat
  | .movsxd => 4
  | .movzx word | .movsx word => wordBytes word
  | _ => destBytes

namespace Encoding

def load (e : Encoding) : Option Load := loadOf e.twobyte e.opcode

/-- The register operand that ModRM.reg names. -/
def destination (ctxt : X86EmulateCtxt arch) (code : ByteMem.Mem arch.bitsPerLong) (e : Encoding) : RegPtr :=
  registerOperand (e.reg ctxt code) (byteDest e.twobyte e.opcode) e.rex.isSome

def destBytes (ctxt : X86EmulateCtxt arch) (e : Encoding) : Nat :=
  if byteDest e.twobyte e.opcode then 1 else (e.prefixesAt ctxt).opBytes

/-- The value of the destination register. -/
def oldValue (ctxt : X86EmulateCtxt arch) (code : ByteMem.Mem arch.bitsPerLong) (e : Encoding) : ULong arch :=
  operandValue ctxt.regs (e.destination ctxt code) (e.destBytes ctxt)

end Encoding

/-- The host's arithmetic has the documented results. -/
def DocumentedAlu (cpu : HostCpu arch) : Prop :=
  ∀ op ∈ [Op2.add, .or, .adc, .sbb, .and, .sub, .xor], ∀ bytes src dst eflags, OperandSize bytes →
    8 * bytes ≤ arch.bitsPerLong →
      lowBytes bytes (cpu.op2 op bytes src dst eflags).1 = lowBytes bytes (aluResult op dst src eflags)

/-- What a load does where `v` is in memory: the destination has the result, and no other register changes. -/
def LoadDone (code : ByteMem.Mem arch.bitsPerLong) (ctxt ctxt' : X86EmulateCtxt arch) (e : Encoding) (l : Load)
    (v : ULong arch) : Prop :=
  RegWritten ctxt.mode ctxt.regs ctxt'.regs (e.destination ctxt code) (e.destBytes ctxt)
    (l.result e.opcode (e.oldValue ctxt code) v ctxt.eflags)

/-- The bits 32 to 63 of the destination are 0, if a write of the operand clears them. -/
def Encoding.Extended (ctxt : X86EmulateCtxt arch) (code : ByteMem.Mem arch.bitsPerLong) (e : Encoding) : Prop :=
  e.destBytes ctxt = 4 → ctxt.mode = .prot64 → UpperZero ctxt.regs (e.destination ctxt code).reg

/-- The condition: movsx of a byte without REX to the registers 4 to 7 finds everything in place, and so does a write that
is left out. -/
structure LoadWhen (code : ByteMem.Mem arch.bitsPerLong) (ctxt : X86EmulateCtxt arch) (e : Encoding) (l : Load)
    (v : ULong arch) : Prop where
  /-- The result is stored at the second byte of another register. -/
  movsx : l = .movsx false → e.rex = none → 4 ≤ e.reg ctxt code →
    readReg ctxt.regs ⟨e.reg ctxt code &&& 3, true⟩ (if e.destBytes ctxt = 2 then 2 else arch.sizeofLong) =
        lowBytes (e.destBytes ctxt) (signExtendBytes 1 v) ∧
      e.oldValue ctxt code = lowBytes (e.destBytes ctxt) (signExtendBytes 1 v) ∧ e.Extended ctxt code
  /-- The arithmetic leaves the low half as it is. -/
  unchanged : ∀ op, l = .alu op →
    lowBytes (e.destBytes ctxt) (aluResult op (e.oldValue ctxt code) v ctxt.eflags) = e.oldValue ctxt code →
      e.Extended ctxt code
  /-- The condition of cmov is false. -/
  cmov : l = .cmov → conditionHolds e.opcode ctxt.eflags = false → e.Extended ctxt code

/-! ### The tables -/

/-- The loads among the one-byte opcodes. -/
theorem loadOf_onebyte {b : BitVec 8} {l : Load} (hl : loadOf false b = some l) :
    l = .alu (aluOp b) ∨ l = .mov ∨ l = .movsxd := by
  unfold loadOf at hl
  rw [if_neg Bool.false_ne_true] at hl
  split at hl
  · cases hl
    exact Or.inl rfl
  split at hl
  · cases hl
    exact Or.inr (Or.inl rfl)
  split at hl
  · cases hl
    exact Or.inr (Or.inr rfl)
  · cases hl

/-- The loads among the two-byte opcodes. -/
theorem loadOf_twobyte {b : BitVec 8} {l : Load} (hl : loadOf true b = some l) :
    l = .cmov ∨ (∃ word, l = .movzx word) ∨ ∃ word, l = .movsx word := by
  unfold loadOf at hl
  rw [if_pos rfl] at hl
  split at hl
  · cases hl
    exact Or.inl rfl
  split at hl
  · cases hl
    exact Or.inr (Or.inl ⟨false, rfl⟩)
  split at hl
  · cases hl
    exact Or.inr (Or.inl ⟨true, rfl⟩)
  split at hl
  · cases hl
    exact Or.inr (Or.inr ⟨false, rfl⟩)
  split at hl
  · cases hl
    exact Or.inr (Or.inr ⟨true, rfl⟩)
  · cases hl

theorem aluOp_mem (b : BitVec 8) : aluOp b ∈ [Op2.add, .or, .adc, .sbb, .and, .sub, .xor] := by
  unfold aluOp
  repeat' split
  all_goals decide

def Load.isAlu : Load → Bool
  | .alu _ => true
  | _ => false

/-- The decode flags of a load: a register and memory, the pointer of a byte register, Mov, and the size of the source. -/
def LoadFlags (b d : BitVec 8) (byte : Bool) (l : Load) : Prop :=
  d &&& dstMask = dstReg ∧ d &&& modRM ≠ 0 ∧
    (d &&& byteOp != 0 && !(b == 0xb6 || b == 0xb7)) = (byte || l == .movsx false) ∧
      (d &&& movFlag != 0) = !l.isAlu ∧
        d &&& srcMask = (if l = .movsxd then srcMem32 else if l = .movzx true ∨ l = .movsx true then srcMem16 else srcMem) ∧
          (d &&& byteOp != 0) = (byte || l == .movzx false || l == .movsx false)

instance (b d : BitVec 8) (byte : Bool) (l : Load) : Decidable (LoadFlags b d byte l) :=
  inferInstanceAs (Decidable (_ ∧ _))

theorem onebyte_load : ∀ b : BitVec 8, ∀ l ∈ loadOf false b,
    LoadFlags b (opcodeTable.getD b.toNat 0) (byteDest false b) l :=
  table_all (P := fun b d => ∀ l ∈ loadOf false b, LoadFlags b d (byteDest false b) l) opcodeTable_length
    (by decide +kernel)

theorem twobyte_load : ∀ b : BitVec 8, ∀ l ∈ loadOf true b,
    LoadFlags b (twobyteTable.getD b.toNat 0) (byteDest true b) l :=
  table_all (P := fun b d => ∀ l ∈ loadOf true b, LoadFlags b d (byteDest true b) l) twobyteTable_length
    (by decide +kernel)

/-! ### Runs -/

/-- The shadow state of a load that has read `v`.  `byte`: the pointer of a byte register is used. -/
def loadExec (ctxt : X86EmulateCtxt arch) (i : Insn arch) (byte : Bool) (bytes : Nat) (v : ULong arch) : Exec arch :=
  ⟨ctxt.regs, i.eip, ctxt.eflags, modrmRegOperand ctxt.regs i byte, ⟨.mem i.cr2, bytes, v, v⟩, i.isMov, i.lockPrefix⟩

/-- What a load computes. -/
def Load.exec (cpu : HostCpu arch) (i : Insn arch) (x : Exec arch) : Load → Exec arch
  | .alu op => x.emulate2op cpu op
  | .mov => x.setDst x.src.val
  | .movsxd => x.setDst (signExtendBytes 4 x.src.val)
  | .cmov => x.cmov i.b
  | .movzx word => { x with dst := { x.dst with bytes := i.opBytes, val := lowBytes (wordBytes word) x.src.val } }
  | .movsx word => { x with dst := { x.dst with bytes := i.opBytes, val := signExtendBytes (wordBytes word) x.src.val } }

section

variable {h : (c : OpCall arch) → σ → OpReply arch c × σ} {cpu : HostCpu arch} {hasCmpxchg8b : Bool}
  {ctxt : X86EmulateCtxt arch} {i : Insn arch} {l : Load} {x y : Exec arch} {t : σ}

theorem Insn.loadFlags (hl : loadOf i.twobyte i.b = some l) : LoadFlags i.b i.d (byteDest i.twobyte i.b) l := by
  cases ht : i.twobyte with
  | true =>
    rw [ht] at hl
    rw [Insn.d_twobyte ht]
    exact twobyte_load i.b l hl
  | false =>
    rw [ht] at hl
    rw [Insn.d_onebyte ht]
    exact onebyte_load i.b l hl

theorem alu_opcodes : ∀ b : BitVec 8, b < 0x38 ∧ (b &&& 7 = 2 ∨ b &&& 7 = 3) →
    b = 0x02 ∨ b = 0x03 ∨ b = 0x0a ∨ b = 0x0b ∨ b = 0x12 ∨ b = 0x13 ∨ b = 0x1a ∨ b = 0x1b ∨ b = 0x22 ∨ b = 0x23 ∨
      b = 0x2a ∨ b = 0x2b ∨ b = 0x32 ∨ b = 0x33 := by
  decide +kernel

theorem onebyteInsn_load (cpu : HostCpu arch) (ctxt : X86EmulateCtxt arch) (hl : loadOf false i.b = some l)
    (x : Exec arch) : onebyteInsn cpu ctxt i x =
      if l = .movsxd ∧ i.mode ≠ .prot64 then .fail .cannotEmulate else .ret (l.exec cpu i x) := by
  unfold loadOf at hl
  rw [if_neg Bool.false_ne_true] at hl
  by_cases halu : i.b < 0x38 ∧ (i.b &&& 7 = 2 ∨ i.b &&& 7 = 3)
  · rw [if_pos halu] at hl
    cases hl
    rw [if_neg fun hno => Load.noConfusion hno.1]
    unfold onebyteInsn
    rcases alu_opcodes i.b halu with hb | hb | hb | hb | hb | hb | hb | hb | hb | hb | hb | hb | hb | hb
    all_goals
      rw [hb]
      rfl
  rw [if_neg halu] at hl
  by_cases hmov : i.b = 0x8a ∨ i.b = 0x8b
  · rw [if_pos hmov] at hl
    cases hl
    rw [if_neg fun hno => Load.noConfusion hno.1]
    unfold onebyteInsn
    rcases hmov with hb | hb
    all_goals
      rw [hb]
      rfl
  rw [if_neg hmov] at hl
  by_cases hsxd : i.b = 0x63
  · rw [if_pos hsxd] at hl
    cases hl
    have hinsn : onebyteInsn cpu ctxt i x =
        if i.mode = .prot64 then .ret (x.setDst (signExtendBytes 4 x.src.val)) else .fail .cannotEmulate := by
      unfold onebyteInsn
      rw [hsxd]
      rfl
    rw [hinsn]
    by_cases hmode : i.mode = .prot64
    · rw [if_pos hmode, if_neg fun hno => hno.2 hmode]
      rfl
    · rw [if_neg hmode, if_pos ⟨rfl, hmode⟩]
  · rw [if_neg hsxd] at hl
    cases hl

theorem twobyteInsn_load (cpu : HostCpu arch) (ht : i.twobyte = true) (hl : loadOf true i.b = some l) (x : Exec arch) :
    twobyteInsn cpu i x = .ret (l.exec cpu i x) := by
  have hcases : i.b &&& 0xf0 = 0x40 → ¬ i.b = 0x01 ∧ inCase i.b 0x40 0x4f = true := by
    have hall : ∀ b : BitVec 8, b &&& 0xf0 = 0x40 → ¬ b = 0x01 ∧ inCase b 0x40 0x4f = true := by decide +kernel
    exact hall i.b
  unfold loadOf at hl
  rw [if_pos rfl] at hl
  by_cases hcmov : i.b &&& 0xf0 = 0x40
  · rw [if_pos hcmov] at hl
    cases hl
    unfold twobyteInsn
    dsimp only
    rw [if_neg (hcases hcmov).1, if_pos (hcases hcmov).2]
    rfl
  rw [if_neg hcmov] at hl
  have hbyte : ∀ {b : BitVec 8}, i.b = b → i.isByteOp = (twobyteTable.getD b.toNat 0 &&& byteOp != 0) := by
    rintro b rfl
    unfold Insn.isByteOp
    rw [Insn.d_twobyte ht]
  by_cases hb6 : i.b = 0xb6
  · rw [if_pos hb6] at hl
    cases hl
    unfold twobyteInsn
    rw [hbyte hb6, hb6]
    rfl
  rw [if_neg hb6] at hl
  by_cases hb7 : i.b = 0xb7
  · rw [if_pos hb7] at hl
    cases hl
    unfold twobyteInsn
    rw [hbyte hb7, hb7]
    rfl
  rw [if_neg hb7] at hl
  by_cases hbe : i.b = 0xbe
  · rw [if_pos hbe] at hl
    cases hl
    unfold twobyteInsn
    rw [hbyte hbe, hbe]
    rfl
  rw [if_neg hbe] at hl
  by_cases hbf : i.b = 0xbf
  · rw [if_pos hbf] at hl
    cases hl
    unfold twobyteInsn
    rw [hbyte hbf, hbf]
    rfl
  rw [if_neg hbf] at hl
  cases hl

theorem execute_load (cpu : HostCpu arch) (hasCmpxchg8b : Bool) (ctxt : X86EmulateCtxt arch)
    (hl : loadOf i.twobyte i.b = some l) :
    let byte := byteDest i.twobyte i.b
    let bytes := l.sourceBytes (if byte then 1 else i.opBytes)
    execute cpu hasCmpxchg8b ctxt i = Emul.readEmulated i.cr2 bytes >>= fun v =>
      if l = .movsxd ∧ i.mode ≠ .prot64 then .fail .cannotEmulate
      else .ret (l.exec cpu i (loadExec ctxt i (byte || l == .movsx false) bytes v)) := by
  intro byte bytes
  obtain ⟨hdst, -, hbyte, -, hsrc, hsize⟩ := Insn.loadFlags hl
  have himp : ¬ i.d &&& dstMask = implicitOps := by
    rw [hdst]
    decide
  have hoperand : i.operandBytes = if byte || l == .movzx false || l == .movsx false then 1 else i.opBytes := by
    unfold Insn.operandBytes Insn.isByteOp
    rw [hsize]
  have hfetch : fetchSrc ctxt i = fetchMemSrc i bytes i.eip := by
    unfold fetchSrc
    dsimp only
    rw [hsrc, hoperand]
    cases l with
    | movzx word =>
      cases word with
      | true => rfl
      | false =>
        simp only [beq_self_eq_true, Bool.or_true, Bool.true_or, if_true]
        rfl
    | movsx word =>
      cases word with
      | true => rfl
      | false =>
        simp only [beq_self_eq_true, Bool.or_true, if_true]
        rfl
    | alu op =>
      rw [show (byte || Load.alu op == .movzx false || Load.alu op == .movsx false) = byte by cases byte <;> rfl]
      rfl
    | mov =>
      rw [show (byte || Load.mov == .movzx false || Load.mov == .movsx false) = byte by cases byte <;> rfl]
      rfl
    | movsxd => rfl
    | cmov =>
      rw [show (byte || Load.cmov == .movzx false || Load.cmov == .movsx false) = byte by cases byte <;> rfl]
      rfl
  have hptr : (i.isByteOp && !(i.b == 0xb6 || i.b == 0xb7)) = (byte || l == .movsx false) := hbyte
  unfold execute fetchDst
  rw [if_neg himp, if_pos hdst, hptr, hfetch]
  show (fetchMemSrc i bytes i.eip >>= _) = _
  unfold fetchMemSrc
  rw [Prog.bind_assoc]
  apply congrArg (Emul.readEmulated i.cr2 bytes >>= ·)
  funext v
  show (if i.twobyte = true then twobyteInsn cpu i (loadExec ctxt i (byte || l == .movsx false) bytes v)
    else onebyteInsn cpu ctxt i (loadExec ctxt i (byte || l == .movsx false) bytes v)) = _
  cases ht : i.twobyte with
  | true =>
    rw [ht] at hl
    have hsxd : ¬ (l = .movsxd ∧ i.mode ≠ .prot64) := by
      rintro ⟨rfl, -⟩
      rcases loadOf_twobyte hl with h | ⟨word, h⟩ | ⟨word, h⟩ <;> cases h
    rw [if_pos rfl, twobyteInsn_load cpu ht hl, if_neg hsxd]
  | false =>
    rw [ht] at hl
    rw [if_neg Bool.false_ne_true, onebyteInsn_load cpu ctxt hl]

/-- A writeback to a register makes no call. -/
theorem writeback_regs {ptr : RegPtr} (hptr : y.dst.ptr = .reg ptr) (hx : ((writeback y).run h t).result = .ok x) :
    accesses ((writeback y).run h t).trace = [] ∧
      x.regs = if (y.mov || y.dst.origVal != y.dst.val) = true then writeRegister y.regs ptr y.dst.bytes y.dst.val
        else y.regs := by
  by_cases hw : (y.mov || y.dst.origVal != y.dst.val) = true
  · rw [writeback_reg hptr hw] at hx ⊢
    cases hx
    rw [if_pos hw]
    exact ⟨rfl, rfl⟩
  · rw [writeback_unchanged (Bool.eq_false_iff.2 hw)] at hx ⊢
    cases hx
    rw [if_neg hw]
    exact ⟨rfl, rfl⟩

/-- A load reads its operand, computes and writes a register. -/
theorem load_run (hl : loadOf i.twobyte i.b = some l)
    (hx : ((executeAndWriteback cpu hasCmpxchg8b ctxt i).run h t).result = .ok x) :
    let byte := byteDest i.twobyte i.b
    let bytes := l.sourceBytes (if byte then 1 else i.opBytes)
    ∃ v u, accesses ((executeAndWriteback cpu hasCmpxchg8b ctxt i).run h t).trace =
        ⟨.readEmulated i.cr2 bytes, .ok v⟩ ::
          accesses ((writeback (l.exec cpu i (loadExec ctxt i (byte || l == .movsx false) bytes v))).run h u).trace ∧
      ((writeback (l.exec cpu i (loadExec ctxt i (byte || l == .movsx false) bytes v))).run h u).result = .ok x := by
  intro byte bytes
  unfold executeAndWriteback at hx ⊢
  rw [execute_load cpu hasCmpxchg8b ctxt hl, Prog.bind_assoc] at hx ⊢
  obtain ⟨v, -, hrun⟩ := readEmulated_ok hx
  by_cases hfail : l = .movsxd ∧ i.mode ≠ .prot64
  · rw [hrun, if_pos hfail] at hx
    cases hx
  · rw [hrun, if_neg hfail] at hx ⊢
    exact ⟨v, _, rfl, hx⟩

end

/-! ### The destination -/

theorem Encoding.rexPrefix_bne {mode : X86EmulMode} {e : Encoding} (he : e.Valid mode) :
    (e.rexBits.rexPrefix != 0) = e.rex.isSome := by
  unfold Encoding.rexBits
  cases hr : e.rex with
  | none => rfl
  | some r =>
    have hrex := (he.rex r hr).2
    refine bne_iff_ne.2 fun hzero => ?_
    have hr0 : r = 0 := hzero
    rw [hr0] at hrex
    exact absurd hrex (by decide)

section

variable {h : (c : OpCall arch) → σ → OpReply arch c × σ} {code : ByteMem.Mem arch.bitsPerLong} {cpu : HostCpu arch}
  {ctxt : X86EmulateCtxt arch} {e : Encoding} {i : Insn arch} {l : Load} {x : Exec arch} {t : σ} {v : ULong arch}

theorem destination_high (hhigh : (e.destination ctxt code).high = true) : e.destBytes ctxt = 1 :=
  if_pos (registerOperand_byte hhigh)

/-- The pointer to the destination, but for movsx of a byte. -/
theorem modrmRegOperand_destination (he : e.Valid ctxt.mode) (has : i.DecodedAs ctxt code e) :
    modrmRegOperand ctxt.regs i (byteDest e.twobyte e.opcode) =
      ⟨.reg (e.destination ctxt code), e.destBytes ctxt, e.oldValue ctxt code, e.oldValue ctxt code⟩ := by
  have hrex : (i.rexPrefix == 0) = !e.rex.isSome := by
    rw [has.rexPrefix, ← Encoding.rexPrefix_bne he]
    simp [bne]
  have hptr : decodeRegister i.modrmReg (byteDest e.twobyte e.opcode && i.rexPrefix == 0) = e.destination ctxt code := by
    rw [hrex, decodeRegister_eq, has.modrmReg]
    rfl
  have hhigh : (e.destination ctxt code).high = true → e.destBytes ctxt = 1 := destination_high
  have hval := readReg_eq ctxt.regs hhigh
  unfold modrmRegOperand
  dsimp only
  rw [hptr, has.opBytes]
  exact congrArg (fun w => (⟨.reg (e.destination ctxt code), e.destBytes ctxt, w, w⟩ : Operand arch)) hval

theorem destBytes_size (hd : i.Decoded ctxt) (has : i.DecodedAs ctxt code e) :
    OperandSize (e.destBytes ctxt) ∧ 8 * e.destBytes ctxt ≤ arch.bitsPerLong := by
  have hlong : 32 ≤ arch.bitsPerLong := by cases arch <;> decide
  unfold Encoding.destBytes OperandSize
  rw [← has.opBytes]
  split
  · exact ⟨Or.inl rfl, by omega⟩
  · rcases hd.sizes.op with h2 | h4 | ⟨h8, hmode⟩
    · exact ⟨Or.inr (Or.inl h2), by omega⟩
    · exact ⟨Or.inr (Or.inr (Or.inl h4)), by omega⟩
    · have harch := hd.host hmode
      subst harch
      rw [h8]
      exact ⟨by decide, by decide⟩

theorem oldValue_low : lowBytes (e.destBytes ctxt) (e.oldValue ctxt code) = e.oldValue ctxt code := lowBytes_lowBytes _ _

/-- The upper half is the only thing to write where the low bytes are there already. -/
theorem loadDone_self {ctxt' : X86EmulateCtxt arch} (hregs : ctxt'.regs = ctxt.regs)
    (hres : lowBytes (e.destBytes ctxt) (l.result e.opcode (e.oldValue ctxt code) v ctxt.eflags) = e.oldValue ctxt code) :
    LoadDone code ctxt ctxt' e l v ↔ e.Extended ctxt code := by
  unfold LoadDone
  rw [hregs, regWritten_self_iff]
  exact and_iff_right hres.symm

/-- A write of the result. -/
theorem loadDone_written (hd : i.Decoded ctxt) (has : i.DecodedAs ctxt code e) {ctxt' : X86EmulateCtxt arch} {val : ULong arch}
    (hregs : ctxt'.regs = writeRegister ctxt.regs (e.destination ctxt code) (e.destBytes ctxt) val)
    (hval : lowBytes (e.destBytes ctxt) val =
      lowBytes (e.destBytes ctxt) (l.result e.opcode (e.oldValue ctxt code) v ctxt.eflags)) :
    LoadDone code ctxt ctxt' e l v := by
  unfold LoadDone
  rw [hregs]
  exact (writeRegister_written ctxt.regs val destination_high (destBytes_size hd has).1).congr hval

/-- The arithmetic on the destination and the memory operand. -/
theorem alu_value (hcpu : DocumentedAlu cpu) (hd : i.Decoded ctxt) (has : i.DecodedAs ctxt code e) {op : Op2}
    (hop : op ∈ [Op2.add, .or, .adc, .sbb, .and, .sub, .xor]) (v : ULong arch) :
    setLow (e.destBytes ctxt) (e.oldValue ctxt code)
        (cpu.op2 op (e.destBytes ctxt) v (e.oldValue ctxt code) (ctxt.eflags &&& BitVec.ofNat _ eflagsMask)).1 =
      lowBytes (e.destBytes ctxt) (aluResult op (e.oldValue ctxt code) v ctxt.eflags) := by
  obtain ⟨hsize, hwidth⟩ := destBytes_size hd has
  have hcarry : ∀ eflags : ULong arch, (eflags &&& BitVec.ofNat _ eflagsMask).hasBit 0 = eflags.hasBit 0 := by
    intro eflags
    have hmask : (BitVec.ofNat arch.bitsPerLong eflagsMask).hasBit 0 = true := by cases arch <;> rfl
    rw [BitVec.hasBit_and, hmask, Bool.and_true]
  have hresult : aluResult op (e.oldValue ctxt code) v (ctxt.eflags &&& BitVec.ofNat _ eflagsMask) =
      aluResult op (e.oldValue ctxt code) v ctxt.eflags := by
    unfold aluResult
    rw [hcarry]
  rw [← hresult, ← hcpu op hop (e.destBytes ctxt) v (e.oldValue ctxt code) _ hsize hwidth, ← oldValue_low]
  apply BitVec.eq_of_hasBit
  intro j _
  by_cases hj : j < 8 * e.destBytes ctxt
  · simp [hj]
  · simp [hj]

end

/-! ### Conditions -/

theorem Exec.flag_bit (x : Exec arch) {k : Nat} (hk : k < 32) : x.flag (1 <<< k) = x.eflags.hasBit k := by
  have hw : k < arch.bitsPerLong := by
    cases arch with
    | i386 => exact hk
    | x86_64 => exact hk.trans (by decide)
  unfold Exec.flag
  rw [ofNat_flag, Bits.and_one_shiftLeft_bne_zero hw]

theorem Exec.flag_or (x : Exec arch) (m n : Nat) : x.flag (m ||| n) = (x.flag m || x.flag n) := by
  unfold Exec.flag
  have hor : BitVec.ofNat arch.bitsPerLong (m ||| n) = BitVec.ofNat _ m ||| BitVec.ofNat _ n := by
    apply BitVec.eq_of_toNat_eq
    simp
  rw [hor, BitVec.and_or_distrib_left, Bool.eq_iff_iff]
  simp [BitVec.or_eq_zero_iff, imp_iff_not_or]

/-- cmov moves exactly if its condition holds. -/
theorem cmovCond_eq (b : BitVec 8) (x : Exec arch) : (cmovCond b x ^^ (b &&& 1 != 0)) = conditionHolds b x.eflags := by
  have hof : x.flag eflgOf = x.eflags.hasBit 11 := x.flag_bit (by decide)
  have hsf : x.flag eflgSf = x.eflags.hasBit 7 := x.flag_bit (by decide)
  have hzf : x.flag eflgZf = x.eflags.hasBit 6 := x.flag_bit (by decide)
  have hpf : x.flag eflgPf = x.eflags.hasBit 2 := x.flag_bit (by decide)
  have hcf : x.flag eflgCf = x.eflags.hasBit 0 := x.flag_bit (by decide)
  have hodd : (b &&& 1 != 0) = b.hasBit 0 := @Bits.and_one_shiftLeft_bne_zero 8 0 (by decide) b
  have hshift : (b &&& 15) >>> 1 = (b >>> 1) &&& 7 := BitVec.ushiftRight_and_distrib ..
  have hcases := and_seven_cases (b >>> 1)
  rw [← hshift] at hcases
  have hless : ∀ sf of : Bool, (!(sf != !of)) = (sf != of) := by decide
  rw [hodd]
  unfold conditionHolds cmovCond
  dsimp only
  rw [x.flag_or, hof, hsf, hzf, hpf, hcf, hless]
  rcases hcases with hc | hc | hc | hc | hc | hc | hc | hc
  all_goals
    rw [hc]
    rfl

section

variable {h : (c : OpCall arch) → σ → OpReply arch c × σ} {code : ByteMem.Mem arch.bitsPerLong} {cpu : HostCpu arch}
  {ctxt : X86EmulateCtxt arch} {e : Encoding} {i : Insn arch} {l : Load} {x : Exec arch} {t : σ} {v : ULong arch}
  {bytes : Nat}

/-- The arithmetic is right exactly if it changes the low half, or has nothing to extend. -/
theorem alu_iff (hcpu : DocumentedAlu cpu) (hd : i.Decoded ctxt) (he : e.Valid ctxt.mode) (has : i.DecodedAs ctxt code e)
    {op : Op2} (hl : loadOf e.twobyte e.opcode = some (.alu op))
    (hx : ((writeback ((Load.alu op).exec cpu i (loadExec ctxt i (byteDest e.twobyte e.opcode) bytes v))).run h t).result =
      .ok x) :
    LoadDone code ctxt { ctxt with regs := x.regs, rip := x.eip, eflags := x.eflags } e (.alu op) v ↔
      LoadWhen code ctxt e (.alu op) v := by
  have hop : op ∈ [Op2.add, .or, .adc, .sbb, .and, .sub, .xor] := by
    cases ht : e.twobyte with
    | true =>
      rw [ht] at hl
      rcases loadOf_twobyte hl with h | ⟨word, h⟩ | ⟨word, h⟩ <;> cases h
    | false =>
      rw [ht] at hl
      rcases loadOf_onebyte hl with h | h | h
      · cases h
        exact aluOp_mem e.opcode
      · cases h
      · cases h
  have hwrites : op.writesDst = true := by
    have hall : ∀ o ∈ [Op2.add, .or, .adc, .sbb, .and, .sub, .xor], o.writesDst = true := by decide
    exact hall op hop
  have hmov : i.isMov = false := by
    rw [← has.b, ← has.twobyte] at hl
    exact (Insn.loadFlags hl).2.2.2.1
  have hdst : ((Load.alu op).exec cpu i (loadExec ctxt i (byteDest e.twobyte e.opcode) bytes v)).dst =
      ⟨.reg (e.destination ctxt code), e.destBytes ctxt,
        lowBytes (e.destBytes ctxt) (aluResult op (e.oldValue ctxt code) v ctxt.eflags), e.oldValue ctxt code⟩ := by
    rw [← alu_value hcpu hd has hop]
    unfold Load.exec loadExec Exec.emulate2op
    dsimp only
    rw [modrmRegOperand_destination he has, if_pos hwrites]
    rfl
  obtain ⟨-, hregs⟩ := writeback_regs (congrArg Operand.ptr hdst) hx
  have hmov' : ((Load.alu op).exec cpu i (loadExec ctxt i (byteDest e.twobyte e.opcode) bytes v)).mov = false := hmov
  rw [hdst, hmov', Bool.false_or] at hregs
  by_cases hsame : lowBytes (e.destBytes ctxt) (aluResult op (e.oldValue ctxt code) v ctxt.eflags) = e.oldValue ctxt code
  · -- the write is left out
    rw [if_neg (by rw [hsame, bne_self_eq_false]; exact Bool.false_ne_true)] at hregs
    rw [loadDone_self hregs hsame]
    constructor
    · intro hext
      exact ⟨fun hl => (by cases hl), fun _ _ _ => hext, fun hl => (by cases hl)⟩
    · intro hwhen
      exact hwhen.unchanged op rfl hsame
  · rw [if_pos (bne_iff_ne.2 (Ne.symm hsame))] at hregs
    refine iff_of_true (loadDone_written hd has hregs (lowBytes_lowBytes _ _)) ?_
    refine ⟨fun hl => (by cases hl), fun o ho heq => ?_, fun hl => (by cases hl)⟩
    cases ho
    exact absurd heq hsame

/-- The moves store what they are to store. -/
theorem mov_iff (hd : i.Decoded ctxt) (he : e.Valid ctxt.mode) (has : i.DecodedAs ctxt code e)
    (hl : loadOf e.twobyte e.opcode = some l) (hmove : l = .mov ∨ l = .movsxd ∨ (∃ word, l = .movzx word) ∨ l = .movsx true)
    (hx : ((writeback (l.exec cpu i (loadExec ctxt i (byteDest e.twobyte e.opcode) bytes v))).run h t).result = .ok x) :
    LoadDone code ctxt { ctxt with regs := x.regs, rip := x.eip, eflags := x.eflags } e l v ↔
      LoadWhen code ctxt e l v := by
  have hmov : i.isMov = true := by
    rw [← has.b, ← has.twobyte] at hl
    have hflag := (Insn.loadFlags hl).2.2.2.1
    rcases hmove with rfl | rfl | ⟨word, rfl⟩ | rfl
    all_goals exact hflag
  have hwhen : LoadWhen code ctxt e l v := by
    rcases hmove with rfl | rfl | ⟨word, rfl⟩ | rfl
    all_goals exact ⟨fun hl => (by cases hl), fun _ hl => (by cases hl), fun hl => (by cases hl)⟩
  have hwide : (∃ word, l = .movzx word) ∨ l = .movsx true → i.opBytes = e.destBytes ctxt := by
    intro hext
    have htwo : e.twobyte = true := by
      cases ht : e.twobyte with
      | true => rfl
      | false =>
        rw [ht] at hl
        rcases hext with ⟨word, rfl⟩ | rfl
        all_goals rcases loadOf_onebyte hl with h | h | h <;> cases h
    unfold Encoding.destBytes byteDest
    rw [htwo, has.opBytes]
    rfl
  have hdst : (l.exec cpu i (loadExec ctxt i (byteDest e.twobyte e.opcode) bytes v)).dst =
      ⟨.reg (e.destination ctxt code), e.destBytes ctxt, l.result e.opcode (e.oldValue ctxt code) v ctxt.eflags,
        e.oldValue ctxt code⟩ := by
    rcases hmove with rfl | rfl | ⟨word, rfl⟩ | rfl
    all_goals
      unfold Load.exec loadExec
      dsimp only
      rw [modrmRegOperand_destination he has]
    · rfl
    · rfl
    · rw [hwide (Or.inl ⟨word, rfl⟩)]
      rfl
    · rw [hwide (Or.inr rfl)]
      rfl
  have hmov' : (l.exec cpu i (loadExec ctxt i (byteDest e.twobyte e.opcode) bytes v)).mov = true := by
    rcases hmove with rfl | rfl | ⟨word, rfl⟩ | rfl
    all_goals exact hmov
  have hkept : (l.exec cpu i (loadExec ctxt i (byteDest e.twobyte e.opcode) bytes v)).regs = ctxt.regs := by
    rcases hmove with rfl | rfl | ⟨word, rfl⟩ | rfl
    all_goals rfl
  obtain ⟨-, hregs⟩ := writeback_regs (congrArg Operand.ptr hdst) hx
  rw [hdst, hmov', Bool.true_or, if_pos rfl, hkept] at hregs
  exact iff_of_true (loadDone_written hd has hregs rfl) hwhen

/-- cmov is right exactly if it moves, or has nothing to extend. -/
theorem cmov_iff (hd : i.Decoded ctxt) (he : e.Valid ctxt.mode) (has : i.DecodedAs ctxt code e)
    (hx : ((writeback (Load.cmov.exec cpu i (loadExec ctxt i (byteDest e.twobyte e.opcode) bytes v))).run h t).result =
      .ok x) :
    LoadDone code ctxt { ctxt with regs := x.regs, rip := x.eip, eflags := x.eflags } e .cmov v ↔
      LoadWhen code ctxt e .cmov v := by
  have hcond : (cmovCond i.b (loadExec ctxt i (byteDest e.twobyte e.opcode) bytes v) ^^ (i.b &&& 1 != 0)) =
      conditionHolds e.opcode ctxt.eflags := by
    rw [cmovCond_eq, has.b]
    rfl
  have hdst : (Load.cmov.exec cpu i (loadExec ctxt i (byteDest e.twobyte e.opcode) bytes v)).dst =
      ⟨.reg (e.destination ctxt code), e.destBytes ctxt, v, v⟩ := by
    unfold Load.exec loadExec Exec.cmov
    dsimp only
    rw [modrmRegOperand_destination he has]
  obtain ⟨-, hregs⟩ := writeback_regs (congrArg Operand.ptr hdst) hx
  have hmov : (Load.cmov.exec cpu i (loadExec ctxt i (byteDest e.twobyte e.opcode) bytes v)).mov =
      conditionHolds e.opcode ctxt.eflags := hcond
  rw [hdst, hmov, bne_self_eq_false, Bool.or_false] at hregs
  by_cases hmoves : conditionHolds e.opcode ctxt.eflags = true
  · rw [if_pos hmoves] at hregs
    refine iff_of_true (loadDone_written hd has hregs ?_) ?_
    · exact congrArg (lowBytes _) (if_pos hmoves).symm
    · refine ⟨fun hl => (by cases hl), fun _ hl => (by cases hl), fun _ hno => ?_⟩
      rw [hmoves] at hno
      cases hno
  · rw [if_neg hmoves] at hregs
    have hold : lowBytes (e.destBytes ctxt) (Load.cmov.result e.opcode (e.oldValue ctxt code) v ctxt.eflags) =
        e.oldValue ctxt code := (congrArg (lowBytes _) (if_neg hmoves)).trans oldValue_low
    rw [loadDone_self hregs hold]
    exact ⟨fun hext => ⟨fun hl => (by cases hl), fun _ hl => (by cases hl), fun _ _ => hext⟩,
      fun hwhen => hwhen.cmov rfl (Bool.eq_false_iff.2 hmoves)⟩

/-- movsx of a byte has the pointer of a byte register. -/
theorem movsx_iff (hd : i.Decoded ctxt) (he : e.Valid ctxt.mode) (has : i.DecodedAs ctxt code e) (ht : e.twobyte = true)
    (hmov : i.isMov = true)
    (hx : ((writeback ((Load.movsx false).exec cpu i (loadExec ctxt i true bytes v))).run h t).result = .ok x) :
    LoadDone code ctxt { ctxt with regs := x.regs, rip := x.eip, eflags := x.eflags } e (.movsx false) v ↔
      LoadWhen code ctxt e (.movsx false) v := by
  have hbyte : byteDest e.twobyte e.opcode = false := by
    unfold byteDest
    rw [ht]
    rfl
  have hbytes : i.opBytes = e.destBytes ctxt := by
    unfold Encoding.destBytes
    rw [hbyte, has.opBytes]
    rfl
  have hrex : (i.rexPrefix == 0) = !e.rex.isSome := by
    rw [has.rexPrefix, ← Encoding.rexPrefix_bne he]
    simp [bne]
  have hdst : ((Load.movsx false).exec cpu i (loadExec ctxt i true bytes v)).dst.ptr =
      .reg (registerOperand (e.reg ctxt code) true e.rex.isSome) := by
    rw [← decodeRegister_eq, ← hrex, ← has.modrmReg]
    rfl
  obtain ⟨-, hregs⟩ := writeback_regs hdst hx
  have hmov' : ((Load.movsx false).exec cpu i (loadExec ctxt i true bytes v)).mov = true := hmov
  rw [hmov', Bool.true_or, if_pos rfl] at hregs
  have hwrite : x.regs = writeRegister ctxt.regs (registerOperand (e.reg ctxt code) true e.rex.isSome) (e.destBytes ctxt)
      (signExtendBytes 1 v) := by
    rw [hregs, ← hbytes]
    rfl
  have hdest : e.destination ctxt code = ⟨e.reg ctxt code, false⟩ := by
    unfold Encoding.destination
    rw [hbyte]
    rfl
  by_cases hhigh : e.rex = none ∧ 4 ≤ e.reg ctxt code
  · obtain ⟨hnone, hfour⟩ := hhigh
    have hreg : e.reg ctxt code < 8 := by
      unfold Encoding.reg Encoding.rexBit
      rw [hnone]
      exact rexReg_lt _
    have hsecond : ∀ r : RegIndex, 4 ≤ r → r < 8 →
        registerOperand r true false = ⟨r &&& 3, true⟩ ∧ r ≠ r &&& 3 ∧ r ≠ (r &&& 3) + 1 := by decide
    obtain ⟨hptr, hne, hnext⟩ := hsecond _ hfour hreg
    have hsize : e.destBytes ctxt = 2 ∨ e.destBytes ctxt = 4 ∨ e.destBytes ctxt = 8 := by
      rw [← hbytes]
      rcases hd.sizes.op with h2 | h4 | ⟨h8, -⟩
      · exact Or.inl h2
      · exact Or.inr (Or.inl h4)
      · exact Or.inr (Or.inr h8)
    have hwidth := (destBytes_size hd has).2
    have hfit : 8 * (if e.destBytes ctxt = 2 then 2 else arch.sizeofLong) ≤ arch.bitsPerLong := by
      split <;> cases arch <;> decide
    have hover : e.destBytes ctxt ≤ if e.destBytes ctxt = 2 then 2 else arch.sizeofLong := by
      have hlong : 8 * arch.sizeofLong = arch.bitsPerLong := by cases arch <;> decide
      split <;> omega
    -- the destination is not touched
    rw [hnone, Option.isSome_none, hptr, writeRegister_eq_store hsize] at hwrite
    have hkept : x.regs (e.destination ctxt code).reg = ctxt.regs (e.destination ctxt code).reg := by
      rw [hwrite, hdest]
      exact storeReg_other hne hnext
    have hlow : ∀ n, e.destBytes ctxt ≤ n → lowBytes n (lowBytes (e.destBytes ctxt) (signExtendBytes 1 v)) =
        lowBytes (e.destBytes ctxt) (signExtendBytes 1 v) := by
      intro n hn
      apply BitVec.eq_of_hasBit
      intro j _
      rw [hasBit_lowBytes, hasBit_lowBytes]
      by_cases hj : j < 8 * e.destBytes ctxt
      · simp [hj, show j < 8 * n by omega]
      · simp [hj]
    have hsame : storeReg ctxt.regs ⟨e.reg ctxt code &&& 3, true⟩ (if e.destBytes ctxt = 2 then 2 else arch.sizeofLong)
          (lowBytes (e.destBytes ctxt) (signExtendBytes 1 v)) = ctxt.regs ↔ _ := storeReg_eq_self_iff rfl hfit
    rw [← hwrite, hlow _ hover] at hsame
    unfold LoadDone
    dsimp only
    rw [regWritten_elsewhere hkept, regWritten_self_iff, hsame]
    exact ⟨fun hdone => ⟨fun _ _ _ => hdone, fun _ hl => (by cases hl), fun hl => (by cases hl)⟩,
      fun hwhen => hwhen.movsx rfl hnone hfour⟩
  · have hptr : registerOperand (e.reg ctxt code) true e.rex.isSome = e.destination ctxt code := by
      rw [hdest]
      cases hr : e.rex with
      | some r => rfl
      | none =>
        have hfour : ¬ 4 ≤ e.reg ctxt code := fun hno => hhigh ⟨hr, hno⟩
        have hall : ∀ r : RegIndex, ¬ 4 ≤ r → registerOperand r true false = ⟨r, false⟩ := by decide
        exact hall _ hfour
    rw [hptr] at hwrite
    refine iff_of_true (loadDone_written hd has hwrite rfl) ⟨fun _ hnone hfour => absurd ⟨hnone, hfour⟩ hhigh, ?_, ?_⟩
    · intro op hl
      cases hl
    · intro hl
      cases hl

theorem Encoding.load_modrm (hl : e.load = some l) : e.HasModrm := by
  unfold Encoding.load at hl
  unfold Encoding.HasModrm Encoding.d
  cases ht : e.twobyte with
  | true =>
    rw [ht] at hl
    exact (twobyte_load e.opcode l hl).2.1
  | false =>
    rw [ht] at hl
    exact (onebyte_load e.opcode l hl).2.1

theorem load_ptr (byte : Bool) : (l.exec cpu i (loadExec ctxt i byte bytes v)).dst.ptr =
    .reg (decodeRegister i.modrmReg (byte && i.rexPrefix == 0)) := by
  cases l <;> rfl

/-- **Destination registers**: for every mode, prefixes, registers and memory value, a committed load reads its operand,
writes the result to the register that it names and changes no other, exactly if it is not a movsx of a byte without REX to
the registers 4 to 7 (unless everything is in place already), and a write of 32 bits in 64-bit mode that is left out finds
the upper half 0. -/
theorem emulate_load {hasCmpxchg8b : Bool} {I : σ → Prop} {s : σ} (hcpu : DocumentedAlu cpu) (hf : Fetches h code I)
    (hs : I s) (he : e.Valid ctxt.mode) (hat : CodeAt code (ctxt.rip + ctxt.csBase) e.bytes)
    (hmod : modField (e.modrm ctxt code) ≠ 3) (hl : e.load = some l) (hi : ((decode ctxt).run h s).result = .ok i)
    (hx : ((emulate cpu hasCmpxchg8b ctxt).run h s).result = .ok x) :
    ∃ v, accesses ((emulate cpu hasCmpxchg8b ctxt).run h s).trace =
        [⟨.readEmulated i.cr2 (l.sourceBytes (e.destBytes ctxt)), .ok v⟩] ∧
      (LoadDone code ctxt (x86EmulateMemop h cpu hasCmpxchg8b ctxt s).2.1 e l v ↔ LoadWhen code ctxt e l v) := by
  have has := decoded_as hf hs he hat (Encoding.load_modrm hl) hmod hi
  have hd := decoded hi
  obtain ⟨hres, hcall⟩ := x86EmulateMemop_ok hi hx
  have hl' : loadOf i.twobyte i.b = some l := by
    rw [has.b, has.twobyte]
    exact hl
  obtain ⟨v, u, hacc, hwb⟩ := load_run hl' hres
  have hnil := (writeback_regs (load_ptr ..) hwb).1
  rw [hnil] at hacc
  rw [has.b, has.twobyte, has.opBytes] at hacc hwb
  refine ⟨v, ?_, ?_⟩
  · rw [emulate_accesses cpu hasCmpxchg8b hi]
    exact hacc
  · rw [hcall]
    -- only movsx of a byte has the pointer of a byte register
    have hbyte : ¬ l = .movsx false →
        (byteDest e.twobyte e.opcode || l == .movsx false) = byteDest e.twobyte e.opcode := by
      intro hne
      rw [beq_eq_false_iff_ne.2 hne, Bool.or_false]
    cases l with
    | alu op =>
      rw [hbyte (by simp)] at hwb
      exact alu_iff hcpu hd he has hl hwb
    | mov =>
      rw [hbyte (by decide)] at hwb
      exact mov_iff hd he has hl (Or.inl rfl) hwb
    | movsxd =>
      rw [hbyte (by decide)] at hwb
      exact mov_iff hd he has hl (Or.inr (Or.inl rfl)) hwb
    | cmov =>
      rw [hbyte (by decide)] at hwb
      exact cmov_iff hd he has hwb
    | movzx word =>
      rw [hbyte (by simp)] at hwb
      exact mov_iff hd he has hl (Or.inr (Or.inr (Or.inl ⟨word, rfl⟩))) hwb
    | movsx word =>
      cases word with
      | true =>
        rw [hbyte (by decide)] at hwb
        exact mov_iff hd he has hl (Or.inr (Or.inr (Or.inr rfl))) hwb
      | false =>
        have htwo : e.twobyte = true := by
          cases ht : e.twobyte with
          | true => rfl
          | false =>
            unfold Encoding.load at hl
            rw [ht] at hl
            rcases loadOf_onebyte hl with h | h | h <;> cases h
        have hpointer : (byteDest e.twobyte e.opcode || Load.movsx false == .movsx false) = true := Bool.or_true _
        rw [hpointer] at hwb
        exact movsx_iff hd he has htwo (Insn.loadFlags hl').2.2.2.1 hwb

end

/-! ### An addition of 0 -/

/-- A host with the documented results. -/
def aluHost (arch : Arch) : HostCpu arch :=
  ⟨fun op _ src dst eflags => (aluResult op dst src eflags, eflags), fun _ _ dst eflags => (dst, eflags)⟩

theorem aluHost_documented (arch : Arch) : DocumentedAlu (aluHost arch) := fun _ _ _ _ _ _ _ _ => rfl

/-- `add 0(%rip), %eax`. -/
def addRip : Encoding := ⟨[], none, false, 0x03⟩

def addRipCode : EmulMem .x86_64 := codeAtZero .x86_64 [0x03, 0x05]

def addRipCtxt (rax : BitVec 64) : X86EmulateCtxt .x86_64 :=
  { flatCtxt .x86_64 .prot64 with regs := fun r => if r = vcpuRegsRax then rax else 0#64 }

theorem addRip_valid : addRip.Valid .prot64 where
  legacy := by simp [addRip]
  rex := by simp [addRip]
  first := by decide
  noRex := by decide
  onebyte := by decide

def addRipInsn : Insn .x86_64 := { movRipInsn with b := 0x03 }

theorem emulate_load_small : ∃ v, accesses ((emulate (aluHost .x86_64) true (addRipCtxt 0)).run (flatOps .x86_64)
        addRipCode).trace = [⟨.readEmulated addRipInsn.cr2 ((Load.alu .add).sourceBytes (addRip.destBytes (addRipCtxt 0))),
          .ok v⟩] ∧
      (LoadDone addRipCode (addRipCtxt 0)
        (x86EmulateMemop (flatOps .x86_64) (aluHost .x86_64) true (addRipCtxt 0) addRipCode).2.1 addRip (.alu .add) v ↔
          LoadWhen addRipCode (addRipCtxt 0) addRip (.alu .add) v) :=
  emulate_load (aluHost_documented .x86_64) (flatOps_fetches addRipCode) rfl addRip_valid ⟨rfl, trivial⟩ (by decide) rfl
    rfl rfl

/-- The memory operand is 0 and EAX is 0, so nothing is written, and the upper half of RAX stays. -/
theorem add_keeps_upper : ¬∀ (arch : Arch) (h : (c : OpCall arch) → EmulMem arch → OpReply arch c × EmulMem arch)
    (code : EmulMem arch) (I : EmulMem arch → Prop) (cpu : HostCpu arch) (ctxt : X86EmulateCtxt arch) (e : Encoding)
    (l : Load) (m : EmulMem arch) (i : Insn arch) (x : Exec arch), DocumentedAlu cpu → Fetches h code I → I m →
      e.Valid ctxt.mode → CodeAt code (ctxt.rip + ctxt.csBase) e.bytes → modField (e.modrm ctxt code) ≠ 3 →
        e.load = some l → ((decode ctxt).run h m).result = .ok i → ((emulate cpu true ctxt).run h m).result = .ok x →
          ∃ v, accesses ((emulate cpu true ctxt).run h m).trace =
              [⟨.readEmulated i.cr2 (l.sourceBytes (e.destBytes ctxt)), .ok v⟩] ∧
            LoadDone code ctxt (x86EmulateMemop h cpu true ctxt m).2.1 e l v := by
  intro hall
  obtain ⟨v, -, hdone⟩ := hall .x86_64 (flatOps .x86_64) addRipCode (· = addRipCode) (aluHost .x86_64)
    (addRipCtxt 0xffffffff00000000) addRip (.alu .add) addRipCode addRipInsn _ (aluHost_documented .x86_64)
    (flatOps_fetches addRipCode) rfl addRip_valid ⟨rfl, trivial⟩ (by decide) rfl rfl rfl
  exact absurd (hdone.extended rfl rfl 32 (by decide)) (by decide)

end LearnKvm
