import LearnKvm.Emulate.PrefixSets

/-!
# Pop to memory (`x86_emulate.c`)

Opcode `8F` has three sizes: of the operand, of the address and of the stack.  The emulator reads 8 bytes in 64-bit mode
whatever the prefixes, moves as much of the stack pointer as an address is wide, and stores at the address that the
decoder has found before the stack pointer moved.  So a pop is right exactly where the first two come to the same and the
operand is not based on the stack pointer (`emulate_pop`).
-/

namespace LearnKvm

open Calls

variable {arch : Arch} {σ : Type} {h : (c : OpCall arch) → σ → OpReply arch c × σ} {cpu : HostCpu arch}
  {hasCmpxchg8b : Bool} {ctxt : X86EmulateCtxt arch} {code : EmulMem arch} {I : σ → Prop} {e : Encoding} {s : σ}

/-- The width of the stack pointer. -/
def stackSize : X86EmulMode → Nat
  | .real | .prot16 => 2
  | .prot32 => 4
  | .prot64 => 8

/-- The operand size of a pop: 64-bit mode has no pop of 4 bytes. -/
def stackOperandSize (mode : X86EmulMode) (wide override : Bool) : Nat :=
  if mode = .prot64 then if override && !wide then 2 else 8 else operandSize mode wide override

namespace Encoding

def popBytes (ctxt : X86EmulateCtxt arch) (e : Encoding) : Nat :=
  stackOperandSize ctxt.mode e.wide (e.legacy.contains 0x66)

theorem popBytes_eq (ctxt : X86EmulateCtxt arch) (e : Encoding) :
    e.popBytes ctxt = stackOperandSize ctxt.mode e.wide (decide (0x66 ∈ e.legacy)) := by
  unfold popBytes
  rw [List.contains_eq_mem]

/-- The registers after a pop. -/
def poppedRegs (ctxt : X86EmulateCtxt arch) (e : Encoding) : RegIndex → ULong arch :=
  Function.update ctxt.regs vcpuRegsRsp (setLow (stackSize ctxt.mode) (ctxt.regs vcpuRegsRsp)
    (ctxt.regs vcpuRegsRsp + BitVec.ofNat _ (e.popBytes ctxt)))

/-- The offset of the memory operand by the tables of the architecture, with some registers. -/
def operandOffset (ctxt : X86EmulateCtxt arch) (code : EmulMem arch) (e : Encoding) (regs : RegIndex → ULong arch) :
    ULong arch :=
  if e.adBytes ctxt = 2 then (eaForm16 (e.modrm ctxt code)).offset regs code (e.modrmAddr ctxt)
  else (e.formAt ctxt code).offset regs code (e.modrmAddr ctxt)
    (ctxt.rip + BitVec.ofNat _ (e.bytes.length + (e.formAt ctxt code).length))

/-- An offset in the segment of the memory operand. -/
def operandAddress (ctxt : X86EmulateCtxt arch) (code : EmulMem arch) (e : Encoding) (offset : ULong arch) : ULong arch :=
  if e.adBytes ctxt = 2 then
    lowBytes 4 (offset + ctxt.base (e.segment.getD (eaForm16 (e.modrm ctxt code)).segment))
  else if e.adBytes ctxt = 4 then lowBytes 4 (offset + modrmBase ctxt e.segment)
  else offset + modrmBase ctxt e.segment

end Encoding

/-- A pop has read its operand at the stack pointer, moved the stack pointer, and stored the operand at the address with
the moved stack pointer. -/
structure PopDone (h : (c : OpCall arch) → σ → OpReply arch c × σ) (cpu : HostCpu arch) (hasCmpxchg8b : Bool)
    (ctxt : X86EmulateCtxt arch) (code : EmulMem arch) (s : σ) (e : Encoding) : Prop where
  calls : ∃ v, ((emulate cpu hasCmpxchg8b ctxt).run h s).trace = ((decode ctxt).run h s).trace ++ [
    ⟨.readStd (ctxt.ssBase + lowBytes (stackSize ctxt.mode) (ctxt.regs vcpuRegsRsp)) (e.popBytes ctxt), .ok v⟩,
    ⟨.writeEmulated (e.operandAddress ctxt code (e.operandOffset ctxt code (e.poppedRegs ctxt))) v (e.popBytes ctxt), .ok ()⟩]
  regs : (x86EmulateMemop h cpu hasCmpxchg8b ctxt s).2.1.regs = e.poppedRegs ctxt
  eflags : (x86EmulateMemop h cpu hasCmpxchg8b ctxt s).2.1.eflags = ctxt.eflags

/-- The stack pointer and the one behind the operand lie below a bound for all widths. -/
def StackFits (ctxt : X86EmulateCtxt arch) (e : Encoding) : Prop :=
  (ctxt.regs vcpuRegsRsp).toNat % 2 ^ (8 * max (e.adBytes ctxt) (stackSize ctxt.mode)) + e.popBytes ctxt <
    2 ^ (8 * min (e.adBytes ctxt) (stackSize ctxt.mode))

/-- When a pop is right. -/
structure PopWhen (ctxt : X86EmulateCtxt arch) (code : EmulMem arch) (e : Encoding) : Prop where
  /-- 64-bit mode ignores the prefix 66. -/
  wide : ctxt.mode = .prot64 → 0x66 ∈ e.legacy → e.wide = true
  /-- Elsewhere a second prefix 66 takes the first one back. -/
  odd : ctxt.mode ≠ .prot64 → 0x66 ∈ e.legacy → Odd (e.legacy.count 0x66)
  /-- The stack pointer is as wide as an address. -/
  stack : e.adBytes ctxt = stackSize ctxt.mode ∨ StackFits ctxt e
  /-- The operand is not based on the stack pointer. -/
  base : e.adBytes ctxt ≠ 2 → (e.formAt ctxt code).base ≠ some vcpuRegsRsp
  /-- In the rows without base that have REX.B, R13 is taken for what is there. -/
  hidden : e.HiddenDisp (e.modrm ctxt code) (e.sib ctxt code) →
    lowBytes (e.adBytes ctxt) (ctxt.regs 13) = lowBytes (e.adBytes ctxt)
      (dispAt code (e.modrmAddr ctxt + BitVec.ofNat _ (1 + (e.formAt ctxt code).sibBytes)) 4 +
        if (e.formAt ctxt code).ripRelative then
          ctxt.rip + BitVec.ofNat _ (e.bytes.length + (e.formAt ctxt code).length) else 0#_)
  /-- A locked pop would be an exchange. -/
  lock : 0xf0 ∉ e.legacy

/-! ### What the emulator does -/

theorem pop_table : opcodeTable.getD (0x8f : BitVec 8).toNat 0 = dstMem ||| srcNone ||| modRM ||| movFlag := rfl

section

variable {i : Insn arch} {x : Exec arch} {t : σ}

/-- The bytes that the emulator pops. -/
def Insn.popBytes (i : Insn arch) : Nat := if i.mode = .prot64 then 8 else i.opBytes

/-- What the emulator makes of the stack pointer. -/
def Insn.popped (ctxt : X86EmulateCtxt arch) (i : Insn arch) : ULong arch :=
  setLow i.adBytes (ctxt.regs vcpuRegsRsp) (ctxt.regs vcpuRegsRsp + BitVec.ofNat _ i.popBytes)

/-- The store of the emulator. -/
def Insn.popStore (i : Insn arch) (v : ULong arch) : Event (OpReply arch) :=
  if i.lockPrefix then ⟨.cmpxchgEmulated i.cr2 0#_ v i.popBytes, .ok ()⟩ else ⟨.writeEmulated i.cr2 v i.popBytes, .ok ()⟩

theorem execute_pop (cpu : HostCpu arch) (hasCmpxchg8b : Bool) (ctxt : X86EmulateCtxt arch) (ht : i.twobyte = false)
    (hb : i.b = 0x8f) : execute cpu hasCmpxchg8b ctxt i = popInsn ctxt i
      ⟨ctxt.regs, i.eip, ctxt.eflags, ⟨.mem i.cr2, i.opBytes, 0#_, 0#_⟩, noOperand, true, i.lockPrefix⟩ := by
  have hd : i.d = dstMem ||| srcNone ||| modRM ||| movFlag := by
    rw [Insn.d_onebyte ht, hb, pop_table]
  have hmov : i.isMov = true := by
    unfold Insn.isMov
    rw [hd]
    decide
  have hbytes : i.operandBytes = i.opBytes := by
    unfold Insn.operandBytes Insn.isByteOp
    rw [hd]
    exact if_neg (by decide)
  have hdst : fetchDst ctxt i = .ret ⟨.mem i.cr2, i.opBytes, 0#_, 0#_⟩ := by
    unfold fetchDst
    rw [hd, if_neg (by decide), if_pos hmov, hbytes]
    rfl
  have hsrc : fetchSrc ctxt i = .ret (noOperand, i.eip) := by
    unfold fetchSrc
    rw [hd]
    rfl
  unfold execute
  rw [hd, if_neg (by decide), hdst, Prog.ret_bind, hsrc, Prog.ret_bind]
  dsimp only
  rw [if_neg (by rw [ht]; exact Bool.false_ne_true), hmov]
  unfold onebyteInsn
  rw [hb]
  rfl

theorem pop_run (ht : i.twobyte = false) (hb : i.b = 0x8f)
    (hx : ((executeAndWriteback cpu hasCmpxchg8b ctxt i).run h t).result = .ok x) :
    (∃ v, ((executeAndWriteback cpu hasCmpxchg8b ctxt i).run h t).trace = [
      ⟨.readStd (ctxt.ssBase + lowBytes i.adBytes (ctxt.regs vcpuRegsRsp)) i.popBytes, .ok v⟩, i.popStore v]) ∧
    x.regs = Function.update ctxt.regs vcpuRegsRsp (i.popped ctxt) ∧ x.eflags = ctxt.eflags := by
  have hexec : executeAndWriteback cpu hasCmpxchg8b ctxt i =
      Emul.readStd (registerAddress i.adBytes ctxt.ssBase (ctxt.regs vcpuRegsRsp)) i.popBytes >>= fun v =>
        writeback (Exec.incrementReg ⟨ctxt.regs, i.eip, ctxt.eflags, ⟨.mem i.cr2, i.popBytes, v, 0#_⟩, noOperand, true,
          i.lockPrefix⟩ i.adBytes vcpuRegsRsp i.popBytes) := by
    unfold executeAndWriteback
    rw [execute_pop cpu hasCmpxchg8b ctxt ht hb]
    unfold popInsn
    rw [Prog.bind_assoc]
    rfl
  rw [hexec] at hx ⊢
  obtain ⟨v, -, hrun⟩ := readStd_ok hx
  rw [hrun] at hx ⊢
  rw [Exec.incrementReg_eq] at hx ⊢
  obtain ⟨rfl, htrace⟩ := writeback_trace rfl rfl hx
  refine ⟨⟨v, ?_⟩, rfl, rfl⟩
  dsimp only
  rw [htrace, registerAddress_eq]
  rfl

end

/-! ### Stack pointers of two widths -/

theorem lowBytes_eq_lowBytes_iff {m n : Nat} (hmn : m ≤ n) (x : ULong arch) :
    lowBytes n x = lowBytes m x ↔ x.toNat % 2 ^ (8 * n) < 2 ^ (8 * m) := by
  have hdvd : 2 ^ (8 * m) ∣ 2 ^ (8 * n) := Nat.pow_dvd_pow 2 (Nat.mul_le_mul_left 8 hmn)
  rw [← BitVec.toNat_inj, lowBytes_toNat, lowBytes_toNat]
  constructor
  · intro heq
    rw [heq]
    exact Nat.mod_lt _ (Nat.two_pow_pos _)
  · intro hlt
    rw [← Nat.mod_mod_of_dvd _ hdvd, Nat.mod_eq_of_lt hlt]

/-- Between the two widths the old value has no bits. -/
theorem setLow_eq_setLow_iff {m n : Nat} {old : ULong arch} (hold : lowBytes n old = lowBytes m old) (x : ULong arch) :
    setLow n old x = setLow m old x ↔ lowBytes n x = lowBytes m x := by
  have hbit : ∀ j, (decide (j < 8 * n) && old.hasBit j) = (decide (j < 8 * m) && old.hasBit j) := by
    intro j
    have hj := congrArg (fun v => BitVec.hasBit v j) hold
    simpa only [hasBit_lowBytes, Bool.and_comm] using hj
  constructor
  · intro heq
    apply BitVec.eq_of_hasBit
    intro j _
    have hj := congrArg (fun v => BitVec.hasBit v j) heq
    have hb := hbit j
    simp only [hasBit_setLow] at hj
    rw [hasBit_lowBytes, hasBit_lowBytes]
    grind
  · intro heq
    apply BitVec.eq_of_hasBit
    intro j _
    have hj := congrArg (fun v => BitVec.hasBit v j) heq
    have hb := hbit j
    simp only [hasBit_lowBytes] at hj
    rw [hasBit_setLow, hasBit_setLow]
    grind

/-- A stack pointer is the same with two widths, and so is the one behind `k` bytes. -/
theorem widths_agree_iff {m n k : Nat} (hmn : m ≤ n) (hn : 8 * n ≤ arch.bitsPerLong) (sp : ULong arch)
    (hk : 2 ^ (8 * m) + k ≤ 2 ^ (8 * n)) :
    (lowBytes n sp = lowBytes m sp ∧
      setLow n sp (sp + BitVec.ofNat _ k) = setLow m sp (sp + BitVec.ofNat _ k)) ↔
    sp.toNat % 2 ^ (8 * n) + k < 2 ^ (8 * m) := by
  have hdvd : 2 ^ (8 * n) ∣ 2 ^ arch.bitsPerLong := Nat.pow_dvd_pow 2 hn
  -- a sum that does not overflow
  have hsum : sp.toNat % 2 ^ (8 * n) < 2 ^ (8 * m) →
      (sp + BitVec.ofNat _ k).toNat % 2 ^ (8 * n) = sp.toNat % 2 ^ (8 * n) + k := by
    intro hlt
    rw [BitVec.toNat_add, BitVec.toNat_ofNat, Nat.mod_mod_of_dvd _ hdvd, Nat.add_mod, Nat.mod_mod_of_dvd _ hdvd,
      ← Nat.add_mod, Nat.add_mod, Nat.mod_eq_of_lt (a := k) (by omega), Nat.mod_eq_of_lt (by omega)]
  constructor
  · rintro ⟨hold, hnew⟩
    rw [setLow_eq_setLow_iff hold, lowBytes_eq_lowBytes_iff hmn] at hnew
    rw [lowBytes_eq_lowBytes_iff hmn] at hold
    rwa [hsum hold] at hnew
  · intro hlt
    have hsp : sp.toNat % 2 ^ (8 * n) < 2 ^ (8 * m) := by omega
    have hold := (lowBytes_eq_lowBytes_iff hmn sp).2 hsp
    refine ⟨hold, (setLow_eq_setLow_iff hold _).2 ((lowBytes_eq_lowBytes_iff hmn _).2 ?_)⟩
    rw [hsum hsp]
    exact hlt

/-! ### The address of the operand -/

theorem eaForm_index_ne (e : Encoding) (mode : X86EmulMode) (modrm sib : BitVec 8) :
    ∀ r ∈ (e.eaForm mode modrm sib).index, r.1 ≠ vcpuRegsRsp := by
  intro r hr hrsp
  by_cases h4 : modrm &&& 7 = 4
  · have hindex : (e.eaForm mode modrm sib).index = if (sib >>> 3) &&& 7 = 4 ∧ e.rexBit 1 = false then none
        else some (rexReg (e.rexBit 1) (sib >>> 3), (sib >>> 6).toNat) := by
      unfold Encoding.eaForm
      rw [if_pos h4]
    rw [hindex] at hr
    by_cases hno : (sib >>> 3) &&& 7 = 4 ∧ e.rexBit 1 = false
    · rw [if_pos hno] at hr
      cases hr
    · rw [if_neg hno] at hr
      cases hr
      exact hno ((Encoding.rexReg_eq_four _ _).1 hrsp)
  · have hindex : (e.eaForm mode modrm sib).index = none := by
      unfold Encoding.eaForm
      rw [if_neg h4]
      split <;> rfl
    rw [hindex] at hr
    cases hr

theorem eaForm16_regs (modrm : BitVec 8) :
    (∀ r ∈ (eaForm16 modrm).base, r ≠ vcpuRegsRsp) ∧ ∀ r ∈ (eaForm16 modrm).index, r ≠ vcpuRegsRsp := by
  have hall : (eaForm16 modrm).base ≠ some vcpuRegsRsp ∧ (eaForm16 modrm).index ≠ some vcpuRegsRsp := by
    unfold eaForm16
    rcases and_seven_cases modrm with hrm | hrm | hrm | hrm | hrm | hrm | hrm | hrm
    all_goals rw [hrm]
    all_goals by_cases hmod : modField modrm = 0
    all_goals simp [hmod, vcpuRegsRbx, vcpuRegsRbp, vcpuRegsRsi, vcpuRegsRdi, vcpuRegsRsp]
  obtain ⟨hbase, hindex⟩ := hall
  exact ⟨fun r hr hrsp => hbase (hrsp ▸ hr), fun r hr hrsp => hindex (hrsp ▸ hr)⟩

section

variable {sp : ULong arch}

/-- A form with 16-bit addresses does not see the stack pointer. -/
theorem EaForm16.offset_rsp (modrm : BitVec 8) (regs : RegIndex → ULong arch) (addr : ULong arch) :
    (eaForm16 modrm).offset (Function.update regs vcpuRegsRsp sp) code addr = (eaForm16 modrm).offset regs code addr := by
  obtain ⟨hbase, hindex⟩ := eaForm16_regs modrm
  have helim : ∀ o : Option RegIndex, (∀ r ∈ o, r ≠ vcpuRegsRsp) →
      o.elim 0#_ (Function.update regs vcpuRegsRsp sp) = o.elim 0#_ regs := by
    intro o ho
    cases o with
    | none => rfl
    | some r => exact Function.update_of_ne (ho r rfl) _ _
  unfold EaForm16.offset
  rw [helim _ hbase, helim _ hindex]

/-- Another form sees it as its base only. -/
theorem EaForm.offset_rsp {f : EaForm} (hindex : ∀ r ∈ f.index, r.1 ≠ vcpuRegsRsp) (regs : RegIndex → ULong arch)
    (addr next : ULong arch) : f.offset (Function.update regs vcpuRegsRsp sp) code addr next =
      (if f.base = some vcpuRegsRsp then sp - regs vcpuRegsRsp else 0#_) + f.offset regs code addr next := by
  have hidx : f.index.elim 0#_ (fun r => Function.update regs vcpuRegsRsp sp r.1 <<< r.2) =
      f.index.elim 0#_ fun r => regs r.1 <<< r.2 := by
    cases hi : f.index with
    | none => rfl
    | some r =>
      have hr : Function.update regs vcpuRegsRsp sp r.1 = regs r.1 := Function.update_of_ne (hindex r hi) _ _
      show Function.update regs vcpuRegsRsp sp r.1 <<< r.2 = regs r.1 <<< r.2
      rw [hr]
  have hbase : f.base.elim 0#_ (Function.update regs vcpuRegsRsp sp) =
      (if f.base = some vcpuRegsRsp then sp - regs vcpuRegsRsp else 0#_) + f.base.elim 0#_ regs := by
    cases hb : f.base with
    | none => simp
    | some r =>
      by_cases hr : r = vcpuRegsRsp
      · rw [hr, if_pos rfl]
        show Function.update regs vcpuRegsRsp sp vcpuRegsRsp = _ + regs vcpuRegsRsp
        rw [Function.update_self, BitVec.sub_add_cancel]
      · rw [if_neg fun hno => hr (Option.some.inj hno), BitVec.zero_add]
        exact Function.update_of_ne hr _ _
  unfold EaForm.offset EaForm.sum
  rw [hidx, hbase]
  simp only [BitVec.add_assoc]

end

/-- A moved stack pointer differs in its two low bytes. -/
theorem lowBytes_moved_ne {bytes width k : Nat} (hb : 2 ≤ bytes) (hw : 2 ≤ width) (hk : 1 ≤ k) (hk' : k ≤ 8)
    (sp : ULong arch) : lowBytes bytes (setLow width sp (sp + BitVec.ofNat _ k) - sp) ≠ 0#_ := by
  intro hzero
  have hlow : ∀ {x y : ULong arch} {n : Nat}, 2 ≤ n → lowBytes n x = lowBytes n y → lowBytes 2 x = lowBytes 2 y := by
    intro x y n hn hxy
    have hdvd : 2 ^ (8 * 2) ∣ 2 ^ (8 * n) := Nat.pow_dvd_pow 2 (by omega)
    rw [lowBytes_eq_iff] at hxy ⊢
    rw [← Nat.mod_mod_of_dvd _ hdvd, hxy, Nat.mod_mod_of_dvd _ hdvd]
  have hdiff : lowBytes bytes (setLow width sp (sp + BitVec.ofNat _ k) - sp) = lowBytes bytes (0#_ : ULong arch) := by
    rw [hzero]
    exact (BitVec.zero_and).symm
  have hmoved := hlow hb hdiff
  rw [← lowBytes_add_iff sp, BitVec.sub_add_cancel, BitVec.zero_add] at hmoved
  have hnew := (hlow hw (lowBytes_setLow width sp (sp + BitVec.ofNat _ k))).symm.trans hmoved
  have hk0 : lowBytes 2 (BitVec.ofNat arch.bitsPerLong k) = lowBytes 2 (BitVec.ofNat _ 0) := by
    rw [← lowBytes_add_iff sp, BitVec.add_comm, hnew]
    simp
  have := (lowBytes_ofNat_inj (by decide) (by omega) (by decide)).1 hk0
  omega

/-- In a row without base that has REX.B, the emulator has R13 in place of the displacement. -/
structure R13Row (f g : EaForm) : Prop where
  base : f.base = none ∧ g.base = some 13
  index : g.index = f.index
  disp : f.dispBytes = 4 ∧ g.dispBytes = 0
  relative : g.ripRelative = false

theorem hidden_row {mode : X86EmulMode} {modrm sib : BitVec 8} (hd : e.HiddenDisp modrm sib) :
    R13Row (e.eaForm mode modrm sib) (e.emulatedForm mode modrm sib) := by
  obtain ⟨hrex, hmod, hrow⟩ := hd
  have h13 : ∀ b : BitVec 8, b &&& 7 = 5 → rexReg true b = 13 := fun b hb => (@Encoding.rexReg_inj true true b 5).2 ⟨hb, rfl⟩
  have hindex : rexReg (e.rexBit 1) (sib >>> 3) = 4 ↔ (sib >>> 3) &&& 7 = 4 ∧ e.rexBit 1 = false :=
    Encoding.rexReg_eq_four _ _
  rcases hrow with h5 | ⟨h4, hsib⟩
  · have hf : e.eaForm mode modrm sib = ⟨none, none, false, 4, decide (mode = .prot64)⟩ := by
      unfold Encoding.eaForm
      rw [h5, if_neg (by decide), if_pos ⟨rfl, hmod⟩]
    have hg : e.emulatedForm mode modrm sib = ⟨some 13, none, false, 0, false⟩ := by
      unfold Encoding.emulatedForm
      rw [hrex, h13 modrm h5, hmod, if_neg (by decide), if_neg (by decide)]
      rfl
    rw [hf, hg]
    exact ⟨⟨rfl, rfl⟩, rfl, ⟨rfl, rfl⟩, rfl⟩
  · have h12 : rexReg true modrm = 12 := (Encoding.rexReg_eq_twelve _ _).2 ⟨h4, rfl⟩
    unfold Encoding.eaForm Encoding.emulatedForm
    dsimp only
    rw [hrex, h12, h13 sib hsib, hmod, if_pos h4, if_pos (Or.inr rfl), hsib]
    exact ⟨⟨rfl, rfl⟩, if_congr hindex rfl rfl, ⟨rfl, rfl⟩, rfl⟩

theorem R13Row.offset_iff {f g : EaForm} (hfg : R13Row f g) (bytes : Nat) (regs : RegIndex → ULong arch)
    (addr next next' : ULong arch) :
    lowBytes bytes (g.offset regs code addr next') = lowBytes bytes (f.offset regs code addr next) ↔
      lowBytes bytes (regs 13) = lowBytes bytes (dispAt code (addr + BitVec.ofNat _ (1 + f.sibBytes)) 4 +
        if f.ripRelative then next else 0#_) := by
  let idx : ULong arch := f.index.elim 0#_ fun r => regs r.1 <<< r.2
  have hg : g.offset regs code addr next' = regs 13 + idx := by
    unfold EaForm.offset EaForm.sum
    rw [hfg.base.2, hfg.index, hfg.disp.2, hfg.relative, if_neg Bool.false_ne_true, BitVec.add_zero]
    exact BitVec.add_zero _
  have hf : f.offset regs code addr next = dispAt code (addr + BitVec.ofNat _ (1 + f.sibBytes)) 4 +
      (if f.ripRelative then next else 0#_) + idx := by
    unfold EaForm.offset EaForm.sum
    rw [hfg.base.1, hfg.disp.1]
    show 0#_ + idx + _ + _ = _
    rw [BitVec.zero_add]
    ac_rfl
  rw [hg, hf, lowBytes_add_iff]

section

variable {i : Insn arch}

/-- The address that the decoder finds for a pop. -/
theorem pop_cr2 (hf : Fetches h code I) (hs : I s) (he : e.Valid ctxt.mode)
    (hat : CodeAt code (ctxt.rip + ctxt.csBase) e.bytes) (hm : e.HasModrm) (hmod : modField (e.modrm ctxt code) ≠ 3)
    (himm : flagImm e.d = .none) (hi : ((decode ctxt).run h s).result = .ok i) :
    i.cr2 = e.operandAddress ctxt code (if e.adBytes ctxt = 2
      then (eaForm16 (e.modrm ctxt code)).offset ctxt.regs code (e.modrmAddr ctxt)
      else (e.emulatedForm ctxt.mode (e.modrm ctxt code) (e.sib ctxt code)).offset ctxt.regs code (e.modrmAddr ctxt)
        (ctxt.rip + BitVec.ofNat _ (e.bytes.length +
          (e.emulatedForm ctxt.mode (e.modrm ctxt code) (e.sib ctxt code)).length))) := by
  unfold Encoding.operandAddress
  by_cases had : e.adBytes ctxt = 2
  · rw [if_pos had, if_pos had]
    exact (decoded_ea16 hf hs he hat hm hmod had hi).2.1
  · obtain ⟨has, hcr2, -⟩ := decoded_ea32 hf hs he hat hm hmod had hi
    have hseg : (e.prefixesAt ctxt).overrideBase = e.segment := Encoding.prefixes_overrideBase ..
    have hnext : ∀ n : Nat, (e.prefixesAt ctxt).eip + BitVec.ofNat _ n + BitVec.ofNat _ (ImmSize.none.bytes (e.prefixesAt ctxt).opBytes) =
        ctxt.rip + BitVec.ofNat _ (e.bytes.length + n) := by
      intro n
      show ctxt.rip + BitVec.ofNat _ e.bytes.length + _ + _ = _
      rw [ByteMem.add_ofNat, ByteMem.add_ofNat]
      rfl
    have hadi : (e.prefixesAt ctxt).adBytes = e.adBytes ctxt := rfl
    have hsizes : e.adBytes ctxt = 4 ∨ e.adBytes ctxt = 8 := by
      have hsizes := (decoded hi).sizes.ad
      rw [has.adBytes, hadi] at hsizes
      split at hsizes <;> omega
    rw [hcr2, himm, hnext, hseg, hadi, if_neg had, if_neg had]
    rcases hsizes with h4 | h8
    · rw [h4, if_pos (by decide), if_pos rfl]
    · rw [h8, if_neg (by decide), if_neg (by decide)]

theorem operandAddress_iff (had : e.adBytes ctxt = 4 ∨ e.adBytes ctxt = 8 ∧ arch = .x86_64) (a b : ULong arch) :
    e.operandAddress ctxt code a = e.operandAddress ctxt code b ↔
      lowBytes (e.adBytes ctxt) a = lowBytes (e.adBytes ctxt) b := by
  rcases had with h4 | ⟨h8, harch⟩
  · have haddr : ∀ off, e.operandAddress ctxt code off = lowBytes 4 (off + modrmBase ctxt e.segment) := by
      intro off
      unfold Encoding.operandAddress
      rw [h4, if_neg (by decide), if_pos rfl]
    rw [haddr, haddr, h4, lowBytes_add_iff]
  · have haddr : ∀ off, e.operandAddress ctxt code off = off + modrmBase ctxt e.segment := by
      intro off
      unfold Encoding.operandAddress
      rw [h8, if_neg (by decide), if_neg (by decide)]
    have hword : arch.bitsPerLong ≤ 8 * 8 := by
      rw [harch]
      decide
    rw [haddr, haddr, h8, lowBytes_of_le hword, lowBytes_of_le hword]
    exact BitVec.add_left_inj _

theorem stackSize_cases (mode : X86EmulMode) :
    if mode = .prot64 then stackSize mode = 8 else stackSize mode = 2 ∨ stackSize mode = 4 := by
  cases mode <;> simp [stackSize]

theorem popBytes_pos (ctxt : X86EmulateCtxt arch) (e : Encoding) : 1 ≤ e.popBytes ctxt ∧ e.popBytes ctxt ≤ 8 := by
  have hall : ∀ (mode : X86EmulMode) (wide override : Bool),
      1 ≤ stackOperandSize mode wide override ∧ stackOperandSize mode wide override ≤ 8 := by
    intro mode wide override
    cases mode <;> cases wide <;> cases override <;> decide
  exact hall _ _ _

/-- The decoder has the address of a pop exactly if the operand is not based on the stack pointer, and R13 has the value
of a displacement that it stands for. -/
theorem pop_address_iff (hf : Fetches h code I) (hs : I s) (he : e.Valid ctxt.mode)
    (hat : CodeAt code (ctxt.rip + ctxt.csBase) e.bytes) (hm : e.HasModrm) (hmod : modField (e.modrm ctxt code) ≠ 3)
    (himm : flagImm e.d = .none) (hi : ((decode ctxt).run h s).result = .ok i) :
    i.cr2 = e.operandAddress ctxt code (e.operandOffset ctxt code (e.poppedRegs ctxt)) ↔
      (e.adBytes ctxt ≠ 2 → (e.formAt ctxt code).base ≠ some vcpuRegsRsp) ∧
      (e.HiddenDisp (e.modrm ctxt code) (e.sib ctxt code) →
        lowBytes (e.adBytes ctxt) (ctxt.regs 13) = lowBytes (e.adBytes ctxt)
          (dispAt code (e.modrmAddr ctxt + BitVec.ofNat _ (1 + (e.formAt ctxt code).sibBytes)) 4 +
            if (e.formAt ctxt code).ripRelative then
              ctxt.rip + BitVec.ofNat _ (e.bytes.length + (e.formAt ctxt code).length) else 0#_)) := by
  have hcr2 := pop_cr2 hf hs he hat hm hmod himm hi
  have hdec := decoded hi
  have hsizes := hdec.sizes.ad
  have hadi : i.adBytes = e.adBytes ctxt := (decoded_as hf hs he hat hm hmod hi).adBytes
  have hhost := hdec.host
  rw [hdec.mode] at hsizes hhost
  rw [hadi] at hsizes
  unfold Encoding.operandOffset Encoding.poppedRegs
  by_cases had : e.adBytes ctxt = 2
  · -- 16-bit addresses exist outside 64-bit mode, where there is no REX
    have hmode : ctxt.mode ≠ .prot64 := by
      intro hmode
      rw [if_pos hmode, had] at hsizes
      omega
    have hrex : e.rexBit 0 = false := by
      unfold Encoding.rexBit
      cases hr : e.rex with
      | none => rfl
      | some b => exact absurd (he.rex b hr).1 hmode
    rw [if_pos had] at hcr2 ⊢
    rw [EaForm16.offset_rsp]
    refine iff_of_true hcr2 ⟨fun hno => absurd had hno, fun hhidden => ?_⟩
    exact absurd (hrex.symm.trans hhidden.1) Bool.false_ne_true
  · have hfull : e.adBytes ctxt = 4 ∨ e.adBytes ctxt = 8 ∧ arch = .x86_64 := by
      by_cases hmode : ctxt.mode = .prot64
      · rw [if_pos hmode] at hsizes
        exact hsizes.imp_right fun h8 => ⟨h8, hhost hmode⟩
      · rw [if_neg hmode] at hsizes
        omega
    have hindex : ∀ r ∈ (e.formAt ctxt code).index, r.1 ≠ vcpuRegsRsp := eaForm_index_ne e ctxt.mode _ _
    rw [if_neg had] at hcr2 ⊢
    rw [hcr2, operandAddress_iff hfull, EaForm.offset_rsp hindex]
    by_cases hhidden : e.HiddenDisp (e.modrm ctxt code) (e.sib ctxt code)
    · have hrow : R13Row (e.formAt ctxt code) (e.emulatedForm ctxt.mode (e.modrm ctxt code) (e.sib ctxt code)) :=
        hidden_row hhidden
      have hbase : (e.formAt ctxt code).base ≠ some vcpuRegsRsp := by
        rw [hrow.base.1]
        exact (Option.some_ne_none _).symm
      rw [if_neg hbase, BitVec.zero_add, hrow.offset_iff]
      exact ⟨fun heq => ⟨fun _ => hbase, fun _ => heq⟩, fun hboth => hboth.2 hhidden⟩
    · have hform : e.emulatedForm ctxt.mode (e.modrm ctxt code) (e.sib ctxt code) = e.formAt ctxt code :=
        Encoding.emulatedForm_eq hhidden
      rw [hform]
      by_cases hbase : (e.formAt ctxt code).base = some vcpuRegsRsp
      · have hstack : 2 ≤ stackSize ctxt.mode := by
          have hcases := stackSize_cases ctxt.mode
          split at hcases <;> omega
        obtain ⟨hpos, hle⟩ := popBytes_pos ctxt e
        refine iff_of_false (fun heq => ?_) fun hboth => hboth.1 had hbase
        rw [if_pos hbase] at heq
        have hne : lowBytes (e.adBytes ctxt) (setLow (stackSize ctxt.mode) (ctxt.regs vcpuRegsRsp)
            (ctxt.regs vcpuRegsRsp + BitVec.ofNat _ (e.popBytes ctxt)) - ctxt.regs vcpuRegsRsp) ≠ 0#_ :=
          lowBytes_moved_ne (by omega) hstack hpos hle (ctxt.regs vcpuRegsRsp)
        refine hne ?_
        have hzero := (lowBytes_add_iff ((e.formAt ctxt code).offset ctxt.regs code (e.modrmAddr ctxt)
          (ctxt.rip + BitVec.ofNat _ (e.bytes.length + (e.formAt ctxt code).length)))).1 (heq.symm.trans
            (congrArg (lowBytes (e.adBytes ctxt)) (BitVec.zero_add _).symm))
        exact hzero.trans BitVec.zero_and
      · rw [if_neg hbase, BitVec.zero_add]
        exact iff_of_true rfl ⟨fun _ => hbase, fun hno => absurd hno hhidden⟩

/-- Outside 64-bit mode there is no REX prefix. -/
theorem Encoding.Valid.noRex_of_mode (he : e.Valid ctxt.mode) (hmode : ctxt.mode ≠ .prot64) : e.rex = none := by
  cases hr : e.rex with
  | none => rfl
  | some b => exact absurd (he.rex b hr).1 hmode

/-- The LOCK prefix that is decoded. -/
theorem decoded_lockPrefix (hf : Fetches h code I) (hs : I s) (he : e.Valid ctxt.mode)
    (hat : CodeAt code (ctxt.rip + ctxt.csBase) e.bytes) (hm : e.HasModrm) (hmod : modField (e.modrm ctxt code) ≠ 3)
    (hi : ((decode ctxt).run h s).result = .ok i) : i.lockPrefix = decide (0xf0 ∈ e.legacy) := by
  have hprefix : (e.prefixesAt ctxt).lockPrefix = decide (0xf0 ∈ e.legacy) := by
    have hflags := (foldl_flags ctxt.mode e.legacy (Encoding.start arch ctxt.mode)).1
    exact hflags.trans (Bool.false_or _)
  have hsizes := (decoded hi).sizes.ad
  have hadi : i.adBytes = (e.prefixesAt ctxt).adBytes := (decoded_as hf hs he hat hm hmod hi).adBytes
  rw [(decoded hi).mode, hadi] at hsizes
  rw [← hprefix]
  refine (decode_ensures hf he hat (Q := fun i => i.lockPrefix = (e.prefixesAt ctxt).lockPrefix) ?_ s hs i hi).1
  rw [decodeOperands_modrm hm]
  by_cases had : (e.prefixesAt ctxt).adBytes = 2
  · have hmode : ctxt.mode ≠ .prot64 := by
      intro hmode
      rw [if_pos hmode, had] at hsizes
      omega
    apply Prog.Ensures.bind_eq (decodeModrm_ensures16 hf hmode (he.noRex_of_mode hmode) (p := e.prefixesAt ctxt) hmod had e.d)
    exact Prog.ensures_ret rfl
  · apply Prog.Ensures.bind_eq (decodeModrm_ensures32 hf e (p := e.prefixesAt ctxt) hmod had e.d)
    exact Prog.ensures_ret rfl

/-- The size of the pop is right exactly if 64-bit mode has no effective prefix 66, and another mode an odd number. -/
theorem popBytes_iff {sizes : Nat × Nat} (hmodes : modeBytes arch ctxt.mode = some sizes) (he : e.Valid ctxt.mode)
    (hmode : i.mode = ctxt.mode) (hop : i.opBytes = (e.prefixesAt ctxt).opBytes) :
    i.popBytes = e.popBytes ctxt ↔ (ctxt.mode = .prot64 → 0x66 ∈ e.legacy → e.wide = true) ∧
      (ctxt.mode ≠ .prot64 → 0x66 ∈ e.legacy → Odd (e.legacy.count 0x66)) := by
  rw [Encoding.popBytes_eq]
  unfold Insn.popBytes stackOperandSize
  rw [hmode]
  by_cases hlong : ctxt.mode = .prot64
  · rw [if_pos hlong, if_pos hlong]
    by_cases hnarrow : (decide (0x66 ∈ e.legacy) && !e.wide) = true
    · obtain ⟨h66, hwide⟩ := (Bool.and_eq_true_iff.1 hnarrow)
      rw [if_pos hnarrow]
      refine iff_of_false (by decide) fun hboth => ?_
      rw [hboth.1 hlong (of_decide_eq_true h66)] at hwide
      cases hwide
    · rw [if_neg hnarrow]
      refine iff_of_true rfl ⟨fun _ h66 => ?_, fun hno => absurd hlong hno⟩
      rw [decide_eq_true h66] at hnarrow
      simpa using hnarrow
  · have hwide : e.wide = false := by
      unfold Encoding.wide Encoding.rexBits
      rw [he.noRex_of_mode hlong]
      rfl
    have hsize := prefixes_opBytes (e := e) hmodes (ctxt.rip + BitVec.ofNat _ e.bytes.length)
    rw [if_neg hlong, if_neg hlong, hop]
    refine hsize.trans ⟨fun hodd => ⟨fun hno => absurd hno hlong, fun _ => hodd hwide⟩, fun hboth _ => hboth.2 hlong⟩

/-- The two widths agree exactly if they are the same or the stack pointer fits into both. -/
theorem popStack_iff (hsizes : SizesOf ctxt.mode (e.prefixesAt ctxt).opBytes (e.adBytes ctxt))
    (hhost : ctxt.mode = .prot64 → arch = .x86_64) :
    (lowBytes (stackSize ctxt.mode) (ctxt.regs vcpuRegsRsp) = lowBytes (e.adBytes ctxt) (ctxt.regs vcpuRegsRsp) ∧
      setLow (stackSize ctxt.mode) (ctxt.regs vcpuRegsRsp) (ctxt.regs vcpuRegsRsp + BitVec.ofNat _ (e.popBytes ctxt)) =
        setLow (e.adBytes ctxt) (ctxt.regs vcpuRegsRsp) (ctxt.regs vcpuRegsRsp + BitVec.ofNat _ (e.popBytes ctxt))) ↔
      e.adBytes ctxt = stackSize ctxt.mode ∨ StackFits ctxt e := by
  have had := hsizes.ad
  have hstack := stackSize_cases ctxt.mode
  have hpop := (popBytes_pos ctxt e).2
  have hword : max (e.adBytes ctxt) (stackSize ctxt.mode) ≤ 8 ∧ 8 * max (e.adBytes ctxt) (stackSize ctxt.mode) ≤
      arch.bitsPerLong ∧ 2 ≤ min (e.adBytes ctxt) (stackSize ctxt.mode) := by
    by_cases hmode : ctxt.mode = .prot64
    · rw [if_pos hmode] at had hstack
      have hbits : arch.bitsPerLong = 64 := by rw [hhost hmode]; rfl
      omega
    · rw [if_neg hmode] at had hstack
      have hbits : 32 ≤ arch.bitsPerLong := by cases arch <;> decide
      omega
  have hroom : ∀ {m n : Nat}, 2 ≤ m → m < n → 2 ^ (8 * m) + e.popBytes ctxt ≤ 2 ^ (8 * n) := by
    intro m n hm hmn
    have hpow : 2 ^ (8 * m + 1) ≤ 2 ^ (8 * n) := Nat.pow_le_pow_right (by decide) (by omega)
    have hbig : 2 ^ (8 * 2) ≤ 2 ^ (8 * m) := Nat.pow_le_pow_right (by decide) (by omega)
    rw [Nat.pow_succ] at hpow
    omega
  unfold StackFits
  generalize e.adBytes ctxt = ad at *
  generalize stackSize ctxt.mode = st at *
  rcases Nat.lt_trichotomy ad st with hlt | heq | hgt
  · rw [or_iff_right (Nat.ne_of_lt hlt), max_eq_right hlt.le, min_eq_left hlt.le]
    rw [max_eq_right hlt.le, min_eq_left hlt.le] at hword
    exact widths_agree_iff hlt.le hword.2.1 _ (hroom hword.2.2 hlt)
  · rw [heq]
    exact iff_of_true ⟨rfl, rfl⟩ (Or.inl rfl)
  · rw [or_iff_right (Nat.ne_of_gt hgt), max_eq_left hgt.le, min_eq_right hgt.le]
    rw [max_eq_left hgt.le, min_eq_right hgt.le] at hword
    have hagree := widths_agree_iff hgt.le hword.2.1 (ctxt.regs vcpuRegsRsp) (hroom hword.2.2 hgt)
    rw [← hagree]
    exact and_congr eq_comm eq_comm

end

/-! ### When it is right -/

theorem poppedRegs_iff {i : Insn arch} : Function.update ctxt.regs vcpuRegsRsp (i.popped ctxt) = e.poppedRegs ctxt ↔
    setLow (stackSize ctxt.mode) (ctxt.regs vcpuRegsRsp) (ctxt.regs vcpuRegsRsp + BitVec.ofNat _ (e.popBytes ctxt)) =
      i.popped ctxt := by
  unfold Encoding.poppedRegs
  constructor
  · intro heq
    have hrsp := congrFun heq vcpuRegsRsp
    rw [Function.update_self, Function.update_self] at hrsp
    exact hrsp.symm
  · intro heq
    rw [heq]

/-- Two calls of a pop are the same. -/
theorem popCalls_iff {i : Insn arch} {v w addr stack stack' : ULong arch} {bytes : Nat} :
    ([⟨.readStd stack i.popBytes, .ok v⟩, i.popStore v] : List (Event (OpReply arch))) =
        [⟨.readStd stack' bytes, .ok w⟩, ⟨.writeEmulated addr w bytes, .ok ()⟩] ↔
      v = w ∧ stack = stack' ∧ i.popBytes = bytes ∧ i.lockPrefix = false ∧ i.cr2 = addr := by
  unfold Insn.popStore
  constructor
  · intro heq
    obtain ⟨hread, hrest⟩ := List.cons.inj heq
    obtain ⟨hstore, -⟩ := List.cons.inj hrest
    obtain ⟨hstack, hbytes⟩ := OpCall.readStd.inj (congrArg Sigma.fst hread)
    cases hlock : i.lockPrefix with
    | true =>
      rw [hlock, if_pos rfl] at hstore
      cases congrArg Sigma.fst hstore
    | false =>
      rw [hlock, if_neg Bool.false_ne_true] at hstore
      obtain ⟨haddr, hval, -⟩ := OpCall.writeEmulated.inj (congrArg Sigma.fst hstore)
      exact ⟨hval, hstack, hbytes, rfl, haddr⟩
  · rintro ⟨rfl, rfl, rfl, hlock, rfl⟩
    rw [hlock, if_neg Bool.false_ne_true]

theorem popDone_iff {x : Exec arch} (cpu : HostCpu arch) (hasCmpxchg8b : Bool) (hf : Fetches h code I) (hs : I s)
    (he : e.Valid ctxt.mode) (hat : CodeAt code (ctxt.rip + ctxt.csBase) e.bytes) (ht : e.twobyte = false)
    (hop : e.opcode = 0x8f) (hmod : modField (e.modrm ctxt code) ≠ 3)
    (hx : ((emulate cpu hasCmpxchg8b ctxt).run h s).result = .ok x) :
    PopDone h cpu hasCmpxchg8b ctxt code s e ↔ PopWhen ctxt code e := by
  obtain ⟨i, hi⟩ : ∃ i, ((decode ctxt).run h s).result = .ok i := by
    cases hi : ((decode ctxt).run h s).result with
    | ok i => exact ⟨i, rfl⟩
    | error exit =>
      rw [emulate_run_error h cpu hasCmpxchg8b hi] at hx
      cases hx
  have hd : e.d = dstMem ||| srcNone ||| modRM ||| movFlag := by
    unfold Encoding.d
    rw [ht, hop]
    exact pop_table
  have hm : e.HasModrm := by
    unfold Encoding.HasModrm
    rw [hd]
    decide
  have himm : flagImm e.d = .none := by
    rw [hd]
    rfl
  obtain ⟨sizes, hmodes⟩ := modeBytes_of_decode hi
  have has := decoded_as hf hs he hat hm hmod hi
  have hdec := decoded hi
  have hadi : i.adBytes = e.adBytes ctxt := has.adBytes
  have hsizes : SizesOf ctxt.mode (e.prefixesAt ctxt).opBytes (e.adBytes ctxt) := Encoding.prefixes_sizes hmodes he _
  have hhost : ctxt.mode = .prot64 → arch = .x86_64 := hdec.mode ▸ hdec.host
  have hbytes := popBytes_iff hmodes he hdec.mode has.opBytes
  have haddr := pop_address_iff hf hs he hat hm hmod himm hi
  have hlock := decoded_lockPrefix hf hs he hat hm hmod hi
  have hstack := popStack_iff hsizes hhost
  obtain ⟨hres, hcall⟩ := x86EmulateMemop_ok hi hx
  obtain ⟨⟨v, htrace⟩, hregs, hflags⟩ := pop_run (has.twobyte.trans ht) (has.b.trans hop) hres
  have hbase : ctxt.ssBase + lowBytes i.adBytes (ctxt.regs vcpuRegsRsp) =
        ctxt.ssBase + lowBytes (stackSize ctxt.mode) (ctxt.regs vcpuRegsRsp) ↔
      lowBytes (stackSize ctxt.mode) (ctxt.regs vcpuRegsRsp) = lowBytes (e.adBytes ctxt) (ctxt.regs vcpuRegsRsp) := by
    rw [hadi]
    exact (BitVec.add_right_inj _).trans eq_comm
  have hpopped : i.popBytes = e.popBytes ctxt → i.popped ctxt = setLow (e.adBytes ctxt) (ctxt.regs vcpuRegsRsp)
      (ctxt.regs vcpuRegsRsp + BitVec.ofNat _ (e.popBytes ctxt)) := by
    intro heq
    unfold Insn.popped
    rw [heq, hadi]
  have htrace' : ((emulate cpu hasCmpxchg8b ctxt).run h s).trace = ((decode ctxt).run h s).trace ++
      [⟨.readStd (ctxt.ssBase + lowBytes i.adBytes (ctxt.regs vcpuRegsRsp)) i.popBytes, .ok v⟩, i.popStore v] := by
    rw [emulate_run h cpu hasCmpxchg8b hi, ← htrace]
  have hregs' : (x86EmulateMemop h cpu hasCmpxchg8b ctxt s).2.1.regs =
      Function.update ctxt.regs vcpuRegsRsp (i.popped ctxt) := by
    rw [hcall]
    exact hregs
  constructor
  · rintro ⟨⟨w, hcalls⟩, hdone, -⟩
    rw [htrace'] at hcalls
    rw [hregs', poppedRegs_iff] at hdone
    obtain ⟨-, hsp, hsize, hnolock, hcr2⟩ := popCalls_iff.1 (List.append_cancel_left hcalls)
    rw [hpopped hsize] at hdone
    rw [hlock] at hnolock
    obtain ⟨hwide, hodd⟩ := hbytes.1 hsize
    obtain ⟨hrsp, hhidden⟩ := haddr.1 hcr2
    exact ⟨hwide, hodd, hstack.1 ⟨hbase.1 hsp, hdone⟩, hrsp, hhidden, of_decide_eq_false hnolock⟩
  · intro hwhen
    have hsize := hbytes.2 ⟨hwhen.wide, hwhen.odd⟩
    obtain ⟨hsp, hnew⟩ := hstack.2 hwhen.stack
    have hcr2 := haddr.2 ⟨hwhen.base, hwhen.hidden⟩
    refine ⟨⟨v, ?_⟩, ?_, ?_⟩
    · rw [htrace', popCalls_iff.2 ⟨rfl, hbase.2 hsp, hsize, hlock.trans (decide_eq_false hwhen.lock), hcr2⟩]
    · rw [hregs', poppedRegs_iff, hpopped hsize]
      exact hnew
    · rw [hcall]
      exact hflags

/-- **Pop to memory**: for every mode, prefixes, operand form and registers, a committed pop reads its operand at the old
stack pointer, moves the stack pointer, and stores the operand at the address with the new stack pointer, exactly if
`PopWhen`.  The address size is the one of the prefixes, if 67 does not occur an even number of times. -/
theorem emulate_pop {x : Exec arch} (cpu : HostCpu arch) (hasCmpxchg8b : Bool) (hf : Fetches h code I) (hs : I s)
    (he : e.Valid ctxt.mode) (hat : CodeAt code (ctxt.rip + ctxt.csBase) e.bytes) (ht : e.twobyte = false)
    (hop : e.opcode = 0x8f) (hmod : modField (e.modrm ctxt code) ≠ 3)
    (hx : ((emulate cpu hasCmpxchg8b ctxt).run h s).result = .ok x) :
    (PopDone h cpu hasCmpxchg8b ctxt code s e ↔ PopWhen ctxt code e) ∧
      ((0x67 ∈ e.legacy → Odd (e.legacy.count 0x67)) →
        e.adBytes ctxt = addressSize ctxt.mode (decide (0x67 ∈ e.legacy))) := by
  refine ⟨popDone_iff cpu hasCmpxchg8b hf hs he hat ht hop hmod hx, fun hodd => ?_⟩
  cases hi : ((decode ctxt).run h s).result with
  | ok i =>
    obtain ⟨sizes, hmodes⟩ := modeBytes_of_decode hi
    exact (prefixes_adBytes hmodes _).2 hodd
  | error exit =>
    rw [emulate_run_error h cpu hasCmpxchg8b hi] at hx
    cases hx

/-! ### Pops of 4 bytes -/

/-- `pop m` without prefixes. -/
def popEncoding : Encoding := ⟨[], none, false, 0x8f⟩

theorem popEncoding_valid : popEncoding.Valid .prot32 where
  legacy := by simp [popEncoding]
  rex := by simp [popEncoding]
  first := by decide
  noRex := by decide
  onebyte := by decide

/-- `pop (%edi)` and `pop (%esp)`. -/
def popCode (operand : List (BitVec 8)) : EmulMem .i386 := codeAtZero .i386 (0x8f :: operand)

theorem popCode_at (operand : List (BitVec 8)) :
    CodeAt (popCode operand) ((flatCtxt .i386 .prot32).rip + (flatCtxt .i386 .prot32).csBase) popEncoding.bytes :=
  ⟨rfl, trivial⟩

theorem emulate_pop_small : PopDone (flatOps .i386) (idleHost .i386) true (flatCtxt .i386 .prot32) (popCode [0x07])
    (popCode [0x07]) popEncoding :=
  (emulate_pop (idleHost .i386) true (flatOps_fetches (popCode [0x07])) rfl popEncoding_valid (popCode_at [0x07])
    rfl rfl (by decide) rfl).1.2 {
      wide := by decide
      odd := by decide
      stack := Or.inl (by decide)
      base := by decide
      hidden := by
        rintro ⟨hrex, -⟩
        exact absurd hrex (by decide)
      lock := by decide }

/-- `pop (%esp)` stores at the old stack pointer. -/
theorem pop_at_old_stack : ¬∀ (arch : Arch) (h : (c : OpCall arch) → EmulMem arch → OpReply arch c × EmulMem arch)
    (code : EmulMem arch) (I : EmulMem arch → Prop) (cpu : HostCpu arch) (ctxt : X86EmulateCtxt arch) (e : Encoding)
    (m : EmulMem arch) (x : Exec arch), Fetches h code I → I m → e.Valid ctxt.mode →
      CodeAt code (ctxt.rip + ctxt.csBase) e.bytes → e.twobyte = false → e.opcode = 0x8f →
        modField (e.modrm ctxt code) ≠ 3 → ((emulate cpu true ctxt).run h m).result = .ok x →
          PopDone h cpu true ctxt code m e := by
  intro hall
  have hdone := hall .i386 (flatOps .i386) (popCode [0x04, 0x24]) (· = popCode [0x04, 0x24]) (idleHost .i386)
    (flatCtxt .i386 .prot32) popEncoding _ _ (flatOps_fetches _) rfl popEncoding_valid (popCode_at _) rfl rfl (by decide) rfl
  have hwhen := (popDone_iff (idleHost .i386) true (flatOps_fetches (popCode [0x04, 0x24])) rfl popEncoding_valid
    (popCode_at _) rfl rfl (by decide) rfl).1 hdone
  exact hwhen.base (by decide) (by decide)

end LearnKvm
