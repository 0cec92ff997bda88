import LearnKvm.Emulate.Head
import LearnKvm.Emulate.Loads

/-!
# Repeated string instructions (`x86_emulate.c`)

A call of `x86_emulate_memop` on a string instruction with REP transfers one element and leaves RIP where it is, and the
call that finds a count of 0 moves RIP on.  So repeated calls make as many transfers as the count says (`emulate_rep`),
but the count is the whole of RCX, whatever the address size.
-/

namespace LearnKvm

open Calls

variable {arch : Arch} {σ : Type}

/-! ### The instructions -/

inductive StringInsn where
  | movs | stos | lods
  deriving DecidableEq

/-- The string instructions that the emulator has, by the opcode map. -/
def stringInsn (b : BitVec 8) : Option StringInsn :=
  if b = 0xa4 ∨ b = 0xa5 then some .movs
  else if b = 0xaa ∨ b = 0xab then some .stos
  else if b = 0xac ∨ b = 0xad then some .lods
  else none

/-- The element is read at SI. -/
def StringInsn.reads : StringInsn → Bool
  | .stos => false
  | _ => true

/-- The element is stored at DI. -/
def StringInsn.stores : StringInsn → Bool
  | .lods => false
  | _ => true

namespace Encoding

/-- A string instruction with REP. -/
structure RepString (e : Encoding) (op : StringInsn) : Prop where
  onebyte : e.twobyte = false
  opcode : stringInsn e.opcode = some op
  rep : 0xf3 ∈ e.legacy

def adBytes (ctxt : X86EmulateCtxt arch) (e : Encoding) : Nat := (e.prefixesAt ctxt).adBytes

def elementBytes (ctxt : X86EmulateCtxt arch) (e : Encoding) : Nat :=
  if e.opcode &&& 1 = 0 then 1 else (e.prefixesAt ctxt).opBytes

/-- From an element to the next: down if the direction flag, bit 10, is set. -/
def elementStep (ctxt : X86EmulateCtxt arch) (e : Encoding) : Int :=
  if ctxt.eflags.hasBit 10 then -e.elementBytes ctxt else e.elementBytes ctxt

/-- A pointer after some elements.  Only its low bytes, as many as the address size has, are stepped. -/
def pointer (ctxt : X86EmulateCtxt arch) (e : Encoding) (r : RegIndex) (k : Nat) : ULong arch :=
  setLow (e.adBytes ctxt) (ctxt.regs r) (ctxt.regs r + BitVec.ofInt _ (k * e.elementStep ctxt))

def sourceBase (ctxt : X86EmulateCtxt arch) (e : Encoding) : ULong arch := ctxt.base (e.segment.getD .ds)

def sourceAddr (ctxt : X86EmulateCtxt arch) (e : Encoding) (k : Nat) : ULong arch :=
  e.sourceBase ctxt + lowBytes (e.adBytes ctxt) (e.pointer ctxt vcpuRegsRsi k)

def destAddr (ctxt : X86EmulateCtxt arch) (e : Encoding) (k : Nat) : ULong arch :=
  ctxt.esBase + lowBytes (e.adBytes ctxt) (e.pointer ctxt vcpuRegsRdi k)

/-- The count that the address size selects. -/
def count (ctxt : X86EmulateCtxt arch) (e : Encoding) : ULong arch := lowBytes (e.adBytes ctxt) (ctxt.regs vcpuRegsRcx)

/-- The linear address of the current element of a string instruction with one operand in memory. -/
def currentElement (ctxt : X86EmulateCtxt arch) (e : Encoding) (op : StringInsn) : ULong arch :=
  if op.stores then e.destAddr ctxt 0 else e.sourceAddr ctxt 0

end Encoding

/-- A store that was accepted.  With LOCK it is an exchange. -/
inductive IsStore (addr v : ULong arch) (bytes : Nat) : Event (OpReply arch) → Prop where
  | write : IsStore addr v bytes ⟨.writeEmulated addr v bytes, .ok ()⟩
  | locked (old : ULong arch) : IsStore addr v bytes ⟨.cmpxchgEmulated addr old v bytes, .ok ()⟩

/-- The accesses that transfer the value `v` of element `k`. -/
inductive Transfer (ctxt : X86EmulateCtxt arch) (e : Encoding) (k : Nat) :
    StringInsn → ULong arch → List (Event (OpReply arch)) → Prop where
  | movs {v : ULong arch} {ev : Event (OpReply arch)} (store : IsStore (e.destAddr ctxt k) v (e.elementBytes ctxt) ev) :
      Transfer ctxt e k .movs v [⟨.readEmulated (e.sourceAddr ctxt k) (e.elementBytes ctxt), .ok v⟩, ev]
  | stos {ev : Event (OpReply arch)}
      (store : IsStore (e.destAddr ctxt k) (ctxt.regs vcpuRegsRax) (e.elementBytes ctxt) ev) :
      Transfer ctxt e k .stos (ctxt.regs vcpuRegsRax) [ev]
  | lods {v : ULong arch} :
      Transfer ctxt e k .lods v [⟨.readEmulated (e.sourceAddr ctxt k) (e.elementBytes ctxt), .ok v⟩]

/-- The accesses that transfer elements with some values, the first element first. -/
inductive Transfers (ctxt : X86EmulateCtxt arch) (e : Encoding) (op : StringInsn) :
    List (ULong arch) → List (Event (OpReply arch)) → Prop where
  | nil : Transfers ctxt e op [] []
  | snoc {vs : List (ULong arch)} {t t' : List (Event (OpReply arch))} {v : ULong arch} (before : Transfers ctxt e op vs t)
      (element : Transfer ctxt e vs.length op v t') : Transfers ctxt e op (vs ++ [v]) (t ++ t')

/-- The accumulator after an element was loaded. -/
def loadedReg (bytes : Nat) (old v : ULong arch) : ULong arch := if bytes = 4 then lowBytes 4 v else setLow bytes old v

/-- The registers after elements with some values were transferred, where a count is left. -/
def stringRegs (ctxt : X86EmulateCtxt arch) (e : Encoding) (op : StringInsn) (vs : List (ULong arch)) (left : ULong arch) :
    RegIndex → ULong arch := fun r =>
  if r = vcpuRegsRcx then left
  else if r = vcpuRegsRsi ∧ op.reads then e.pointer ctxt vcpuRegsRsi vs.length
  else if r = vcpuRegsRdi ∧ op.stores then e.pointer ctxt vcpuRegsRdi vs.length
  else if r = vcpuRegsRax ∧ op = .lods then vs.foldl (loadedReg (e.elementBytes ctxt)) (ctxt.regs vcpuRegsRax)
  else ctxt.regs r

/-! ### Repeated calls -/

/-- What repeated calls have left, with the accesses that they have made. -/
structure RepState (arch : Arch) (σ : Type) where
  ctxt : X86EmulateCtxt arch
  state : σ
  trace : List (Event (OpReply arch))

section

variable (h : (c : OpCall arch) → σ → OpReply arch c × σ) (cpu : HostCpu arch) (hasCmpxchg8b : Bool)

/-- A call with the faulting address `cr2`. -/
def RepState.call (r : RepState arch σ) (cr2 : ULong arch) : RepState arch σ :=
  let ctxt := { r.ctxt with cr2 := cr2 }
  let o := x86EmulateMemop h cpu hasCmpxchg8b ctxt r.state
  ⟨o.2.1, o.2.2, r.trace ++ accesses ((emulate cpu hasCmpxchg8b ctxt).run h r.state).trace⟩

/-- The first `k` calls, where the call `j` has the faulting address `cr2 j`. -/
def repCalls (cr2 : Nat → ULong arch) (ctxt : X86EmulateCtxt arch) (s : σ) : Nat → RepState arch σ
  | 0 => ⟨ctxt, s, []⟩
  | k + 1 => (repCalls cr2 ctxt s k).call h cpu hasCmpxchg8b (cr2 k)

/-- RIP has not moved before the call `k`. -/
def RipStays (cr2 : Nat → ULong arch) (ctxt : X86EmulateCtxt arch) (s : σ) (k : Nat) : Prop :=
  ∀ j ≤ k, (repCalls h cpu hasCmpxchg8b cr2 ctxt s j).ctxt.rip = ctxt.rip

/-- The instruction is fetched and executed again until RIP moves: all fetches and accesses succeed, and the faulting
address of STOS and LODS is that of the current element. -/
structure RepRuns (cr2 : Nat → ULong arch) (ctxt : X86EmulateCtxt arch) (s : σ) (e : Encoding) (op : StringInsn) :
    Prop where
  fetched : ∀ k, RipStays h cpu hasCmpxchg8b cr2 ctxt s k →
    ∃ t, FetchesTo h (ctxt.rip + ctxt.csBase) e.bytes (repCalls h cpu hasCmpxchg8b cr2 ctxt s k).state t
  accepted : ∀ k, RipStays h cpu hasCmpxchg8b cr2 ctxt s k →
    ∀ ev ∈ (repCalls h cpu hasCmpxchg8b cr2 ctxt s (k + 1)).trace, ev.1.refusal ev.2 = none
  linear : ∀ k, RipStays h cpu hasCmpxchg8b cr2 ctxt s k → op ≠ .movs →
    cr2 k = e.currentElement (repCalls h cpu hasCmpxchg8b cr2 ctxt s k).ctxt op

/-- The call `m` is the first after which RIP is past the instruction.  The values `vs` have been transferred, as many as
the count says, the count is 0, and the pointers are advanced. -/
structure RepDoneAt (cr2 : Nat → ULong arch) (ctxt : X86EmulateCtxt arch) (s : σ) (e : Encoding) (op : StringInsn) (m : Nat)
    (vs : List (ULong arch)) : Prop where
  stays : RipStays h cpu hasCmpxchg8b cr2 ctxt s m
  moves : (repCalls h cpu hasCmpxchg8b cr2 ctxt s (m + 1)).ctxt.rip ≠ ctxt.rip
  past : (repCalls h cpu hasCmpxchg8b cr2 ctxt s (m + 1)).ctxt.rip = ctxt.rip + BitVec.ofNat _ e.bytes.length
  number : vs.length = (e.count ctxt).toNat
  transfers : Transfers ctxt e op vs (repCalls h cpu hasCmpxchg8b cr2 ctxt s (m + 1)).trace
  regs : (repCalls h cpu hasCmpxchg8b cr2 ctxt s (m + 1)).ctxt.regs =
    stringRegs ctxt e op vs (setLow (e.adBytes ctxt) (ctxt.regs vcpuRegsRcx) 0#_)
  eflags : (repCalls h cpu hasCmpxchg8b cr2 ctxt s (m + 1)).ctxt.eflags = ctxt.eflags

def RepDone (cr2 : Nat → ULong arch) (ctxt : X86EmulateCtxt arch) (s : σ) (e : Encoding) (op : StringInsn) : Prop :=
  ∃ m vs, RepDoneAt h cpu hasCmpxchg8b cr2 ctxt s e op m vs

end

/-! ### Words -/

theorem lowBytes_setLow (bytes : Nat) (old x : ULong arch) : lowBytes bytes (setLow bytes old x) = lowBytes bytes x := by
  apply BitVec.eq_of_hasBit
  intro j _
  rw [hasBit_lowBytes, hasBit_lowBytes, hasBit_setLow]
  by_cases hj : j < 8 * bytes
  · rw [if_pos hj]
  · simp [hj]

theorem setLow_congr {bytes : Nat} {x y : ULong arch} (hxy : lowBytes bytes x = lowBytes bytes y) (old : ULong arch) :
    setLow bytes old x = setLow bytes old y := by
  unfold setLow
  rw [hxy]

theorem setLow_setLow (bytes : Nat) (old x y : ULong arch) : setLow bytes (setLow bytes old x) y = setLow bytes old y := by
  apply BitVec.eq_of_hasBit
  intro j _
  rw [hasBit_setLow, hasBit_setLow, hasBit_setLow]
  by_cases hj : j < 8 * bytes
  · rw [if_pos hj, if_pos hj]
  · rw [if_neg hj, if_neg hj, if_neg hj]

theorem setLow_self (bytes : Nat) (old : ULong arch) : setLow bytes old old = old := by
  apply BitVec.eq_of_hasBit
  intro j _
  rw [hasBit_setLow]
  split <;> rfl

theorem setLow_word {bytes : Nat} (hw : arch.bitsPerLong ≤ 8 * bytes) (old x : ULong arch) : setLow bytes old x = x := by
  apply BitVec.eq_of_hasBit
  intro j hj
  rw [hasBit_setLow, if_pos (hj.trans_le hw)]

theorem bitsPerLong_sizeofLong (arch : Arch) : arch.bitsPerLong = 8 * arch.sizeofLong := by cases arch <;> rfl

/-- The addresses of `register_address`. -/
theorem registerAddress_eq (adBytes : Nat) (base reg : ULong arch) :
    registerAddress adBytes base reg = base + lowBytes adBytes reg := by
  unfold registerAddress
  by_cases had : adBytes = arch.sizeofLong
  · rw [if_pos had, lowBytes_of_le]
    rw [had, bitsPerLong_sizeofLong]
  · rw [if_neg had]

theorem Exec.incrementReg_eq (x : Exec arch) (adBytes : Nat) (r : RegIndex) (inc : Int) :
    x.incrementReg adBytes r inc = x.setReg r (setLow adBytes (x.regs r) (x.regs r + BitVec.ofInt _ inc)) := by
  unfold Exec.incrementReg
  dsimp only
  by_cases had : adBytes = arch.sizeofLong
  · rw [if_pos had, setLow_word]
    rw [had, bitsPerLong_sizeofLong]
  · rw [if_neg had]

theorem writeRegister_loaded (regs : RegIndex → ULong arch) (r : RegIndex) {bytes : Nat} (hbytes : OperandSize bytes)
    (v : ULong arch) : writeRegister regs ⟨r, false⟩ bytes v = Function.update regs r (loadedReg bytes (regs r) v) := by
  have hstore : ∀ (n : Nat) (x : ULong arch), storeReg regs ⟨r, false⟩ n x = Function.update regs r (setLow n (regs r) x) :=
    fun _ _ => rfl
  have hword : ∀ x, setLow arch.sizeofLong (regs r) x = x := setLow_word (bitsPerLong_sizeofLong arch).le _
  have hlong : arch.bitsPerLong ≤ 8 * 8 := by cases arch <;> decide
  unfold loadedReg
  rcases hbytes with rfl | rfl | rfl | rfl
  · exact hstore 1 v
  · exact hstore 2 v
  · show storeReg regs ⟨r, false⟩ arch.sizeofLong (lowBytes 4 v) = _
    rw [hstore, hword, if_pos rfl]
  · show storeReg regs ⟨r, false⟩ arch.sizeofLong v = _
    rw [hstore, hword, if_neg (by decide), setLow_word hlong]

namespace Encoding

variable {ctxt : X86EmulateCtxt arch} {e : Encoding}

theorem pointer_zero (r : RegIndex) : e.pointer ctxt r 0 = ctxt.regs r := by
  have hzero : BitVec.ofInt arch.bitsPerLong ((0 : Nat) * e.elementStep ctxt) = 0#_ := by
    simp
  unfold pointer
  rw [hzero, BitVec.add_zero, setLow_self]

theorem pointer_succ (r : RegIndex) (k : Nat) :
    setLow (e.adBytes ctxt) (e.pointer ctxt r k) (e.pointer ctxt r k + BitVec.ofInt _ (e.elementStep ctxt)) =
      e.pointer ctxt r (k + 1) := by
  have hsum : ctxt.regs r + BitVec.ofInt arch.bitsPerLong (k * e.elementStep ctxt) + BitVec.ofInt _ (e.elementStep ctxt) =
      ctxt.regs r + BitVec.ofInt _ ((k + 1 : Nat) * e.elementStep ctxt) := by
    rw [BitVec.add_assoc, ← BitVec.ofInt_add, Nat.cast_succ, Int.add_mul, Int.one_mul]
  unfold pointer
  rw [setLow_setLow, ← hsum]
  exact setLow_congr (lowBytes_add (lowBytes_setLow _ _ _) _) _

end Encoding

/-! ### The decoded instruction -/

/-- The decode flags of a string instruction. -/
def StringFlags (b d : BitVec 8) : Prop :=
  d ≠ 0 ∧ d &&& modRM = 0 ∧ d &&& dstMask = implicitOps ∧ (d &&& movFlag != 0) = true ∧
    (d &&& byteOp != 0) = (b &&& 1 == 0)

instance (b d : BitVec 8) : Decidable (StringFlags b d) := inferInstanceAs (Decidable (_ ∧ _))

theorem stringInsn_flags : ∀ b : BitVec 8, ∀ op ∈ stringInsn b, StringFlags b (opcodeTable.getD b.toNat 0) :=
  table_all (P := fun b d => ∀ op ∈ stringInsn b, StringFlags b d) opcodeTable_length (by decide +kernel)

/-- The instruction without its repetition. -/
def StringInsn.exec (ctxt : X86EmulateCtxt arch) (i : Insn arch) (x : Exec arch) : StringInsn → Emul arch (Exec arch)
  | .movs => LearnKvm.movs ctxt i x
  | .stos => .ret (LearnKvm.stos i x)
  | .lods => LearnKvm.lods i x

theorem specialInsn_string (ctxt : X86EmulateCtxt arch) {i : Insn arch} {op : StringInsn} (hop : stringInsn i.b = some op) :
    specialInsn ctxt i = repeatInsn ctxt i (specialExec ctxt i) >>= fun x => op.exec ctxt i x := by
  have hcases : inCase i.b 0xa4 0xa5 = (op == .movs) ∧ inCase i.b 0xa6 0xa7 = false ∧
      inCase i.b 0xaa 0xab = (op == .stos) ∧ inCase i.b 0xac 0xad = (op == .lods) := by
    unfold stringInsn at hop
    split at hop
    · cases hop
      rename_i hb
      rcases hb with hb | hb <;> rw [hb] <;> decide
    split at hop
    · cases hop
      rename_i hb
      rcases hb with hb | hb <;> rw [hb] <;> decide
    split at hop
    · cases hop
      rename_i hb
      rcases hb with hb | hb <;> rw [hb] <;> decide
    · cases hop
  obtain ⟨hmovs, hcmps, hstos, hlods⟩ := hcases
  unfold specialInsn
  rw [hmovs, hcmps, hstos, hlods]
  cases op <;> rfl

/-- The instruction that is decoded from an encoding. -/
structure Insn.StringAs (ctxt : X86EmulateCtxt arch) (e : Encoding) (op : StringInsn) (i : Insn arch) : Prop where
  onebyte : i.twobyte = false
  opcode : stringInsn i.b = some op
  flags : i.d &&& dstMask = implicitOps
  mov : i.isMov = true
  bytes : i.operandBytes = e.elementBytes ctxt
  adBytes : i.adBytes = e.adBytes ctxt
  overrideBase : i.overrideBase = e.segment
  repPrefix : i.repPrefix = true
  cr2 : i.cr2 = ctxt.cr2
  eip : i.eip = ctxt.rip + BitVec.ofNat _ e.bytes.length

theorem Encoding.prefixes_repPrefix (mode : X86EmulMode) {e : Encoding} (eip : ULong arch) (hrep : 0xf3 ∈ e.legacy) :
    (e.prefixes mode eip).repPrefix = true := by
  have hfold : ∀ l : List (BitVec 8), 0xf3 ∈ l → (l.foldl (Prefixes.apply mode) (start arch mode)).repPrefix = true := by
    intro l hl
    induction l using List.reverseRecOn with
    | nil => cases hl
    | append_singleton l b ih =>
      rw [List.foldl_append]
      show (_ || b == 0xf3) = true
      rcases List.mem_append.1 hl with hl | hb
      · rw [ih hl]
        rfl
      · rw [← List.mem_singleton.1 hb]
        exact Bool.or_true _
  exact hfold e.legacy hrep

theorem decodeRest_string (ctxt : X86EmulateCtxt arch) {e : Encoding} {op : StringInsn} (hop : e.RepString op) :
    ∃ i : Insn arch, e.decodeRest ctxt = .ret i ∧ i.StringAs ctxt e op := by
  obtain ⟨honebyte, hopcode, hrep⟩ := hop
  obtain ⟨hd, hmodrm, hdst, hmov, hbyte⟩ := stringInsn_flags e.opcode op hopcode
  have hentry : e.d = opcodeTable.getD e.opcode.toNat 0 := by
    unfold Encoding.d
    rw [honebyte]
    rfl
  let i : Insn arch := {
    b := e.opcode, twobyte := e.twobyte, mode := ctxt.mode, opBytes := (e.prefixesAt ctxt).opBytes
    adBytes := (e.prefixesAt ctxt).adBytes, overrideBase := (e.prefixesAt ctxt).overrideBase
    lockPrefix := (e.prefixesAt ctxt).lockPrefix, repPrefix := (e.prefixesAt ctxt).repPrefix
    rexPrefix := e.rexBits.rexPrefix, modrmReg := e.rexBits.modrmReg, modrmVal := 0#_, cr2 := ctxt.cr2
    eip := (e.prefixesAt ctxt).eip }
  have hid : i.d = opcodeTable.getD e.opcode.toNat 0 := hentry
  let eip : ULong arch := ctxt.rip + BitVec.ofNat _ e.bytes.length
  have hbase : i.overrideBase = e.segment := Encoding.prefixes_overrideBase ctxt.mode e eip
  have hrepeat : i.repPrefix = true := Encoding.prefixes_repPrefix ctxt.mode eip hrep
  refine ⟨i, ?_, honebyte, hopcode, ?_, ?_, ?_, rfl, hbase, hrepeat, rfl, rfl⟩
  · unfold Encoding.decodeRest decodeOperands
    rw [if_neg (by rw [hentry]; exact hd)]
    exact if_neg (by rw [hid]; exact not_not_intro hmodrm)
  · rw [hid]
    exact hdst
  · unfold Insn.isMov
    rw [hid]
    exact hmov
  · unfold Insn.operandBytes Insn.isByteOp Encoding.elementBytes
    rw [hid, hbyte]
    by_cases hlow : e.opcode &&& 1 = 0
    · rw [if_pos hlow, if_pos (beq_iff_eq.2 hlow)]
    · rw [if_neg hlow, if_neg fun hno => hlow (beq_iff_eq.1 hno)]

/-! ### The registers -/

section

variable {ctxt : X86EmulateCtxt arch} {e : Encoding} {op : StringInsn} {vs : List (ULong arch)} {v left : ULong arch}

@[simp] theorem stringRegs_rcx : stringRegs ctxt e op vs left vcpuRegsRcx = left := if_pos rfl

theorem stringRegs_rsi (hop : op.reads = true) :
    stringRegs ctxt e op vs left vcpuRegsRsi = e.pointer ctxt vcpuRegsRsi vs.length := by
  unfold stringRegs
  rw [if_neg (by decide), if_pos ⟨rfl, hop⟩]

theorem stringRegs_rdi (hop : op.stores = true) :
    stringRegs ctxt e op vs left vcpuRegsRdi = e.pointer ctxt vcpuRegsRdi vs.length := by
  unfold stringRegs
  rw [if_neg (by decide), if_neg fun hno => absurd hno.1 (by decide), if_pos ⟨rfl, hop⟩]

theorem stringRegs_rax (hop : op ≠ .lods) : stringRegs ctxt e op vs left vcpuRegsRax = ctxt.regs vcpuRegsRax := by
  unfold stringRegs
  rw [if_neg (by decide), if_neg fun hno => absurd hno.1 (by decide), if_neg fun hno => absurd hno.1 (by decide),
    if_neg fun hno => hop hno.2]

theorem stringRegs_lods : stringRegs ctxt e .lods vs left vcpuRegsRax =
    vs.foldl (loadedReg (e.elementBytes ctxt)) (ctxt.regs vcpuRegsRax) := by
  unfold stringRegs
  rw [if_neg (by decide), if_neg fun hno => absurd hno.1 (by decide), if_neg fun hno => absurd hno.1 (by decide),
    if_pos ⟨rfl, rfl⟩]

theorem stringRegs_other {r : RegIndex} (hcx : r ≠ vcpuRegsRcx) (hsi : ¬(r = vcpuRegsRsi ∧ op.reads = true))
    (hdi : ¬(r = vcpuRegsRdi ∧ op.stores = true)) (hax : ¬(r = vcpuRegsRax ∧ op = .lods)) :
    stringRegs ctxt e op vs left r = ctxt.regs r := by
  unfold stringRegs
  rw [if_neg hcx, if_neg hsi, if_neg hdi, if_neg hax]

theorem stringRegs_nil (ctxt : X86EmulateCtxt arch) (e : Encoding) (op : StringInsn) :
    stringRegs ctxt e op [] (ctxt.regs vcpuRegsRcx) = ctxt.regs := by
  funext r
  unfold stringRegs
  rw [List.length_nil, Encoding.pointer_zero, Encoding.pointer_zero]
  split
  · rename_i hr
    rw [hr]
  · split
    · rename_i hr
      rw [hr.1]
    · split
      · rename_i hr
        rw [hr.1]
      · split
        · rename_i hr
          rw [hr.1]
          rfl
        · rfl

/-- The context of a later call. -/
def repCtxt (ctxt : X86EmulateCtxt arch) (e : Encoding) (op : StringInsn) (vs : List (ULong arch)) (left cr2 : ULong arch) :
    X86EmulateCtxt arch :=
  { ctxt with regs := stringRegs ctxt e op vs left, cr2 := cr2 }

variable {cr2 : ULong arch}

@[simp] theorem repCtxt_regs : (repCtxt ctxt e op vs left cr2).regs = stringRegs ctxt e op vs left := rfl

theorem repCtxt_pointer {r : RegIndex} {k : Nat} (hr : stringRegs ctxt e op vs left r = e.pointer ctxt r k) :
    e.pointer (repCtxt ctxt e op vs left cr2) r 1 = e.pointer ctxt r (k + 1) := by
  have hone : BitVec.ofInt arch.bitsPerLong ((1 : Nat) * e.elementStep ctxt) = BitVec.ofInt _ (e.elementStep ctxt) := by
    rw [Nat.cast_one, Int.one_mul]
  have hstep : setLow (e.adBytes ctxt) (e.pointer ctxt r k) (e.pointer ctxt r k + BitVec.ofInt _ (e.elementStep ctxt)) =
      e.pointer ctxt r (k + 1) := Encoding.pointer_succ r k
  rw [← hr, ← hone] at hstep
  exact hstep

theorem repCtxt_source (hop : op.reads = true) :
    e.sourceAddr (repCtxt ctxt e op vs left cr2) 0 = e.sourceAddr ctxt vs.length := by
  unfold Encoding.sourceAddr
  rw [Encoding.pointer_zero]
  show e.sourceBase ctxt + lowBytes (e.adBytes ctxt) (stringRegs ctxt e op vs left vcpuRegsRsi) = _
  rw [stringRegs_rsi hop]

theorem repCtxt_dest (hop : op.stores = true) :
    e.destAddr (repCtxt ctxt e op vs left cr2) 0 = e.destAddr ctxt vs.length := by
  unfold Encoding.destAddr
  rw [Encoding.pointer_zero]
  show ctxt.esBase + lowBytes (e.adBytes ctxt) (stringRegs ctxt e op vs left vcpuRegsRdi) = _
  rw [stringRegs_rdi hop]

/-- The first transfer of a later call is a later transfer. -/
theorem Transfer.later {t : List (Event (OpReply arch))} (ht : Transfer (repCtxt ctxt e op vs left cr2) e 0 op v t) :
    Transfer ctxt e vs.length op v t := by
  cases ht with
  | movs hstore =>
    rw [repCtxt_source rfl]
    rw [repCtxt_dest rfl] at hstore
    exact .movs hstore
  | stos hstore =>
    have hrax : (repCtxt ctxt e .stos vs left cr2).regs vcpuRegsRax = ctxt.regs vcpuRegsRax := by
      rw [repCtxt_regs, stringRegs_rax (by decide)]
    rw [repCtxt_dest rfl, hrax] at hstore
    rw [hrax]
    exact .stos hstore
  | lods =>
    rw [repCtxt_source rfl]
    exact .lods

theorem stringRegs_later (left' : ULong arch) : stringRegs (repCtxt ctxt e op vs left cr2) e op [v] left' =
    stringRegs ctxt e op (vs ++ [v]) left' := by
  have hlen : (vs ++ [v]).length = vs.length + 1 := List.length_append
  funext r
  unfold stringRegs
  rw [hlen]
  by_cases hcx : r = vcpuRegsRcx
  · rw [if_pos hcx, if_pos hcx]
  rw [if_neg hcx, if_neg hcx]
  by_cases hsi : r = vcpuRegsRsi ∧ op.reads = true
  · rw [if_pos hsi, if_pos hsi]
    exact repCtxt_pointer (stringRegs_rsi hsi.2)
  rw [if_neg hsi, if_neg hsi]
  by_cases hdi : r = vcpuRegsRdi ∧ op.stores = true
  · rw [if_pos hdi, if_pos hdi]
    exact repCtxt_pointer (stringRegs_rdi hdi.2)
  rw [if_neg hdi, if_neg hdi]
  by_cases hax : r = vcpuRegsRax ∧ op = .lods
  · obtain ⟨rfl, rfl⟩ := hax
    have hrax : (repCtxt ctxt e .lods vs left cr2).regs vcpuRegsRax =
        vs.foldl (loadedReg (e.elementBytes ctxt)) (ctxt.regs vcpuRegsRax) := by
      rw [repCtxt_regs, stringRegs_lods]
    rw [if_pos ⟨rfl, rfl⟩, if_pos ⟨rfl, rfl⟩, List.foldl_append, hrax]
    rfl
  · rw [if_neg hax, if_neg hax]
    exact stringRegs_other hcx hsi hdi hax

/-- The registers after the first element. -/
theorem stringRegs_movs : Function.update (Function.update (Function.update ctxt.regs vcpuRegsRcx left) vcpuRegsRsi
    (e.pointer ctxt vcpuRegsRsi 1)) vcpuRegsRdi (e.pointer ctxt vcpuRegsRdi 1) = stringRegs ctxt e .movs [v] left := by
  funext r
  by_cases hdi : r = vcpuRegsRdi
  · rw [hdi, Function.update_self]
    rfl
  rw [Function.update_of_ne hdi]
  by_cases hsi : r = vcpuRegsRsi
  · rw [hsi, Function.update_self]
    rfl
  rw [Function.update_of_ne hsi]
  by_cases hcx : r = vcpuRegsRcx
  · rw [hcx, Function.update_self]
    rfl
  rw [Function.update_of_ne hcx, stringRegs_other hcx (fun hno => hsi hno.1) (fun hno => hdi hno.1) (by simp)]

theorem stringRegs_stos : Function.update (Function.update ctxt.regs vcpuRegsRcx left) vcpuRegsRdi
    (e.pointer ctxt vcpuRegsRdi 1) = stringRegs ctxt e .stos [v] left := by
  funext r
  by_cases hdi : r = vcpuRegsRdi
  · rw [hdi, Function.update_self]
    rfl
  rw [Function.update_of_ne hdi]
  by_cases hcx : r = vcpuRegsRcx
  · rw [hcx, Function.update_self]
    rfl
  rw [Function.update_of_ne hcx, stringRegs_other hcx (by simp [StringInsn.reads]) (fun hno => hdi hno.1) (by simp)]

theorem stringRegs_lods_first : Function.update (Function.update (Function.update ctxt.regs vcpuRegsRcx left) vcpuRegsRsi
    (e.pointer ctxt vcpuRegsRsi 1)) vcpuRegsRax (loadedReg (e.elementBytes ctxt) (ctxt.regs vcpuRegsRax) v) =
      stringRegs ctxt e .lods [v] left := by
  funext r
  by_cases hax : r = vcpuRegsRax
  · rw [hax, Function.update_self]
    rfl
  rw [Function.update_of_ne hax]
  by_cases hsi : r = vcpuRegsRsi
  · rw [hsi, Function.update_self]
    rfl
  rw [Function.update_of_ne hsi]
  by_cases hcx : r = vcpuRegsRcx
  · rw [hcx, Function.update_self]
    rfl
  rw [Function.update_of_ne hcx, stringRegs_other hcx (fun hno => hsi hno.1) (by simp [StringInsn.stores])
    fun hno => hax hno.1]

end

/-! ### One call -/

section

variable {β : Type} {h : (c : OpCall arch) → σ → OpReply arch c × σ} {t : σ} {ctxt : X86EmulateCtxt arch} {e : Encoding}
  {op : StringInsn} {i : Insn arch}

/-- No access was refused. -/
def Accepted (t : List (Event (OpReply arch))) : Prop := ∀ ev ∈ accesses t, ev.1.refusal ev.2 = none

theorem readEmulated_accepted {addr : ULong arch} {n : Nat} {f : ULong arch → Emul arch β}
    (hacc : Accepted ((Emul.readEmulated addr n >>= f).run h t).trace) :
    ∃ v, (Emul.readEmulated addr n >>= f).run h t =
      { (f v).run h (h (.readEmulated addr n) t).2 with
        trace := ⟨.readEmulated addr n, .ok v⟩ :: ((f v).run h (h (.readEmulated addr n) t).2).trace } := by
  have hrun : (Emul.readEmulated addr n >>= f).run h t =
      { (Emul.orDone (h (.readEmulated addr n) t).1 >>= f).run h (h (.readEmulated addr n) t).2 with
        trace := ⟨.readEmulated addr n, (h (.readEmulated addr n) t).1⟩ ::
          ((Emul.orDone (h (.readEmulated addr n) t).1 >>= f).run h (h (.readEmulated addr n) t).2).trace } := rfl
  rw [hrun] at hacc ⊢
  cases hv : (h (.readEmulated addr n) t).1 with
  | ok v => exact ⟨v, rfl⟩
  | error rc =>
    have hno := hacc ⟨.readEmulated addr n, (h (.readEmulated addr n) t).1⟩ (List.mem_cons_self ..)
    rw [hv] at hno
    cases hno

theorem writeback_accepted {y : Exec arch} (addr : ULong arch) (hmov : y.mov = true) (hptr : y.dst.ptr = .mem addr)
    (hacc : Accepted ((writeback y).run h t).trace) : ((writeback y).run h t).result = .ok y ∧
      ∃ ev, IsStore addr y.dst.val y.dst.bytes ev ∧ accesses ((writeback y).run h t).trace = [ev] := by
  rw [writeback_call hptr (by rw [hmov, Bool.true_or])] at hacc ⊢
  cases hlock : y.lockPrefix with
  | true =>
    rw [hlock] at hacc
    rw [if_pos rfl] at hacc ⊢
    have hrun : (Emul.cmpxchgEmulated addr y.dst.origVal y.dst.val y.dst.bytes >>= fun _ => .ret y).run h t =
        { (Emul.orDone (h (.cmpxchgEmulated addr y.dst.origVal y.dst.val y.dst.bytes) t).1 >>= fun _ => .ret y).run h
            (h (.cmpxchgEmulated addr y.dst.origVal y.dst.val y.dst.bytes) t).2 with
          trace := ⟨.cmpxchgEmulated addr y.dst.origVal y.dst.val y.dst.bytes,
              (h (.cmpxchgEmulated addr y.dst.origVal y.dst.val y.dst.bytes) t).1⟩ ::
            ((Emul.orDone (h (.cmpxchgEmulated addr y.dst.origVal y.dst.val y.dst.bytes) t).1 >>= fun _ => .ret y).run h
              (h (.cmpxchgEmulated addr y.dst.origVal y.dst.val y.dst.bytes) t).2).trace } := rfl
    rw [hrun] at hacc ⊢
    cases hv : (h (.cmpxchgEmulated addr y.dst.origVal y.dst.val y.dst.bytes) t).1 with
    | ok u => exact ⟨rfl, _, .locked y.dst.origVal, rfl⟩
    | error rc =>
      have hno := hacc ⟨.cmpxchgEmulated addr y.dst.origVal y.dst.val y.dst.bytes,
        (h (.cmpxchgEmulated addr y.dst.origVal y.dst.val y.dst.bytes) t).1⟩ (List.mem_cons_self ..)
      rw [hv] at hno
      cases hno
  | false =>
    rw [hlock] at hacc
    rw [if_neg Bool.false_ne_true] at hacc ⊢
    have hrun : (Emul.writeEmulated addr y.dst.val y.dst.bytes >>= fun _ => .ret y).run h t =
        { (Emul.orDone (h (.writeEmulated addr y.dst.val y.dst.bytes) t).1 >>= fun _ => .ret y).run h
            (h (.writeEmulated addr y.dst.val y.dst.bytes) t).2 with
          trace := ⟨.writeEmulated addr y.dst.val y.dst.bytes, (h (.writeEmulated addr y.dst.val y.dst.bytes) t).1⟩ ::
            ((Emul.orDone (h (.writeEmulated addr y.dst.val y.dst.bytes) t).1 >>= fun _ => .ret y).run h
              (h (.writeEmulated addr y.dst.val y.dst.bytes) t).2).trace } := rfl
    rw [hrun] at hacc ⊢
    cases hv : (h (.writeEmulated addr y.dst.val y.dst.bytes) t).1 with
    | ok u => exact ⟨rfl, _, .write, rfl⟩
    | error rc =>
      have hno := hacc ⟨.writeEmulated addr y.dst.val y.dst.bytes, (h (.writeEmulated addr y.dst.val y.dst.bytes) t).1⟩
        (List.mem_cons_self ..)
      rw [hv] at hno
      cases hno

theorem stringStep_eq (ctxt : X86EmulateCtxt arch) (e : Encoding) {x : Exec arch} (hflags : x.eflags = ctxt.eflags) (hbytes : x.dst.bytes = e.elementBytes ctxt) :
    x.stringStep = e.elementStep ctxt := by
  unfold Exec.stringStep Encoding.elementStep
  rw [hbytes, ← hflags, ← Exec.flag_bit x (show 10 < 32 by decide)]
  rfl

theorem incrementReg_pointer {x : Exec arch} {r : RegIndex} (hr : x.regs r = ctxt.regs r) :
    x.incrementReg (e.adBytes ctxt) r (e.elementStep ctxt) = x.setReg r (e.pointer ctxt r 1) := by
  have hstep : setLow (e.adBytes ctxt) (e.pointer ctxt r 0) (e.pointer ctxt r 0 + BitVec.ofInt _ (e.elementStep ctxt)) =
      e.pointer ctxt r 1 := Encoding.pointer_succ r 0
  rw [Encoding.pointer_zero, ← hr] at hstep
  rw [Exec.incrementReg_eq, hstep]

/-- What MOVS leaves in the shadow state. -/
def movsExec (ctxt : X86EmulateCtxt arch) (i : Insn arch) (x : Exec arch) (v : ULong arch) : Exec arch :=
  let x := { x with dst :=
    ⟨.mem (registerAddress i.adBytes ctxt.esBase (x.regs vcpuRegsRdi)), i.operandBytes, v, x.dst.origVal⟩ }
  let x := x.incrementReg i.adBytes vcpuRegsRsi x.stringStep
  x.incrementReg i.adBytes vcpuRegsRdi x.stringStep

theorem movs_eq (ctxt : X86EmulateCtxt arch) (i : Insn arch) (x : Exec arch) : movs ctxt i x =
    Emul.readEmulated (registerAddress i.adBytes (ctxt.base (i.overrideBase.getD .ds)) (x.regs vcpuRegsRsi)) i.operandBytes
      >>= fun v => .ret (movsExec ctxt i x v) := by
  unfold movs
  cases i.overrideBase <;> rfl

/-- The shadow state of an instruction whose repetition was counted. -/
def countedExec (ctxt : X86EmulateCtxt arch) (i : Insn arch) (left : ULong arch) : Exec arch :=
  { (specialExec ctxt i).setReg vcpuRegsRcx left with eip := ctxt.rip }

theorem countedExec_regs {left : ULong arch} {r : RegIndex} (hr : r ≠ vcpuRegsRcx) :
    (countedExec ctxt i left).regs r = ctxt.regs r := Function.update_of_ne hr _ _

/-- A call has transferred an element, and RIP is where it was. -/
structure Transferred (ctxt : X86EmulateCtxt arch) (e : Encoding) (op : StringInsn) (left : ULong arch)
    (o : Calls.Outcome (OpReply arch) (Exit arch) σ (Exec arch)) (v : ULong arch) (y : Exec arch) : Prop where
  result : o.result = .ok y
  transfer : Transfer ctxt e 0 op v (accesses o.trace)
  regs : y.regs = stringRegs ctxt e op [v] left
  eip : y.eip = ctxt.rip
  eflags : y.eflags = ctxt.eflags

theorem movs_run (hi : i.StringAs ctxt e .movs) (left : ULong arch)
    (hacc : Accepted ((movs ctxt i (countedExec ctxt i left) >>= writeback).run h t).trace) :
    ∃ v y, Transferred ctxt e .movs left ((movs ctxt i (countedExec ctxt i left) >>= writeback).run h t) v y := by
  have hsource : registerAddress i.adBytes (ctxt.base (i.overrideBase.getD .ds))
      ((countedExec ctxt i left).regs vcpuRegsRsi) = e.sourceAddr ctxt 0 := by
    rw [registerAddress_eq, countedExec_regs (by decide), hi.overrideBase, hi.adBytes]
    unfold Encoding.sourceAddr
    rw [Encoding.pointer_zero]
    rfl
  have hdest : registerAddress i.adBytes ctxt.esBase ((countedExec ctxt i left).regs vcpuRegsRdi) = e.destAddr ctxt 0 := by
    rw [registerAddress_eq, countedExec_regs (by decide), hi.adBytes]
    unfold Encoding.destAddr
    rw [Encoding.pointer_zero]
  -- both pointers are stepped
  have hexec : ∀ v, movsExec ctxt i (countedExec ctxt i left) v =
      { countedExec ctxt i left with
        dst := ⟨.mem (e.destAddr ctxt 0), e.elementBytes ctxt, v, 0#_⟩
        regs := stringRegs ctxt e .movs [v] left } := by
    intro v
    unfold movsExec
    dsimp only
    rw [hdest, hi.bytes, hi.adBytes, stringStep_eq ctxt e rfl rfl, incrementReg_pointer,
      stringStep_eq ctxt e rfl rfl, incrementReg_pointer, ← stringRegs_movs (v := v)]
    · rfl
    · show Function.update (countedExec ctxt i left).regs vcpuRegsRsi (e.pointer ctxt vcpuRegsRsi 1) vcpuRegsRdi =
        ctxt.regs vcpuRegsRdi
      rw [Function.update_of_ne (by decide)]
      exact countedExec_regs (by decide)
    · show (countedExec ctxt i left).regs vcpuRegsRsi = ctxt.regs vcpuRegsRsi
      exact countedExec_regs (by decide)
  rw [movs_eq, Prog.bind_assoc, hsource, hi.bytes] at hacc ⊢
  obtain ⟨v, hrun⟩ := readEmulated_accepted hacc
  rw [hrun] at hacc ⊢
  rw [Prog.ret_bind, hexec] at hacc ⊢
  obtain ⟨hres, ev, hstore, htrace⟩ := writeback_accepted (e.destAddr ctxt 0) hi.mov rfl
    fun ev hev => hacc ev (List.mem_cons_of_mem _ hev)
  refine ⟨v, _, hres, ?_, rfl, rfl, rfl⟩
  have hall : accesses (⟨.readEmulated (e.sourceAddr ctxt 0) (e.elementBytes ctxt), .ok v⟩ :: ((writeback
      { countedExec ctxt i left with
        dst := ⟨.mem (e.destAddr ctxt 0), e.elementBytes ctxt, v, 0#_⟩
        regs := stringRegs ctxt e .movs [v] left }).run h
          (h (.readEmulated (e.sourceAddr ctxt 0) (e.elementBytes ctxt)) t).2).trace) =
      [⟨.readEmulated (e.sourceAddr ctxt 0) (e.elementBytes ctxt), .ok v⟩, ev] := congrArg (List.cons _) htrace
  exact hall ▸ .movs hstore

theorem stos_run (hi : i.StringAs ctxt e .stos) (left : ULong arch) (hlinear : ctxt.cr2 = e.destAddr ctxt 0)
    (hacc : Accepted ((writeback (stos i (countedExec ctxt i left))).run h t).trace) :
    ∃ v y, Transferred ctxt e .stos left ((writeback (stos i (countedExec ctxt i left))).run h t) v y := by
  have hrax : (countedExec ctxt i left).regs vcpuRegsRax = ctxt.regs vcpuRegsRax := countedExec_regs (by decide)
  have hexec : stos i (countedExec ctxt i left) =
      { countedExec ctxt i left with
        dst := ⟨.mem (e.destAddr ctxt 0), e.elementBytes ctxt, ctxt.regs vcpuRegsRax, 0#_⟩
        regs := stringRegs ctxt e .stos [ctxt.regs vcpuRegsRax] left } := by
    unfold stos
    dsimp only
    rw [hi.cr2, hlinear, hi.bytes, hi.adBytes, hrax, stringStep_eq ctxt e rfl rfl, incrementReg_pointer,
      ← stringRegs_stos (v := ctxt.regs vcpuRegsRax)]
    · rfl
    · show (countedExec ctxt i left).regs vcpuRegsRdi = ctxt.regs vcpuRegsRdi
      exact countedExec_regs (by decide)
  rw [hexec] at hacc ⊢
  obtain ⟨hres, ev, hstore, htrace⟩ := writeback_accepted (e.destAddr ctxt 0) hi.mov rfl hacc
  refine ⟨ctxt.regs vcpuRegsRax, _, hres, ?_, rfl, rfl, rfl⟩
  rw [htrace]
  exact .stos hstore

theorem lods_run (hi : i.StringAs ctxt e .lods) (hsize : OperandSize (e.elementBytes ctxt)) (left : ULong arch)
    (hlinear : ctxt.cr2 = e.sourceAddr ctxt 0)
    (hacc : Accepted ((lods i (countedExec ctxt i left) >>= writeback).run h t).trace) :
    ∃ v y, Transferred ctxt e .lods left ((lods i (countedExec ctxt i left) >>= writeback).run h t) v y := by
  -- the pointer is stepped, and the value goes to the accumulator
  let y : ULong arch → Exec arch := fun v => { countedExec ctxt i left with
    dst := ⟨.reg ⟨vcpuRegsRax, false⟩, e.elementBytes ctxt, v, 0#_⟩
    regs := Function.update (countedExec ctxt i left).regs vcpuRegsRsi (e.pointer ctxt vcpuRegsRsi 1) }
  have hlods : lods i (countedExec ctxt i left) =
      Emul.readEmulated (e.sourceAddr ctxt 0) (e.elementBytes ctxt) >>= fun v => .ret (y v) := by
    unfold lods
    rw [hi.cr2, hlinear, hi.bytes]
    refine congrArg _ (funext fun v => ?_)
    dsimp only
    rw [hi.adBytes, stringStep_eq ctxt e rfl rfl, incrementReg_pointer]
    · rfl
    · show (countedExec ctxt i left).regs vcpuRegsRsi = ctxt.regs vcpuRegsRsi
      exact countedExec_regs (by decide)
  have hback : ∀ v, writeback (y v) = .ret { y v with regs := stringRegs ctxt e .lods [v] left } := by
    intro v
    have hrax : (y v).regs vcpuRegsRax = ctxt.regs vcpuRegsRax := by
      show Function.update (countedExec ctxt i left).regs vcpuRegsRsi (e.pointer ctxt vcpuRegsRsi 1) vcpuRegsRax = _
      rw [Function.update_of_ne (by decide)]
      exact countedExec_regs (by decide)
    have hregs : writeRegister (y v).regs ⟨vcpuRegsRax, false⟩ (e.elementBytes ctxt) v = stringRegs ctxt e .lods [v] left := by
      rw [writeRegister_loaded _ _ hsize, hrax]
      exact stringRegs_lods_first
    have hmov : (y v).mov = true := hi.mov
    have hcond : ((y v).mov || (y v).dst.origVal != (y v).dst.val) = true := by rw [hmov, Bool.true_or]
    unfold writeback
    rw [if_pos hcond, ← hregs]
    rfl
  rw [hlods, Prog.bind_assoc] at hacc ⊢
  obtain ⟨v, hrun⟩ := readEmulated_accepted hacc
  rw [hrun, Prog.ret_bind, hback]
  exact ⟨v, _, rfl, .lods, rfl, rfl, rfl⟩

/-- A call with a count: the next element. -/
theorem string_run {cpu : HostCpu arch} {hasCmpxchg8b : Bool} (hi : i.StringAs ctxt e op)
    (hsize : OperandSize (e.elementBytes ctxt)) (hcount : ctxt.regs vcpuRegsRcx ≠ 0#_)
    (hlinear : op ≠ .movs → ctxt.cr2 = e.currentElement ctxt op)
    (hacc : Accepted ((executeAndWriteback cpu hasCmpxchg8b ctxt i).run h t).trace) :
    ∃ v y, Transferred ctxt e op (ctxt.regs vcpuRegsRcx - 1#_)
      ((executeAndWriteback cpu hasCmpxchg8b ctxt i).run h t) v y := by
  have hexec : executeAndWriteback cpu hasCmpxchg8b ctxt i =
      op.exec ctxt i (countedExec ctxt i (ctxt.regs vcpuRegsRcx - 1#_)) >>= writeback := by
    have hrepeat : repeatInsn ctxt i (specialExec ctxt i) = .ret (countedExec ctxt i (ctxt.regs vcpuRegsRcx - 1#_)) := by
      unfold repeatInsn
      have hregs : ¬(specialExec ctxt i).regs vcpuRegsRcx = 0#_ := hcount
      rw [if_pos hi.repPrefix, if_neg hregs]
      rfl
    have hspecial : execute cpu hasCmpxchg8b ctxt i = specialInsn ctxt i := by
      unfold execute
      rw [if_pos hi.flags, if_neg (by rw [hi.onebyte]; exact Bool.false_ne_true)]
    unfold executeAndWriteback
    rw [hspecial, specialInsn_string ctxt hi.opcode, hrepeat]
    rfl
  rw [hexec] at hacc ⊢
  cases op with
  | movs => exact movs_run hi _ hacc
  | stos => exact stos_run hi _ (hlinear (by decide)) hacc
  | lods => exact lods_run hi hsize _ (hlinear (by decide)) hacc

/-- A call without a count: nothing is left to do. -/
theorem string_done {cpu : HostCpu arch} {hasCmpxchg8b : Bool} (hi : i.StringAs ctxt e op)
    (hcount : ctxt.regs vcpuRegsRcx = 0#_) : executeAndWriteback cpu hasCmpxchg8b ctxt i =
      .fail (.repDone (ctxt.rip + BitVec.ofNat _ e.bytes.length)) := by
  have hrepeat : repeatInsn ctxt i (specialExec ctxt i) = .fail (.repDone i.eip) := by
    unfold repeatInsn
    have hregs : (specialExec ctxt i).regs vcpuRegsRcx = 0#_ := hcount
    rw [if_pos hi.repPrefix, if_pos hregs]
    rfl
  have hspecial : execute cpu hasCmpxchg8b ctxt i = specialInsn ctxt i := by
    unfold execute
    rw [if_pos hi.flags, if_neg (by rw [hi.onebyte]; exact Bool.false_ne_true)]
  unfold executeAndWriteback
  rw [hspecial, specialInsn_string ctxt hi.opcode, hrepeat, hi.eip]
  rfl

/-- What a call does at a string instruction with REP. -/
theorem rep_call (ctxt : X86EmulateCtxt arch) (cpu : HostCpu arch) (hasCmpxchg8b : Bool) {s : σ} (hm : HostMode arch ctxt.mode) (he : e.Valid ctxt.mode)
    (hlen : e.legacy.length < 8) (hop : e.RepString op) (hat : FetchesTo h (ctxt.rip + ctxt.csBase) e.bytes s t) :
    (ctxt.regs vcpuRegsRcx = 0#_ → ((emulate cpu hasCmpxchg8b ctxt).run h s).result =
        .error (.repDone (ctxt.rip + BitVec.ofNat _ e.bytes.length)) ∧
      accesses ((emulate cpu hasCmpxchg8b ctxt).run h s).trace = []) ∧
    (ctxt.regs vcpuRegsRcx ≠ 0#_ → (op ≠ .movs → ctxt.cr2 = e.currentElement ctxt op) →
      Accepted ((emulate cpu hasCmpxchg8b ctxt).run h s).trace →
        ∃ v y, Transferred ctxt e op (ctxt.regs vcpuRegsRcx - 1#_) ((emulate cpu hasCmpxchg8b ctxt).run h s) v y) := by
  obtain ⟨i, hdecode, hi⟩ := decodeRest_string ctxt hop
  obtain ⟨sizes, hs⟩ := hm.sizes
  have hsize : OperandSize (e.elementBytes ctxt) := by
    have hsizes := Encoding.prefixes_sizes hs he (ctxt.rip + BitVec.ofNat _ e.bytes.length)
    unfold Encoding.elementBytes
    split
    · exact Or.inl rfl
    · rcases hsizes.op with h2 | h4 | ⟨h8, -⟩
      · exact Or.inr (Or.inl h2)
      · exact Or.inr (Or.inr (Or.inl h4))
      · exact Or.inr (Or.inr (Or.inr h8))
  have hhead := decode_head hm he hlen hat
  rw [hdecode] at hhead
  have hsame : SameRun ((emulate cpu hasCmpxchg8b ctxt).run h s) ((executeAndWriteback cpu hasCmpxchg8b ctxt i).run h t) := by
    rw [emulate_eq]
    exact hhead.bind _
  constructor
  · intro hcount
    rw [string_done hi hcount] at hsame
    exact ⟨hsame.result, hsame.accesses⟩
  · intro hcount hlinear hacc
    unfold Accepted at hacc
    rw [hsame.accesses] at hacc
    obtain ⟨v, y, hresult, htransfer, hregs, heip, hflags⟩ := string_run hi hsize hcount hlinear hacc
    exact ⟨v, y, hsame.result.trans hresult, hsame.accesses ▸ htransfer, hregs, heip, hflags⟩

end

/-! ### All calls -/

section

variable {h : (c : OpCall arch) → σ → OpReply arch c × σ} {cpu : HostCpu arch} {hasCmpxchg8b : Bool}
  {cr2 : Nat → ULong arch} {ctxt : X86EmulateCtxt arch} {s : σ} {e : Encoding} {op : StringInsn}

theorem Encoding.length_pos (hlen : e.legacy.length < 8) :
    (BitVec.ofNat arch.bitsPerLong e.bytes.length : ULong arch) ≠ 0#_ := by
  have hlong : 2 ^ 32 ≤ 2 ^ arch.bitsPerLong := by cases arch <;> decide
  have hopcode : e.opcodeBytes.length = 1 ∨ e.opcodeBytes.length = 2 := by
    unfold Encoding.opcodeBytes
    cases e.twobyte
    · exact Or.inl rfl
    · exact Or.inr rfl
  have hrex : e.rex.toList.length ≤ 1 := by cases e.rex <;> simp
  have hbytes : e.bytes.length = e.legacy.length + (e.rex.toList.length + e.opcodeBytes.length) := by
    unfold Encoding.bytes
    rw [List.length_append, List.length_append]
  intro hzero
  have hnat := congrArg BitVec.toNat hzero
  rw [BitVec.toNat_ofNat, Nat.mod_eq_of_lt (by omega)] at hnat
  have hnone : (0#_ : BitVec arch.bitsPerLong).toNat = 0 := rfl
  omega

theorem RipStays.mono {j k : Nat} (hk : RipStays h cpu hasCmpxchg8b cr2 ctxt s k) (hjk : j ≤ k) :
    RipStays h cpu hasCmpxchg8b cr2 ctxt s j := fun i hi => hk i (hi.trans hjk)

theorem RipStays.succ {k : Nat} (hk : RipStays h cpu hasCmpxchg8b cr2 ctxt s k)
    (hrip : (repCalls h cpu hasCmpxchg8b cr2 ctxt s (k + 1)).ctxt.rip = ctxt.rip) :
    RipStays h cpu hasCmpxchg8b cr2 ctxt s (k + 1) := by
  intro j hj
  rcases Nat.lt_or_ge j (k + 1) with hlt | hge
  · exact hk j (Nat.lt_succ_iff.1 hlt)
  · rw [Nat.le_antisymm hj hge]
    exact hrip

/-- The call after which RIP has moved is one only. -/
theorem RipStays.unique {j k : Nat} (hj : RipStays h cpu hasCmpxchg8b cr2 ctxt s j)
    (hjm : (repCalls h cpu hasCmpxchg8b cr2 ctxt s (j + 1)).ctxt.rip ≠ ctxt.rip)
    (hk : RipStays h cpu hasCmpxchg8b cr2 ctxt s k)
    (hkm : (repCalls h cpu hasCmpxchg8b cr2 ctxt s (k + 1)).ctxt.rip ≠ ctxt.rip) : j = k := by
  rcases Nat.lt_trichotomy j k with hlt | heq | hgt
  · exact absurd (hk (j + 1) hlt) hjm
  · exact heq
  · exact absurd (hj (k + 1) hgt) hkm

/-- The accesses of an element are as many for each element. -/
theorem Transfers.length {vs : List (ULong arch)} {t : List (Event (OpReply arch))} (ht : Transfers ctxt e op vs t) :
    t.length = (if op = .movs then 2 else 1) * vs.length := by
  induction ht with
  | nil => rfl
  | snoc before element ih =>
    rw [List.length_append, List.length_append, ih, List.length_singleton, Nat.mul_add, Nat.mul_one]
    congr 1
    cases element <;> rfl

/-- After some calls: as many elements are transferred, and the count is as much smaller. -/
structure RepAt (r : RepState arch σ) (ctxt : X86EmulateCtxt arch) (e : Encoding) (op : StringInsn) (vs : List (ULong arch))
    (cr2 : ULong arch) : Prop where
  context : r.ctxt = repCtxt ctxt e op vs (ctxt.regs vcpuRegsRcx - BitVec.ofNat _ vs.length) cr2
  transfers : Transfers ctxt e op vs r.trace

theorem repCtxt_rcx {vs : List (ULong arch)} {left a : ULong arch} :
    (repCtxt ctxt e op vs left a).regs vcpuRegsRcx = left := by
  rw [repCtxt_regs, stringRegs_rcx]

/-- The count is not 0 before as many elements as it says are transferred. -/
theorem count_left {k : Nat} (hk : k < (ctxt.regs vcpuRegsRcx).toNat) :
    ctxt.regs vcpuRegsRcx - BitVec.ofNat _ k ≠ 0#_ := by
  intro hzero
  have heq : ctxt.regs vcpuRegsRcx = BitVec.ofNat _ k := by
    rw [← BitVec.sub_add_cancel (ctxt.regs vcpuRegsRcx) (BitVec.ofNat _ k), hzero, BitVec.zero_add]
  have hlt : k < 2 ^ arch.bitsPerLong := hk.trans (ctxt.regs vcpuRegsRcx).isLt
  rw [heq, BitVec.toNat_ofNat, Nat.mod_eq_of_lt hlt] at hk
  exact absurd hk (lt_irrefl k)

/-- A call before the count is 0. -/
theorem RepAt.call (hm : HostMode arch ctxt.mode) (he : e.Valid ctxt.mode) (hlen : e.legacy.length < 8)
    (hop : e.RepString op) {r : RepState arch σ} {vs : List (ULong arch)} {a b : ULong arch} {t : σ}
    (hk : vs.length < (ctxt.regs vcpuRegsRcx).toNat) (hat : RepAt r ctxt e op vs a)
    (hfetch : FetchesTo h (ctxt.rip + ctxt.csBase) e.bytes r.state t)
    (haccepted : ∀ ev ∈ (r.call h cpu hasCmpxchg8b b).trace, ev.1.refusal ev.2 = none)
    (hlinear : op ≠ .movs → b = e.currentElement r.ctxt op) :
    ∃ v, RepAt (r.call h cpu hasCmpxchg8b b) ctxt e op (vs ++ [v]) b := by
  obtain ⟨hctxt, htransfers⟩ := hat
  have hcr2 : { r.ctxt with cr2 := b } =
      repCtxt ctxt e op vs (ctxt.regs vcpuRegsRcx - BitVec.ofNat _ vs.length) b := by
    rw [hctxt]
    rfl
  have hleft := count_left hk
  unfold RepState.call at haccepted ⊢
  rw [hcr2] at haccepted ⊢
  obtain ⟨-, hgo⟩ := rep_call (repCtxt ctxt e op vs (ctxt.regs vcpuRegsRcx - BitVec.ofNat _ vs.length) b) cpu
    hasCmpxchg8b hm he hlen hop hfetch
  rw [repCtxt_rcx] at hgo
  obtain ⟨v, y, hresult, htransfer, hregs, heip, hflags⟩ := hgo hleft
    (fun hne => (hlinear hne).trans (by rw [hctxt]; rfl)) fun ev hev => haccepted ev (List.mem_append_right _ hev)
  have hcount : ctxt.regs vcpuRegsRcx - BitVec.ofNat _ vs.length - 1#_ =
      ctxt.regs vcpuRegsRcx - BitVec.ofNat _ (vs ++ [v]).length := by
    have hone : BitVec.ofNat arch.bitsPerLong (vs ++ [v]).length = BitVec.ofNat _ vs.length + 1#_ := by
      rw [List.length_append, List.length_singleton]
      exact BitVec.ofNat_add ..
    rw [hone, BitVec.sub_sub]
  rw [hcount, stringRegs_later] at hregs
  refine ⟨v, ?_, htransfers.snoc htransfer.later⟩
  show (X86EmulateCtxt.finish _ ((emulate cpu hasCmpxchg8b _).run h r.state).result).2 = _
  rw [hresult]
  show { repCtxt ctxt e op vs _ b with regs := y.regs, rip := y.eip, eflags := y.eflags } = _
  rw [hregs, heip, hflags]
  rfl

/-- All calls up to the one that finds the count 0. -/
theorem rep_invariant (hm : HostMode arch ctxt.mode) (he : e.Valid ctxt.mode) (hlen : e.legacy.length < 8)
    (hop : e.RepString op) (hr : RepRuns h cpu hasCmpxchg8b cr2 ctxt s e op) {k : Nat}
    (hk : k ≤ (ctxt.regs vcpuRegsRcx).toNat) :
    RipStays h cpu hasCmpxchg8b cr2 ctxt s k ∧
      ∃ vs a, vs.length = k ∧ RepAt (repCalls h cpu hasCmpxchg8b cr2 ctxt s k) ctxt e op vs a := by
  induction k with
  | zero =>
    refine ⟨fun j hj => ?_, [], ctxt.cr2, rfl, ?_, .nil⟩
    · rw [Nat.le_zero.1 hj]
      rfl
    · have hcount : ctxt.regs vcpuRegsRcx - BitVec.ofNat _ ([] : List (ULong arch)).length = ctxt.regs vcpuRegsRcx := by
        simp
      rw [hcount]
      unfold repCtxt
      rw [stringRegs_nil]
      rfl
  | succ k ih =>
    obtain ⟨hstays, vs, a, hvs, hat⟩ := ih (Nat.le_of_succ_le hk)
    obtain ⟨t, hfetch⟩ := hr.fetched k hstays
    obtain ⟨v, hnext⟩ := hat.call hm he hlen hop (hvs ▸ hk) hfetch (hr.accepted k hstays) (hr.linear k hstays)
    have hrip : (repCalls h cpu hasCmpxchg8b cr2 ctxt s (k + 1)).ctxt.rip = ctxt.rip :=
      (congrArg X86EmulateCtxt.rip hnext.context).trans rfl
    refine ⟨hstays.succ hrip, vs ++ [v], cr2 k, ?_, hnext⟩
    · rw [List.length_append, hvs, List.length_singleton]

/-- The call that finds the count 0. -/
theorem rep_last (cpu : HostCpu arch) (hasCmpxchg8b : Bool) (b : ULong arch) (hm : HostMode arch ctxt.mode) (he : e.Valid ctxt.mode) (hlen : e.legacy.length < 8)
    (hop : e.RepString op) {r : RepState arch σ} {vs : List (ULong arch)} {a : ULong arch} {t : σ}
    (hk : vs.length = (ctxt.regs vcpuRegsRcx).toNat) (hat : RepAt r ctxt e op vs a)
    (hfetch : FetchesTo h (ctxt.rip + ctxt.csBase) e.bytes r.state t) :
    (r.call h cpu hasCmpxchg8b b).ctxt =
        { repCtxt ctxt e op vs 0#_ b with rip := ctxt.rip + BitVec.ofNat _ e.bytes.length } ∧
      (r.call h cpu hasCmpxchg8b b).trace = r.trace := by
  obtain ⟨hctxt, -⟩ := hat
  have hzero : ctxt.regs vcpuRegsRcx - BitVec.ofNat _ vs.length = 0#_ := by
    rw [hk, BitVec.ofNat_toNat, BitVec.setWidth_eq, BitVec.sub_self]
  rw [hzero] at hctxt
  have hcr2 : { r.ctxt with cr2 := b } = repCtxt ctxt e op vs 0#_ b := by
    rw [hctxt]
    rfl
  obtain ⟨hgo, -⟩ := rep_call (repCtxt ctxt e op vs 0#_ b) cpu hasCmpxchg8b hm he hlen hop hfetch
  obtain ⟨hresult, hnone⟩ := hgo repCtxt_rcx
  unfold RepState.call
  rw [hcr2]
  dsimp only
  rw [hnone, List.append_nil]
  refine ⟨?_, rfl⟩
  show (X86EmulateCtxt.finish _ ((emulate cpu hasCmpxchg8b _).run h r.state).result).2 = _
  rw [hresult]
  rfl

/-- An instruction with too many prefixes is never passed. -/
theorem rep_overfull (he : e.Valid ctxt.mode) (hfull : 8 ≤ e.legacy.length)
    (hr : RepRuns h cpu hasCmpxchg8b cr2 ctxt s e op) (k : Nat) :
    RipStays h cpu hasCmpxchg8b cr2 ctxt s k ∧
      ∃ a, (repCalls h cpu hasCmpxchg8b cr2 ctxt s k).ctxt = { ctxt with cr2 := a } := by
  induction k with
  | zero =>
    refine ⟨fun j hj => ?_, ctxt.cr2, rfl⟩
    rw [Nat.le_zero.1 hj]
    rfl
  | succ k ih =>
    obtain ⟨hstays, a, hctxt⟩ := ih
    obtain ⟨t, hfetch⟩ := hr.fetched k hstays
    have hfail : ((decode { ctxt with cr2 := cr2 k }).run h (repCalls h cpu hasCmpxchg8b cr2 ctxt s k).state).result =
        .error .cannotEmulate := decode_overfull he hfull hfetch
    have hnext : (repCalls h cpu hasCmpxchg8b cr2 ctxt s (k + 1)).ctxt = { ctxt with cr2 := cr2 k } := by
      show (X86EmulateCtxt.finish { (repCalls h cpu hasCmpxchg8b cr2 ctxt s k).ctxt with cr2 := cr2 k }
        ((emulate cpu hasCmpxchg8b _).run h _).result).2 = _
      rw [hctxt]
      dsimp only
      rw [emulate_run_error h cpu hasCmpxchg8b hfail]
      rfl
    exact ⟨hstays.succ (by rw [hnext]), cr2 k, hnext⟩

/-- **Repeated string instructions**: repeated calls transfer as many elements as the selected count says, and then move
RIP past the instruction, exactly if the bits of RCX above the address size are 0 and there are at most seven prefixes. -/
theorem emulate_rep (hm : HostMode arch ctxt.mode) (he : e.Valid ctxt.mode) (hop : e.RepString op)
    (hr : RepRuns h cpu hasCmpxchg8b cr2 ctxt s e op) : RepDone h cpu hasCmpxchg8b cr2 ctxt s e op ↔
      e.count ctxt = ctxt.regs vcpuRegsRcx ∧ e.legacy.length < 8 := by
  by_cases hlen : e.legacy.length < 8
  · obtain ⟨hstays, vs, a, hvs, hat⟩ := rep_invariant hm he hlen hop hr (le_refl (ctxt.regs vcpuRegsRcx).toNat)
    obtain ⟨t, hfetch⟩ := hr.fetched _ hstays
    obtain ⟨hctxt, htrace⟩ := rep_last cpu hasCmpxchg8b (cr2 (ctxt.regs vcpuRegsRcx).toNat) hm he hlen hop hvs hat hfetch
    have hnext : repCalls h cpu hasCmpxchg8b cr2 ctxt s ((ctxt.regs vcpuRegsRcx).toNat + 1) =
        (repCalls h cpu hasCmpxchg8b cr2 ctxt s (ctxt.regs vcpuRegsRcx).toNat).call h cpu hasCmpxchg8b
          (cr2 (ctxt.regs vcpuRegsRcx).toNat) := rfl
    rw [← hnext] at hctxt htrace
    have hrip := congrArg X86EmulateCtxt.rip hctxt
    have hmoves : (repCalls h cpu hasCmpxchg8b cr2 ctxt s ((ctxt.regs vcpuRegsRcx).toNat + 1)).ctxt.rip ≠ ctxt.rip := by
      rw [hrip]
      intro hno
      exact Encoding.length_pos hlen (BitVec.add_right_eq_self.1 hno)
    rw [and_iff_left hlen]
    constructor
    · rintro ⟨m, ws, hdone⟩
      -- RIP moves in one call only, and its transfers are as many as RCX says
      have hm := hdone.stays.unique hdone.moves hstays hmoves
      have htransfers := hdone.transfers
      rw [hm, htrace] at htransfers
      have hlength := htransfers.length.symm.trans hat.transfers.length
      have hpos : 0 < if op = .movs then 2 else 1 := by split <;> decide
      rw [Nat.mul_right_inj hpos.ne', hdone.number, hvs] at hlength
      exact BitVec.eq_of_toNat_eq hlength
    · intro hcount
      have hzero : setLow (e.adBytes ctxt) (ctxt.regs vcpuRegsRcx) 0#_ = 0#_ := by
        rw [← hcount]
        apply BitVec.eq_of_hasBit
        intro j _
        rw [hasBit_setLow]
        unfold Encoding.count
        rw [hasBit_lowBytes]
        split
        · rfl
        · simp [*]
      refine ⟨_, vs, hstays, hmoves, hrip, ?_, htrace ▸ hat.transfers, ?_, ?_⟩
      · rw [hvs, hcount]
      · rw [hctxt, hzero]
        rfl
      · rw [hctxt]
        rfl
  · refine iff_of_false ?_ fun hno => hlen hno.2
    rintro ⟨m, ws, hdone⟩
    obtain ⟨-, a, hctxt⟩ := rep_overfull he (Nat.not_lt.1 hlen) hr (m + 1)
    exact hdone.moves (by rw [hctxt])

/-- Later calls only add accesses. -/
theorem repCalls_trace {j k : Nat} (hjk : j ≤ k) :
    (repCalls h cpu hasCmpxchg8b cr2 ctxt s j).trace <+: (repCalls h cpu hasCmpxchg8b cr2 ctxt s k).trace := by
  induction k with
  | zero => rw [Nat.le_zero.1 hjk]
  | succ k ih =>
    rcases Nat.lt_or_ge j (k + 1) with hlt | hge
    · exact (ih (Nat.lt_succ_iff.1 hlt)).trans (List.prefix_append _ _)
    · rw [Nat.le_antisymm hjk hge]

end

/-! ### A device -/

/-- Callbacks that fetch from a memory, and for which every access succeeds without a trace. -/
def romOps (arch : Arch) (code : EmulMem arch) : (c : OpCall arch) → Unit → OpReply arch c × Unit
  | .readStd addr bytes, _ => (.ok ((ByteMem.load code addr bytes).setWidth _), ())
  | .readEmulated .., _ => (.ok 0#_, ())
  | .writeStd .., _ => (.ok (), ())
  | .writeEmulated .., _ => (.ok (), ())
  | .cmpxchgEmulated .., _ => (.ok (), ())
  | .cmpxchg8bEmulated .., _ => (.ok (), ())
  | .realmodeLgdt .., _ => ((), ())
  | .realmodeLidt .., _ => ((), ())
  | .realmodeLmsw _ rflags, _ => (rflags, ())
  | .realmodeGetCr _, _ => (0#_, ())
  | .realmodeSetCr _ _ rflags, _ => (rflags, ())

theorem romOps_fetches {code : EmulMem arch} {addr : ULong arch} {bytes : List (BitVec 8)} (hat : CodeAt code addr bytes) :
    FetchesTo (romOps arch code) addr bytes () () := by
  induction bytes generalizing addr with
  | nil => exact .nil addr ()
  | cons b bytes ih =>
    obtain ⟨hb, hrest⟩ := hat
    refine .cons rfl ?_ (ih hrest)
    rw [← hb]
    apply BitVec.eq_of_hasBit
    intro j hj
    have hlong : 32 ≤ arch.bitsPerLong := by cases arch <;> decide
    simp [hj, ByteMem.hasBit_load, show j < arch.bitsPerLong by omega, show j < 64 by omega,
      show j / 8 = 0 by omega, show j % 8 = j by omega]

theorem romOps_accepted {α : Type} (code : EmulMem arch) (p : Emul arch α) (s : Unit) :
    ∀ ev ∈ (p.run (romOps arch code) s).trace, ev.1.refusal ev.2 = none := by
  induction p generalizing s with
  | ret a => simp
  | fail e => simp
  | call c k ih =>
    rw [Prog.run_call]
    refine List.forall_mem_cons.2 ⟨?_, ih _ _⟩
    cases c <;> rfl

theorem romOps_repRuns {code : EmulMem arch} {ctxt : X86EmulateCtxt arch} {e : Encoding} (cpu : HostCpu arch)
    (cr2 : Nat → ULong arch) (hat : CodeAt code (ctxt.rip + ctxt.csBase) e.bytes) :
    RepRuns (romOps arch code) cpu true cr2 ctxt () e .movs where
  fetched k _ := ⟨(), romOps_fetches hat⟩
  accepted k _ := by
    have hall : ∀ n, ∀ ev ∈ (repCalls (romOps arch code) cpu true cr2 ctxt () n).trace, ev.1.refusal ev.2 = none := by
      intro n
      induction n with
      | zero => simp [repCalls]
      | succ n ih =>
        intro ev hev
        rcases List.mem_append.1 hev with hev | hev
        · exact ih ev hev
        · exact romOps_accepted code _ _ ev (List.mem_of_mem_filter hev)
    exact hall (k + 1)
  linear k _ hne := absurd rfl hne

/-- `rep movsb` with 32-bit addresses in 64-bit mode. -/
def repMovsb : Encoding := ⟨[0x67, 0xf3], none, false, 0xa4⟩

def repMovsbCode : EmulMem .x86_64 := codeAtZero .x86_64 [0x67, 0xf3, 0xa4]

def repMovsbCtxt (rcx : BitVec 64) : X86EmulateCtxt .x86_64 :=
  { flatCtxt .x86_64 .prot64 with regs := fun r => if r = vcpuRegsRcx then rcx else 0 }

theorem repMovsb_valid : repMovsb.Valid .prot64 where
  legacy := by decide
  rex := by simp [repMovsb]
  first := by decide
  noRex := by decide
  onebyte := by decide

theorem repMovsb_string : repMovsb.RepString .movs := ⟨rfl, rfl, by decide⟩

theorem emulate_rep_small : RepDone (romOps .x86_64 repMovsbCode) (idleHost .x86_64) true (fun _ => 0) (repMovsbCtxt 2) ()
    repMovsb .movs ↔
      repMovsb.count (repMovsbCtxt 2) = (repMovsbCtxt 2).regs vcpuRegsRcx ∧ repMovsb.legacy.length < 8 :=
  emulate_rep (fun _ => rfl) repMovsb_valid repMovsb_string (romOps_repRuns _ _ ⟨rfl, rfl, rfl, trivial⟩)

/-- ECX is 0, but RCX is not: an element is transferred. -/
theorem rep_whole_rcx : ¬∀ (arch : Arch) (h : (c : OpCall arch) → Unit → OpReply arch c × Unit) (cpu : HostCpu arch)
    (cr2 : Nat → ULong arch) (ctxt : X86EmulateCtxt arch) (e : Encoding) (op : StringInsn), HostMode arch ctxt.mode →
      e.Valid ctxt.mode → e.RepString op → RepRuns h cpu true cr2 ctxt () e op → RepDone h cpu true cr2 ctxt () e op := by
  intro hall
  obtain ⟨m, vs, hdone⟩ := hall .x86_64 (romOps .x86_64 repMovsbCode) (idleHost .x86_64) (fun _ => 0)
    (repMovsbCtxt 0x100000000) repMovsb .movs (fun _ => rfl) repMovsb_valid repMovsb_string
    (romOps_repRuns _ _ ⟨rfl, rfl, rfl, trivial⟩)
  have hnone : vs = [] := List.length_eq_zero_iff.1 (hdone.number.trans rfl)
  have htransfers := hdone.transfers
  rw [hnone] at htransfers
  have hempty := htransfers.length
  have hfirst := (repCalls_trace (show 1 ≤ m + 1 by omega)).length_le.trans hempty.le
  exact absurd hfirst (by decide)

end LearnKvm
