import LearnKvm.Emulate.Decoded
import LearnKvm.Lib.ByteMemory

/-!
# The encoding of an instruction up to its opcode (`x86_emulate.c`)

An `Encoding` is what stands before the operands: legacy prefixes, a REX prefix and the opcode.  Where callbacks fetch
the bytes of a memory (`Fetches`), the decoder that starts at an encoding goes on with the operands as `Encoding.prefixes`
says (`decode_ensures`).  With more than seven legacy prefixes it gives up.
-/

namespace LearnKvm

open Calls

variable {arch : Arch} {σ : Type}

/-! ### Code in memory -/

/-- The bytes are at an address. -/
def CodeAt (code : ByteMem.Mem arch.bitsPerLong) (addr : ULong arch) : List (BitVec 8) → Prop
  | [] => True
  | b :: bytes => code addr = b ∧ CodeAt code (addr + 1#_) bytes

theorem CodeAt.append {code : ByteMem.Mem arch.bitsPerLong} {addr : ULong arch} {l₁ l₂ : List (BitVec 8)} :
    CodeAt code addr (l₁ ++ l₂) ↔ CodeAt code addr l₁ ∧ CodeAt code (addr + BitVec.ofNat _ l₁.length) l₂ := by
  induction l₁ generalizing addr with
  | nil => simp [CodeAt]
  | cons b l₁ ih =>
    have haddr : addr + 1#_ + BitVec.ofNat _ l₁.length = addr + BitVec.ofNat _ (l₁.length + 1) := by
      rw [ByteMem.add_ofNat, Nat.add_comm]
    simp only [List.cons_append, CodeAt, ih, List.length_cons, haddr, and_assoc]

/-- The callbacks fetch the bytes of `code`, from the states of `I`. -/
def Fetches (h : (c : OpCall arch) → σ → OpReply arch c × σ) (code : ByteMem.Mem arch.bitsPerLong) (I : σ → Prop) : Prop :=
  ∀ addr bytes s v, I s → (h (.readStd addr bytes) s).1 = .ok v →
    lowBytes bytes v = (ByteMem.load code addr bytes).setWidth _ ∧ I (h (.readStd addr bytes) s).2

section

variable {h : (c : OpCall arch) → σ → OpReply arch c × σ} {code : ByteMem.Mem arch.bitsPerLong} {I : σ → Prop}

theorem readStd_ensures (hf : Fetches h code I) (addr : ULong arch) (bytes : Nat) :
    (Emul.readStd addr bytes).Ensures h I fun v => lowBytes bytes v = (ByteMem.load code addr bytes).setWidth _ := by
  intro s hs v hv
  have hrun : (Emul.readStd addr bytes).run h s =
      { (Emul.orDone (h (.readStd addr bytes) s).1).run h (h (.readStd addr bytes) s).2 with
        trace := ⟨.readStd addr bytes, (h (.readStd addr bytes) s).1⟩ ::
          ((Emul.orDone (h (.readStd addr bytes) s).1).run h (h (.readStd addr bytes) s).2).trace } := rfl
  rw [hrun] at hv ⊢
  cases hr : (h (.readStd addr bytes) s).1 with
  | ok w =>
    rw [hr] at hv
    cases hv
    exact hf addr bytes s v hs hr
  | error rc =>
    rw [hr] at hv
    cases hv

theorem insnFetch_ensures (hf : Fetches h code I) (ctxt : X86EmulateCtxt arch) (size : Nat) (eip : ULong arch) :
    (insnFetch ctxt size eip).Ensures h I fun r =>
      lowBytes size r.1 = (ByteMem.load code (eip + ctxt.csBase) size).setWidth _ ∧ r.2 = eip + BitVec.ofNat _ size :=
  Prog.Ensures.bind (readStd_ensures hf _ _) fun _ hv => Prog.ensures_ret ⟨hv, rfl⟩

theorem fetchU_ensures (hf : Fetches h code I) (ctxt : X86EmulateCtxt arch) (size : Nat) (eip : ULong arch) :
    (fetchU ctxt size eip).Ensures h I
      (· = ((ByteMem.load code (eip + ctxt.csBase) size).setWidth _, eip + BitVec.ofNat _ size)) := by
  apply Prog.Ensures.bind (insnFetch_ensures hf ctxt size eip)
  rintro ⟨v, next⟩ ⟨hv, rfl⟩
  apply Prog.ensures_ret
  rw [← hv]

theorem fetchS_ensures (hf : Fetches h code I) (ctxt : X86EmulateCtxt arch) (size : Nat) (eip : ULong arch) :
    (fetchS ctxt size eip).Ensures h I
      (· = (signExtendBytes size ((ByteMem.load code (eip + ctxt.csBase) size).setWidth _),
        eip + BitVec.ofNat _ size)) := by
  apply Prog.Ensures.bind (insnFetch_ensures hf ctxt size eip)
  rintro ⟨v, next⟩ ⟨hv, rfl⟩
  apply Prog.ensures_ret
  have hlow : (lowBytes size v).setWidth (8 * size) = v.setWidth (8 * size) := by
    apply BitVec.eq_of_hasBit
    intro j hj
    simp [hj]
  dsimp only at hv
  unfold signExtendBytes
  rw [← hv, hlow]

theorem fetchByte_ensures (hf : Fetches h code I) (ctxt : X86EmulateCtxt arch) (eip : ULong arch) :
    (fetchByte ctxt eip).Ensures h I (· = (code (eip + ctxt.csBase), eip + 1#_)) := by
  apply Prog.Ensures.bind (insnFetch_ensures hf ctxt 1 eip)
  rintro ⟨v, next⟩ ⟨hv, rfl⟩
  apply Prog.ensures_ret
  refine Prod.ext ?_ rfl
  apply BitVec.eq_of_hasBit
  intro j hj
  have hlong : 32 ≤ arch.bitsPerLong := by cases arch <;> decide
  have hbit := congrArg (fun w => BitVec.hasBit w j) hv
  simp only [hasBit_lowBytes, BitVec.hasBit_setWidth, ByteMem.hasBit_load] at hbit
  have hdiv : j / 8 = 0 := by omega
  have hmod : j % 8 = j := by omega
  simpa [hj, hdiv, hmod, show j < arch.bitsPerLong by omega, show j < 64 by omega] using hbit

end

/-! ### Encodings -/

/-- An instruction before its operands. -/
structure Encoding where
  legacy : List (BitVec 8)
  rex : Option (BitVec 8)
  twobyte : Bool
  opcode : BitVec 8

namespace Encoding

def first (e : Encoding) : BitVec 8 := if e.twobyte then 0x0f else e.opcode

def opcodeBytes (e : Encoding) : List (BitVec 8) := if e.twobyte then [0x0f, e.opcode] else [e.opcode]

def bytes (e : Encoding) : List (BitVec 8) := e.legacy ++ (e.rex.toList ++ e.opcodeBytes)

/-- The bytes are what they stand for: REX prefixes exist in 64-bit mode only. -/
structure Valid (mode : X86EmulMode) (e : Encoding) : Prop where
  legacy : ∀ b ∈ e.legacy, isLegacyPrefix b = true
  rex : ∀ b, e.rex = some b → mode = .prot64 ∧ b &&& 0xf0 = 0x40
  first : isLegacyPrefix e.first = false
  noRex : mode = .prot64 → e.first &&& 0xf0 ≠ 0x40
  onebyte : e.twobyte = false → e.opcode ≠ 0x0f

def rexBits (e : Encoding) : RexBits := match e.rex with
  | some b => LearnKvm.rexBits b
  | none => noRex

/-- The sizes of the mode. -/
def start (arch : Arch) (mode : X86EmulMode) : Prefixes arch :=
  ⟨0, ((modeBytes arch mode).getD (0, 0)).1, ((modeBytes arch mode).getD (0, 0)).2, none, false, false, 0#_⟩

/-- What the prefixes say, with the shadow instruction pointer behind the opcode. -/
def prefixes (mode : X86EmulMode) (e : Encoding) (eip : ULong arch) : Prefixes arch :=
  let p := e.legacy.foldl (Prefixes.apply mode) (start arch mode)
  { p with
    b := e.first
    opBytes := if e.rexBits.rexPrefix &&& 8 ≠ 0 then 8 else p.opBytes
    eip := eip }

end Encoding

/-- The rest of the decoder, from behind the opcode. -/
def decodeOperands (ctxt : X86EmulateCtxt arch) (p : Prefixes arch) (rex : RexBits) (b : BitVec 8) (twobyte : Bool) :
    Emul arch (Insn arch) :=
  let insn : Insn arch := {
    b := b, twobyte := twobyte, mode := ctxt.mode, opBytes := p.opBytes, adBytes := p.adBytes
    overrideBase := p.overrideBase, lockPrefix := p.lockPrefix, repPrefix := p.repPrefix
    rexPrefix := rex.rexPrefix, modrmReg := rex.modrmReg, modrmVal := 0#_, cr2 := ctxt.cr2, eip := p.eip }
  if insn.d &&& modRM ≠ 0 then do
    let (modrmReg, modrmVal, cr2, eip) ← decodeModrm ctxt p rex insn.d
    return { insn with modrmReg := modrmReg, modrmVal := modrmVal, cr2 := cr2, eip := eip }
  else return insn

theorem decode_eq (ctxt : X86EmulateCtxt arch) {sizes : Nat × Nat} (hs : modeBytes arch ctxt.mode = some sizes) :
    decode ctxt = legacyPrefixes ctxt 8 ⟨0, sizes.1, sizes.2, none, false, false, ctxt.rip⟩ >>= fun p =>
      rexPrefix ctxt p >>= fun q => decodeOpcode ctxt q.1 >>= fun o =>
        decodeOperands ctxt { q.1 with eip := o.2.2 } q.2 o.1 o.2.1 := by
  unfold decode
  rw [hs]
  rfl

/-! ### Runs of the decoder -/

/-- A prefix leaves the byte and the shadow instruction pointer alone. -/
theorem foldl_apply (mode : X86EmulMode) (l : List (BitVec 8)) (p : Prefixes arch) (b : BitVec 8) (eip : ULong arch) :
    l.foldl (Prefixes.apply mode) { p with b := b, eip := eip } =
      { l.foldl (Prefixes.apply mode) p with b := b, eip := eip } := by
  induction l generalizing p with
  | nil => rfl
  | cons c l ih => exact ih (p.apply mode c)

/-- The last segment override. -/
def Encoding.segment (e : Encoding) : Option SegBase := (e.legacy.filterMap prefixSegment).getLast?

theorem Encoding.prefixes_overrideBase (mode : X86EmulMode) (e : Encoding) (eip : ULong arch) :
    (e.prefixes mode eip).overrideBase = e.segment := by
  show (e.legacy.foldl (Prefixes.apply mode) (start arch mode)).overrideBase = (e.legacy.filterMap prefixSegment).getLast?
  induction e.legacy using List.reverseRecOn with
  | nil => rfl
  | append_singleton l b ih =>
    rw [List.foldl_append, List.filterMap_append, List.getLast?_append, ← ih]
    show (prefixSegment b).or _ = _
    cases hb : prefixSegment b with
    | none => simp [hb]
    | some seg => simp [hb]

/-- Only a mode of the host is decoded. -/
theorem modeBytes_of_decode {h : (c : OpCall arch) → σ → OpReply arch c × σ} {ctxt : X86EmulateCtxt arch} {s : σ}
    {i : Insn arch} (hi : ((decode ctxt).run h s).result = .ok i) : ∃ sizes, modeBytes arch ctxt.mode = some sizes := by
  cases hs : modeBytes arch ctxt.mode with
  | some sizes => exact ⟨sizes, rfl⟩
  | none =>
    unfold decode at hi
    rw [hs] at hi
    cases hi

theorem Encoding.prefixes_sizes {mode : X86EmulMode} {sizes : Nat × Nat} (hs : modeBytes arch mode = some sizes)
    {e : Encoding} (he : e.Valid mode) (eip : ULong arch) :
    SizesOf mode (e.prefixes mode eip).opBytes (e.prefixes mode eip).adBytes := by
  have hfold : ∀ l : List (BitVec 8),
      SizesOf mode (l.foldl (Prefixes.apply mode) (start arch mode)).opBytes
          (l.foldl (Prefixes.apply mode) (start arch mode)).adBytes ∧
        (l.foldl (Prefixes.apply mode) (start arch mode)).opBytes ≠ 8 := by
    intro l
    induction l using List.reverseRecOn with
    | nil =>
      have hstart : (start arch mode).opBytes = sizes.1 ∧ (start arch mode).adBytes = sizes.2 := by
        unfold start
        rw [hs]
        exact ⟨rfl, rfl⟩
      show SizesOf mode (start arch mode).opBytes (start arch mode).adBytes ∧ (start arch mode).opBytes ≠ 8
      rw [hstart.1, hstart.2]
      exact ⟨SizesOf.start hs, modeBytes_ne_eight hs⟩
    | append_singleton l b ih =>
      rw [List.foldl_append]
      exact SizesOf.apply ih b
  obtain ⟨hsizes, -⟩ := hfold e.legacy
  refine ⟨?_, hsizes.ad⟩
  by_cases hwide : e.rexBits.rexPrefix &&& 8 ≠ 0
  · have hmode : mode = .prot64 := by
      unfold Encoding.rexBits at hwide
      cases hr : e.rex with
      | none =>
        rw [hr] at hwide
        exact absurd rfl hwide
      | some r => exact (he.rex r hr).1
    exact Or.inr (Or.inr ⟨if_pos hwide, hmode⟩)
  · have hop : (e.prefixes mode eip).opBytes = _ := if_neg hwide
    rw [hop]
    exact hsizes.op

section

variable {h : (c : OpCall arch) → σ → OpReply arch c × σ} {code : ByteMem.Mem arch.bitsPerLong} {I : σ → Prop}
  {ctxt : X86EmulateCtxt arch}

theorem legacyPrefixes_ensures (hf : Fetches h code I) {l : List (BitVec 8)} (hl : ∀ b ∈ l, isLegacyPrefix b = true)
    {b : BitVec 8} (hb : isLegacyPrefix b = false) {n : Nat} (hn : l.length < n) {p : Prefixes arch}
    (hat : CodeAt code (p.eip + ctxt.csBase) (l ++ [b])) :
    (legacyPrefixes ctxt n p).Ensures h I
      (· = { l.foldl (Prefixes.apply ctxt.mode) p with b := b, eip := p.eip + BitVec.ofNat _ (l.length + 1) }) := by
  induction l generalizing n p with
  | nil =>
    obtain ⟨n, rfl⟩ : ∃ m, n = m + 1 := ⟨n - 1, by simp at hn; omega⟩
    apply Prog.Ensures.bind (fetchByte_ensures hf ctxt p.eip)
    rintro _ rfl
    dsimp only
    rw [legacyPrefix_eq, hat.1, hb]
    exact Prog.ensures_ret rfl
  | cons c l ih =>
    obtain ⟨n, rfl⟩ : ∃ m, n = m + 1 := ⟨n - 1, by simp at hn; omega⟩
    have hc : isLegacyPrefix c = true := hl c (List.mem_cons_self ..)
    have hnext : p.eip + 1#_ + ctxt.csBase = p.eip + ctxt.csBase + 1#_ := ByteMem.add_ofNat_comm ..
    apply Prog.Ensures.bind (fetchByte_ensures hf ctxt p.eip)
    rintro _ rfl
    dsimp only
    rw [legacyPrefix_eq, hat.1, hc]
    let q : Prefixes arch := { p with b := c, eip := p.eip + 1#_ }
    have hrest := ih (fun d hd => hl d (List.mem_cons_of_mem _ hd)) (n := n) (by simp at hn; omega)
      (p := q.apply ctxt.mode c) (by exact hnext ▸ hat.2)
    apply hrest.mono
    rintro _ rfl
    have hfold := foldl_apply ctxt.mode l (p.apply ctxt.mode c) c (p.eip + 1#_)
    have heip : p.eip + 1#_ + BitVec.ofNat _ (l.length + 1) = p.eip + BitVec.ofNat _ (l.length + 1 + 1) := by
      rw [ByteMem.add_ofNat, Nat.add_comm 1]
    show { List.foldl (Prefixes.apply ctxt.mode) { p.apply ctxt.mode c with b := c, eip := p.eip + 1#_ } l with
      b := b, eip := p.eip + 1#_ + BitVec.ofNat _ (l.length + 1) } = _
    rw [hfold, heip]
    rfl

/-- Where the rounds run out, the byte is a prefix. -/
theorem legacyPrefixes_full (hf : Fetches h code I) {l : List (BitVec 8)} (hl : ∀ b ∈ l, isLegacyPrefix b = true)
    {n : Nat} (hn : n ≤ l.length) {p : Prefixes arch} (hp : n = 0 → isLegacyPrefix p.b = true)
    (hat : CodeAt code (p.eip + ctxt.csBase) l) :
    (legacyPrefixes ctxt n p).Ensures h I fun q => isLegacyPrefix q.b = true := by
  induction n generalizing l p with
  | zero => exact Prog.ensures_ret (hp rfl)
  | succ n ih =>
    cases l with
    | nil => simp at hn
    | cons c l =>
      have hc : isLegacyPrefix c = true := hl c (List.mem_cons_self ..)
      have hnext : p.eip + 1#_ + ctxt.csBase = p.eip + ctxt.csBase + 1#_ := ByteMem.add_ofNat_comm ..
      apply Prog.Ensures.bind (fetchByte_ensures hf ctxt p.eip)
      rintro _ rfl
      dsimp only
      rw [legacyPrefix_eq, hat.1, hc]
      let q : Prefixes arch := { p with b := c, eip := p.eip + 1#_ }
      exact ih (fun d hd => hl d (List.mem_cons_of_mem _ hd)) (by simpa using hn) (p := q.apply ctxt.mode c)
        (fun _ => hc) (by exact hnext ▸ hat.2)

theorem rexPrefix_ensures (hf : Fetches h code I) {e : Encoding} (he : e.Valid ctxt.mode) {p : Prefixes arch}
    (hb : p.b = e.rex.getD e.first) (hat : e.rex.isSome → code (p.eip + ctxt.csBase) = e.first) :
    (rexPrefix ctxt p).Ensures h I
      (· = ({ p with
        b := e.first, eip := p.eip + BitVec.ofNat _ e.rex.toList.length
        opBytes := if e.rexBits.rexPrefix &&& 8 ≠ 0 then 8 else p.opBytes }, e.rexBits)) := by
  unfold rexPrefix
  cases hr : e.rex with
  | none =>
    rw [hr] at hb
    have hno : ¬ (ctxt.mode = .prot64 ∧ p.b &&& 0xf0 = 0x40) := by
      rintro ⟨hmode, hp⟩
      rw [hb] at hp
      exact he.noRex hmode hp
    have hbits : e.rexBits = noRex := by
      unfold Encoding.rexBits
      rw [hr]
    have hfirst : p.b = e.first := hb
    rw [if_neg hno, hbits, ← hfirst]
    apply Prog.ensures_ret
    simp [noRex]
  | some r =>
    rw [hr] at hb
    obtain ⟨hmode, hrex⟩ := he.rex r hr
    have hbits : e.rexBits = rexBits r := by
      unfold Encoding.rexBits
      rw [hr]
    have hcond : ctxt.mode = .prot64 ∧ p.b &&& 0xf0 = 0x40 := ⟨hmode, (congrArg (· &&& 0xf0) hb).trans hrex⟩
    rw [if_pos hcond, hbits]
    apply Prog.Ensures.bind (fetchByte_ensures hf ctxt p.eip)
    rintro _ rfl
    apply Prog.ensures_ret
    rw [hat (by rw [hr]; rfl), hb]
    rfl

theorem decodeOpcode_ensures (hf : Fetches h code I) {e : Encoding} (he : e.Valid ctxt.mode) {p : Prefixes arch}
    (hb : p.b = e.first) (hat : e.twobyte = true → code (p.eip + ctxt.csBase) = e.opcode) :
    (decodeOpcode ctxt p).Ensures h I
      (· = (e.opcode, e.twobyte, p.eip + BitVec.ofNat _ (e.opcodeBytes.length - 1))) := by
  unfold decodeOpcode
  unfold Encoding.first at hb
  cases ht : e.twobyte with
  | true =>
    rw [ht, if_pos rfl] at hb
    have hlen : e.opcodeBytes.length - 1 = 1 := by
      unfold Encoding.opcodeBytes
      rw [ht]
      rfl
    rw [hb, if_pos opcodeTable_escape, if_pos rfl, hlen]
    apply Prog.Ensures.bind (fetchByte_ensures hf ctxt p.eip)
    rintro _ rfl
    dsimp only
    rw [hat ht]
    split
    · exact Prog.ensures_fail _
    · exact Prog.ensures_ret rfl
  | false =>
    rw [ht, if_neg Bool.false_ne_true] at hb
    have hlen : e.opcodeBytes.length - 1 = 0 := by
      unfold Encoding.opcodeBytes
      rw [ht]
      rfl
    rw [hb, hlen]
    split
    · rw [if_neg (he.onebyte ht)]
      exact Prog.ensures_fail _
    · apply Prog.ensures_ret
      simp

/-- No prefix is an opcode. -/
theorem legacy_opcode : ∀ b : BitVec 8, isLegacyPrefix b = true →
    opcodeTable.getD b.toNat 0 = 0 ∧ b ≠ 0x0f ∧ b &&& 0xf0 ≠ 0x40 :=
  table_all (P := fun b d => isLegacyPrefix b = true → d = 0 ∧ b ≠ 0x0f ∧ b &&& 0xf0 ≠ 0x40) opcodeTable_length
    (by decide +kernel)

theorem rex_not_legacy (b : BitVec 8) (hb : b &&& 0xf0 = 0x40) : isLegacyPrefix b = false :=
  Bool.eq_false_iff.2 fun h => (legacy_opcode b h).2.2 hb

theorem decode_full (hf : Fetches h code I) {e : Encoding} (he : e.Valid ctxt.mode)
    (hat : CodeAt code (ctxt.rip + ctxt.csBase) e.bytes) (hfull : 8 ≤ e.legacy.length) (Q : Insn arch → Prop) :
    (decode ctxt).Ensures h I Q := by
  cases hs : modeBytes arch ctxt.mode with
  | none =>
    unfold decode
    rw [hs]
    exact Prog.ensures_fail _
  | some sizes =>
    rw [decode_eq ctxt hs]
    apply Prog.Ensures.bind (legacyPrefixes_full hf he.legacy hfull (fun h0 => absurd h0 (by decide))
      (CodeAt.append.1 hat).1)
    intro p hp
    obtain ⟨htable, htwo, hrex⟩ := legacy_opcode p.b hp
    have hret : rexPrefix ctxt p = .ret (p, noRex) := by
      unfold rexPrefix
      rw [if_neg fun hno => hrex hno.2]
      rfl
    have hfail : decodeOpcode ctxt p = .fail .cannotEmulate := by
      unfold decodeOpcode
      rw [if_pos htable, if_neg htwo]
    rw [hret, Prog.ret_bind]
    dsimp only
    rw [hfail]
    exact Prog.ensures_fail _

/-- The decoder at an encoding goes on with the operands. -/
theorem decode_ensures (hf : Fetches h code I) {e : Encoding} (he : e.Valid ctxt.mode)
    (hat : CodeAt code (ctxt.rip + ctxt.csBase) e.bytes) {Q : Insn arch → Prop}
    (hQ : (decodeOperands ctxt (e.prefixes ctxt.mode (ctxt.rip + BitVec.ofNat _ e.bytes.length)) e.rexBits e.opcode
      e.twobyte).Ensures h I Q) : (decode ctxt).Ensures h I Q := by
  rcases Nat.lt_or_ge e.legacy.length 8 with hlen | hlen
  · cases hs : modeBytes arch ctxt.mode with
    | none =>
      unfold decode
      rw [hs]
      exact Prog.ensures_fail _
    | some sizes =>
      have hstart : Encoding.start arch ctxt.mode = ⟨0, sizes.1, sizes.2, none, false, false, 0#_⟩ := by
        unfold Encoding.start
        rw [hs]
        rfl
      have hopcode : e.opcodeBytes = e.first :: e.opcodeBytes.tail := by
        unfold Encoding.opcodeBytes Encoding.first
        cases e.twobyte <;> rfl
      obtain ⟨hlegacy, hrest⟩ := CodeAt.append.1 hat
      obtain ⟨hrex, hop⟩ := CodeAt.append.1 hrest
      rw [decode_eq ctxt hs]
      -- the byte that ends the prefixes is REX or the opcode
      have hend : CodeAt code (ctxt.rip + ctxt.csBase) (e.legacy ++ [e.rex.getD e.first]) := by
        refine CodeAt.append.2 ⟨hlegacy, ?_, trivial⟩
        cases hr : e.rex with
        | none =>
          rw [hr, hopcode] at hop
          have hzero : ctxt.rip + ctxt.csBase + BitVec.ofNat _ e.legacy.length + BitVec.ofNat _ 0 =
              ctxt.rip + ctxt.csBase + BitVec.ofNat _ e.legacy.length := by simp
          exact hzero ▸ hop.1
        | some r =>
          rw [hr] at hrex
          exact hrex.1
      have hnot : isLegacyPrefix (e.rex.getD e.first) = false := by
        cases hr : e.rex with
        | none => exact he.first
        | some r => exact rex_not_legacy r (he.rex r hr).2
      have hlast : e.opcodeBytes.length = e.opcodeBytes.tail.length + 1 := congrArg List.length hopcode
      apply Prog.Ensures.bind (legacyPrefixes_ensures hf he.legacy hnot hlen hend)
      rintro p rfl
      apply Prog.Ensures.bind (rexPrefix_ensures hf he rfl fun hsome => ?_)
      · rintro q rfl
        dsimp only
        apply Prog.Ensures.bind (decodeOpcode_ensures hf he rfl fun ht => ?_)
        · rintro o rfl
          have hlen : e.legacy.length + 1 + (e.rex.toList.length + (e.opcodeBytes.length - 1)) = e.bytes.length := by
            unfold Encoding.bytes
            rw [List.length_append, List.length_append, hlast]
            omega
          have hfold := foldl_apply ctxt.mode e.legacy (Encoding.start arch ctxt.mode) 0 ctxt.rip
          rw [hstart] at hfold
          dsimp only at hfold ⊢
          unfold Encoding.prefixes at hQ
          rw [hstart] at hQ
          rw [hfold, ByteMem.add_ofNat, ByteMem.add_ofNat, hlen]
          exact hQ
        · have hbytes : e.opcodeBytes = [0x0f, e.opcode] := if_pos ht
          rw [hbytes] at hop
          have hopcode := hop.2.1
          rw [ByteMem.add_ofNat, ByteMem.add_ofNat] at hopcode
          dsimp only
          rw [ByteMem.add_ofNat, ByteMem.add_ofNat_comm, show e.legacy.length + 1 + e.rex.toList.length = e.legacy.length + e.rex.toList.length + 1 by
            omega]
          exact hopcode
      · obtain ⟨r, hr⟩ := Option.isSome_iff_exists.1 hsome
        rw [hr, hopcode] at hop
        dsimp only
        rw [ByteMem.add_ofNat_comm, ← ByteMem.add_ofNat]
        exact hop.1
  · exact decode_full hf he hat hlen Q

end

end LearnKvm
