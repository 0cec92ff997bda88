import LearnKvm.Emulate.Execute

/-!
# The emulator is restartable (`x86_emulate.c`)

A call of `x86_emulate_memop` has at most one effect outside its shadow copies, and the effect comes last: after it
nothing is fetched, nothing is read and nothing fails, so the shadow copies are committed.  Each instruction is shown to
be of this kind along its structure (`execute_atomic`, `writeback_atomic`).
-/

namespace LearnKvm

open Calls

variable {arch : Arch}

/-! ### Effects -/

def OpCall.hasEffect : OpCall arch → Bool
  | .readStd .. | .readEmulated .. | .realmodeGetCr .. => false
  | _ => true

def errorOf {α : Type} : Except X86EmulError α → Option (Exit arch)
  | .ok _ => none
  | .error rc => some (.done rc)

/-- The exit that a callback makes by its return code.  The services return none. -/
def OpCall.refusal : (c : OpCall arch) → OpReply arch c → Option (Exit arch)
  | .readStd .., r => errorOf r
  | .writeStd .., r => errorOf r
  | .readEmulated .., r => errorOf r
  | .writeEmulated .., r => errorOf r
  | .cmpxchgEmulated .., r => errorOf r
  | .cmpxchg8bEmulated .., r => errorOf r
  | .realmodeLgdt .., _ | .realmodeLidt .., _ | .realmodeLmsw .., _ | .realmodeGetCr .., _
  | .realmodeSetCr .., _ => none

/-- A call with an effect that has succeeded. -/
def isEffect (e : Event (OpReply arch)) : Bool := e.1.hasEffect && (e.1.refusal e.2).isNone

/-- The number of successful effects. -/
def effects (t : List (Event (OpReply arch))) : Nat := t.countP isEffect

theorem isEffect_iff (e : Event (OpReply arch)) :
    isEffect e = true ↔ e.Effect OpCall.refusal (fun c => c.hasEffect = true) := by
  simp [isEffect, Event.Effect]

/-- `p` has one effect, as its last call, and then a value as `Q` says; `own` are its own exits. -/
abbrev Emul.Atomic {α : Type} (own : Exit arch → Prop) (Q : α → Prop) (p : Emul arch α) : Prop :=
  Prog.Atomic OpCall.refusal (fun c => c.hasEffect = true) own Q p

/-- `p` has no effect. -/
abbrev Emul.Quiet {α : Type} (own : Exit arch → Prop) (p : Emul arch α) : Prop :=
  Prog.Quiet OpCall.refusal (fun c => c.hasEffect = true) own p

variable {own : Exit arch → Prop}

/-! ### Reads -/

theorem errorOf_eq {α : Type} {r : Except X86EmulError α} {rc : X86EmulError} :
    (errorOf r : Option (Exit arch)) = some (.done rc) ↔ r = .error rc := by
  cases r with
  | ok a => simp [errorOf]
  | error rc' => simp [errorOf]

theorem orDone_refused {α : Type} {r : Except X86EmulError α} {e : Exit arch} (he : errorOf r = some e) :
    Emul.orDone r = .fail e := by
  cases r with
  | ok a => cases he
  | error rc => cases he; rfl

theorem orDone_accepted {α : Type} {r : Except X86EmulError α} (hr : (errorOf r : Option (Exit arch)) = none) :
    ∃ a, (Emul.orDone r : Emul arch α) = .ret a := by
  cases r with
  | ok a => exact ⟨a, rfl⟩
  | error rc => cases hr

theorem orDone_quiet {α : Type} {r : Except X86EmulError α} (hr : (errorOf r : Option (Exit arch)) = none) :
    (Emul.orDone r : Emul arch α).Quiet own := by
  obtain ⟨a, ha⟩ := orDone_accepted hr
  rw [ha]
  trivial

theorem readStd_quiet (addr : ULong arch) (bytes : Nat) : (Emul.readStd addr bytes).Quiet own :=
  Prog.quiet_call (by simp [OpCall.hasEffect]) (fun _ _ he => orDone_refused he) fun _ hr => orDone_quiet hr

theorem readEmulated_quiet (addr : ULong arch) (bytes : Nat) : (Emul.readEmulated addr bytes).Quiet own :=
  Prog.quiet_call (by simp [OpCall.hasEffect]) (fun _ _ he => orDone_refused he) fun _ hr => orDone_quiet hr

theorem realmodeGetCr_quiet (cr : BitVec 8) : (Emul.realmodeGetCr cr : Emul arch _).Quiet own :=
  Prog.quiet_call (by simp [OpCall.hasEffect]) (fun _ _ he => by cases he) fun _ _ => trivial

theorem insnFetch_quiet (ctxt : X86EmulateCtxt arch) (size : Nat) (eip : ULong arch) :
    (insnFetch ctxt size eip).Quiet own :=
  Prog.Quiet.bind (readStd_quiet _ _) fun _ => trivial

theorem fetchU_quiet (ctxt : X86EmulateCtxt arch) (size : Nat) (eip : ULong arch) : (fetchU ctxt size eip).Quiet own :=
  Prog.Quiet.bind (insnFetch_quiet _ _ _) fun _ => trivial

theorem fetchS_quiet (ctxt : X86EmulateCtxt arch) (size : Nat) (eip : ULong arch) : (fetchS ctxt size eip).Quiet own :=
  Prog.Quiet.bind (insnFetch_quiet _ _ _) fun _ => trivial

theorem fetchByte_quiet (ctxt : X86EmulateCtxt arch) (eip : ULong arch) : (fetchByte ctxt eip).Quiet own :=
  Prog.Quiet.bind (insnFetch_quiet _ _ _) fun _ => trivial

/-! ### The decoder -/

theorem legacyPrefixes_quiet (ctxt : X86EmulateCtxt arch) (n : Nat) (p : Prefixes arch) :
    (legacyPrefixes ctxt n p).Quiet own := by
  induction n generalizing p with
  | zero => trivial
  | succ n ih =>
    apply Prog.Quiet.bind (fetchByte_quiet _ _)
    rintro ⟨b, eip⟩
    dsimp only
    cases legacyPrefix ctxt.mode { p with b := b, eip := eip } with
    | some p => exact ih p
    | none => trivial

theorem rexPrefix_quiet (ctxt : X86EmulateCtxt arch) (p : Prefixes arch) : (rexPrefix ctxt p).Quiet own := by
  unfold rexPrefix
  split
  · exact Prog.Quiet.bind (fetchByte_quiet _ _) fun _ => trivial
  · trivial

theorem modrmDisp16_quiet (ctxt : X86EmulateCtxt arch) (modrmMod : BitVec 2) (modrmRm : RegIndex) (eip : ULong arch) :
    (modrmDisp16 ctxt modrmMod modrmRm eip).Quiet own := by
  unfold modrmDisp16
  split
  · split
    · exact fetchU_quiet _ _ _
    · trivial
  · split
    · exact fetchS_quiet _ _ _
    · exact fetchU_quiet _ _ _

theorem modrmDisp32_quiet (ctxt : X86EmulateCtxt arch) (modrmMod : BitVec 2) (modrmRm : RegIndex) (eip : ULong arch) :
    (modrmDisp32 ctxt modrmMod modrmRm eip).Quiet own := by
  unfold modrmDisp32
  split
  · split
    · exact fetchS_quiet _ _ _
    · trivial
  · split
    · exact fetchS_quiet _ _ _
    · exact fetchS_quiet _ _ _

theorem sibBase_quiet (ctxt : X86EmulateCtxt arch) (modrmMod : BitVec 2) (baseReg : RegIndex) (eip : ULong arch) :
    (sibBase ctxt modrmMod baseReg eip).Quiet own := by
  unfold sibBase
  split
  · exact fetchS_quiet _ _ _
  · trivial

theorem sibEa_quiet (ctxt : X86EmulateCtxt arch) (modrmMod : BitVec 2) (rex : RexBits) (eip : ULong arch) :
    (sibEa ctxt modrmMod rex eip).Quiet own := by
  apply Prog.Quiet.bind (fetchByte_quiet _ _)
  rintro ⟨sib, eip⟩
  exact Prog.Quiet.bind (sibBase_quiet _ _ _ _) fun _ => trivial

theorem modrmBase32_quiet (ctxt : X86EmulateCtxt arch) (modrmMod : BitVec 2) (modrmRm : RegIndex) (rex : RexBits)
    (eip : ULong arch) : (modrmBase32 ctxt modrmMod modrmRm rex eip).Quiet own := by
  unfold modrmBase32
  split
  · exact Prog.Quiet.bind (sibEa_quiet _ _ _ _) fun _ => trivial
  · split
    · trivial
    · trivial

theorem modrmEa_quiet (ctxt : X86EmulateCtxt arch) (p : Prefixes arch) (modrmMod : BitVec 2) (modrmRm : RegIndex)
    (rex : RexBits) (eip : ULong arch) : (modrmEa ctxt p modrmMod modrmRm rex eip).Quiet own := by
  unfold modrmEa
  split
  · apply Prog.Quiet.bind
    · exact Prog.Quiet.bind (modrmDisp16_quiet _ _ _ _) fun _ => trivial
    · intro _
      trivial
  · apply Prog.Quiet.bind
    · apply Prog.Quiet.bind (modrmBase32_quiet _ _ _ _ _)
      intro _
      exact Prog.Quiet.bind (modrmDisp32_quiet _ _ _ _) fun _ => trivial
    · intro _
      trivial

theorem decodeModrm_quiet (ctxt : X86EmulateCtxt arch) (p : Prefixes arch) (rex : RexBits) (d : BitVec 8) :
    (decodeModrm ctxt p rex d).Quiet own := by
  apply Prog.Quiet.bind (fetchByte_quiet _ _)
  rintro ⟨modrm, eip⟩
  dsimp only
  split
  · trivial
  · exact Prog.Quiet.bind (modrmEa_quiet _ _ _ _ _ _) fun _ => trivial

theorem decodeOpcode_quiet (ctxt : X86EmulateCtxt arch) (p : Prefixes arch) (ho : own .cannotEmulate) :
    (decodeOpcode ctxt p).Quiet own := by
  unfold decodeOpcode
  split
  · split
    · apply Prog.Quiet.bind (fetchByte_quiet _ _)
      rintro ⟨b, eip⟩
      dsimp only
      split
      · exact ho
      · trivial
    · exact ho
  · trivial

theorem decode_quiet (ctxt : X86EmulateCtxt arch) (ho : own .cannotEmulate) : (decode ctxt).Quiet own := by
  unfold decode
  cases modeBytes arch ctxt.mode with
  | none => exact ho
  | some sizes =>
    apply Prog.Quiet.bind (legacyPrefixes_quiet _ _ _)
    intro p
    apply Prog.Quiet.bind (rexPrefix_quiet _ _)
    rintro ⟨p, rex⟩
    apply Prog.Quiet.bind (decodeOpcode_quiet _ _ ho)
    rintro ⟨b, twobyte, eip⟩
    dsimp only
    split
    · exact Prog.Quiet.bind (decodeModrm_quiet _ _ _ _) fun _ => trivial
    · trivial

/-! ### What follows an effect -/

/-- Grp4/Grp5 push. -/
def Insn.IsPush (i : Insn arch) : Prop := i.twobyte = false ∧ inCase i.b 0xfe 0xff ∧ i.modrmReg = 6

/-- The writeback makes no call: the destination is not in memory, or the writeback of push is disabled. -/
def Exec.Settled (i : Insn arch) (x : Exec arch) : Prop :=
  (∀ addr, x.dst.ptr ≠ .mem addr) ∨ (i.IsPush ∧ x.mov = false ∧ x.dst.origVal = x.dst.val)

theorem Exec.Settled.writeback {i : Insn arch} {x : Exec arch} (hx : x.Settled i) : ∃ y, writeback x = .ret y := by
  unfold LearnKvm.writeback
  rcases hx with hp | ⟨-, hm, hv⟩
  · split
    · split
      · exact ⟨_, rfl⟩
      · rename_i addr haddr
        exact absurd haddr (hp addr)
      · exact ⟨_, rfl⟩
    · exact ⟨_, rfl⟩
  · simp [hm, hv]

theorem effect_atomic {α : Type} {c : OpCall arch} {k : OpReply arch c → Emul arch α} (hc : c.hasEffect = true)
    (hr : ∀ r e, c.refusal r = some e → k r = .fail e) (hk : ∀ r, c.refusal r = none → ∃ a, k r = .ret a) :
    Emul.Atomic own (fun _ => True) (Prog.call c k) := by
  refine fun r => ⟨hr r, fun hn _ => ?_, fun _ hn => absurd hc hn⟩
  obtain ⟨a, ha⟩ := hk r hn
  exact ⟨a, ha, trivial⟩

theorem writeStd_atomic (addr val : ULong arch) (bytes : Nat) :
    (Emul.writeStd addr val bytes).Atomic own fun _ => True :=
  effect_atomic rfl (fun _ _ he => orDone_refused he) fun _ hr => orDone_accepted hr

theorem writeEmulated_atomic (addr val : ULong arch) (bytes : Nat) :
    (Emul.writeEmulated addr val bytes).Atomic own fun _ => True :=
  effect_atomic rfl (fun _ _ he => orDone_refused he) fun _ hr => orDone_accepted hr

theorem cmpxchgEmulated_atomic (addr old new : ULong arch) (bytes : Nat) :
    (Emul.cmpxchgEmulated addr old new bytes).Atomic own fun _ => True :=
  effect_atomic rfl (fun _ _ he => orDone_refused he) fun _ hr => orDone_accepted hr

theorem cmpxchg8bEmulated_atomic (addr oldLo oldHi newLo newHi : ULong arch) :
    (Emul.cmpxchg8bEmulated addr oldLo oldHi newLo newHi).Atomic own fun _ => True :=
  effect_atomic rfl (fun _ _ he => orDone_refused he) fun _ hr => orDone_accepted hr

theorem realmodeLgdt_atomic (limit : BitVec 16) (base : ULong arch) :
    (Emul.realmodeLgdt limit base).Atomic own fun _ => True :=
  effect_atomic rfl (fun _ _ he => by cases he) fun _ _ => ⟨_, rfl⟩

theorem realmodeLidt_atomic (limit : BitVec 16) (base : ULong arch) :
    (Emul.realmodeLidt limit base).Atomic own fun _ => True :=
  effect_atomic rfl (fun _ _ he => by cases he) fun _ _ => ⟨_, rfl⟩

theorem realmodeLmsw_atomic (msw rflags : ULong arch) : (Emul.realmodeLmsw msw rflags).Atomic own fun _ => True :=
  effect_atomic rfl (fun _ _ he => by cases he) fun _ _ => ⟨_, rfl⟩

theorem realmodeSetCr_atomic (cr : BitVec 8) (val rflags : ULong arch) :
    (Emul.realmodeSetCr cr val rflags).Atomic own fun _ => True :=
  effect_atomic rfl (fun _ _ he => by cases he) fun _ _ => ⟨_, rfl⟩

/-- An effect and then the value that the instruction computes from it. -/
theorem effect_then {i : Insn arch} {α : Type} {p : Emul arch α} {f : α → Exec arch} (hp : p.Atomic own fun _ => True)
    (hf : ∀ a, (f a).Settled i) : Emul.Atomic own (Exec.Settled i) (p >>= fun a => Prog.ret (f a)) :=
  Prog.Atomic.bind hp (fun _ => trivial) fun a _ => ⟨f a, rfl, hf a⟩

/-! ### The exits -/

/-- movs, cmps, stos, lods and scas. -/
def Insn.IsString (i : Insn arch) : Prop :=
  i.twobyte = false ∧ (inCase i.b 0xa4 0xa7 ∨ inCase i.b 0xaa 0xaf)

/-- The exits that an instruction makes by itself. -/
def OwnExit (ctxt : X86EmulateCtxt arch) (i : Insn arch) : Exit arch → Prop
  | .done rc => rc = .unhandleable
  | .cannotEmulate => True
  | .repDone eip => i.IsString ∧ i.repPrefix = true ∧ ctxt.regs vcpuRegsRcx = 0#_ ∧ eip = i.eip

theorem Insn.d_onebyte {i : Insn arch} (ht : i.twobyte = false) : i.d = opcodeTable.getD i.b.toNat 0 := by
  unfold Insn.d
  rw [ht]
  rfl

theorem Insn.d_twobyte {i : Insn arch} (ht : i.twobyte = true) : i.d = twobyteTable.getD i.b.toNat 0 := by
  unfold Insn.d
  rw [ht]
  rfl

theorem implicitOps_string : ∀ b : BitVec 8, opcodeTable.getD b.toNat 0 &&& dstMask = implicitOps →
    inCase b 0xa4 0xa7 ∨ inCase b 0xaa 0xaf :=
  table_all (P := fun b d => d &&& dstMask = implicitOps → inCase b 0xa4 0xa7 ∨ inCase b 0xaa 0xaf) opcodeTable_length
    (by decide +kernel)

theorem Insn.isString {i : Insn arch} (ht : i.twobyte = false) (hd : i.d &&& dstMask = implicitOps) : i.IsString := by
  rw [Insn.d_onebyte ht] at hd
  exact ⟨ht, implicitOps_string i.b hd⟩

/-! ### Operands -/

theorem fetchDst_quiet (ctxt : X86EmulateCtxt arch) (i : Insn arch) : (fetchDst ctxt i).Quiet own := by
  unfold fetchDst
  split
  · trivial
  · split
    · trivial
    · exact Prog.Quiet.bind (readEmulated_quiet _ _) fun _ => trivial

/-- The destination is a register where the opcode table says so. -/
theorem fetchDst_within (ctxt : X86EmulateCtxt arch) (i : Insn arch) :
    (fetchDst ctxt i).Within (fun _ => True) fun dst => i.d &&& dstMask = dstReg → ∀ addr, dst.ptr ≠ .mem addr := by
  unfold fetchDst
  split
  · intro _ addr haddr
    cases haddr
  · split
    · intro h
      contradiction
    · refine ⟨trivial, fun r => ?_⟩
      cases r with
      | ok val =>
        intro h
        contradiction
      | error rc => trivial

theorem fetchMemSrc_quiet (i : Insn arch) (bytes : Nat) (eip : ULong arch) : (fetchMemSrc i bytes eip).Quiet own :=
  Prog.Quiet.bind (readEmulated_quiet _ _) fun _ => trivial

theorem fetchImmSrc_quiet (ctxt : X86EmulateCtxt arch) (bytes : Nat) (eip : ULong arch) :
    (fetchImmSrc ctxt bytes eip).Quiet own :=
  Prog.Quiet.bind (fetchS_quiet _ _ _) fun _ => trivial

theorem fetchSrc_quiet (ctxt : X86EmulateCtxt arch) (i : Insn arch) : (fetchSrc ctxt i).Quiet own := by
  unfold fetchSrc
  dsimp only
  split
  · trivial
  split
  · exact fetchMemSrc_quiet _ _ _
  split
  · exact fetchMemSrc_quiet _ _ _
  split
  · exact fetchMemSrc_quiet _ _ _
  split
  · exact fetchImmSrc_quiet _ _ _
  split
  · exact fetchImmSrc_quiet _ _ _
  · trivial

/-! ### One-byte opcodes -/

theorem popInsn_quiet (ctxt : X86EmulateCtxt arch) (i : Insn arch) (x : Exec arch) : (popInsn ctxt i x).Quiet own :=
  Prog.Quiet.bind (readStd_quiet _ _) fun _ => trivial

theorem pushOperand_quiet (i : Insn arch) (x : Exec arch) : (pushOperand i x).Quiet own := by
  unfold pushOperand
  split
  · exact Prog.Quiet.bind (readStd_quiet _ _) fun _ => trivial
  · trivial

theorem pushOperand_within (i : Insn arch) (x : Exec arch) :
    (pushOperand i x).Within (fun _ => True) fun y => y.mov = x.mov := by
  unfold pushOperand
  split
  · refine ⟨trivial, fun r => ?_⟩
    cases r with
    | ok val => rfl
    | error rc => trivial
  · rfl

/-- After the store nothing is written back. -/
theorem pushInsn_atomic (ctxt : X86EmulateCtxt arch) {i : Insn arch} {x : Exec arch} (hi : i.IsPush)
    (hm : x.mov = false) : (pushInsn ctxt i x).Atomic own (Exec.Settled i) := by
  apply Prog.Quiet.bind_of_within (pushOperand_quiet i x) (pushOperand_within i x)
  intro y hy
  apply effect_then (writeStd_atomic _ _ _)
  intro _
  right
  exact ⟨hi, hy.trans hm, rfl⟩

theorem grp3_quiet (cpu : HostCpu arch) (ctxt : X86EmulateCtxt arch) (i : Insn arch) (x : Exec arch)
    (ho : own .cannotEmulate) : (grp3 cpu ctxt i x).Quiet own := by
  unfold grp3
  split
  · exact Prog.Quiet.bind (fetchImmSrc_quiet _ _ _) fun _ => trivial
  split
  · trivial
  split
  · trivial
  · exact ho

theorem grp45_atomic (cpu : HostCpu arch) (ctxt : X86EmulateCtxt arch) {i : Insn arch} {x : Exec arch}
    (ht : i.twobyte = false) (hb : inCase i.b 0xfe 0xff) (hm : x.mov = false) (ho : own .cannotEmulate) :
    (grp45 cpu ctxt i x).Atomic own (Exec.Settled i) := by
  unfold grp45
  split
  · trivial
  split
  · trivial
  split
  · rename_i hreg
    exact pushInsn_atomic ctxt ⟨ht, hb, hreg⟩ hm
  · exact ho

theorem grp45_not_mov (b : BitVec 8) (hb : inCase b 0xfe 0xff = true) :
    (opcodeTable.getD b.toNat 0 &&& movFlag != 0) = false := by
  rcases inCase_pair hb rfl with rfl | rfl <;> rfl

theorem onebyteInsn_atomic (cpu : HostCpu arch) (ctxt : X86EmulateCtxt arch) (i : Insn arch) {x : Exec arch}
    (ht : i.twobyte = false) (hm : x.mov = i.isMov) (ho : own .cannotEmulate) :
    (onebyteInsn cpu ctxt i x).Atomic own (Exec.Settled i) := by
  unfold onebyteInsn
  dsimp only
  iterate 8 refine Prog.Atomic.ite (fun _ => trivial) fun _ => ?_
  refine Prog.Atomic.ite (fun _ => Prog.Atomic.ite (fun _ => trivial) fun _ => ho) fun _ => ?_
  iterate 6 refine Prog.Atomic.ite (fun _ => trivial) fun _ => ?_
  refine Prog.Atomic.ite (fun _ => (popInsn_quiet _ _ _).atomic) fun _ => ?_
  iterate 3 refine Prog.Atomic.ite (fun _ => trivial) fun _ => ?_
  refine Prog.Atomic.ite (fun _ => (grp3_quiet _ _ _ _ ho).atomic) fun _ => ?_
  refine Prog.Atomic.ite (fun hb => ?_) fun _ => trivial
  apply grp45_atomic cpu ctxt ht hb _ ho
  rw [hm, Insn.isMov, Insn.d_onebyte ht]
  exact grp45_not_mov i.b hb

/-! ### Two-byte opcodes -/

theorem readDescriptor_quiet (ptr : ULong arch) (opBytes : Nat) : (readDescriptor ptr opBytes).Quiet own := by
  apply Prog.Quiet.bind (readStd_quiet _ _)
  intro _
  exact Prog.Quiet.bind (readStd_quiet _ _) fun _ => trivial

/-- The destination of lgdt, lidt and lmsw is a register. -/
theorem grp7_atomic (i : Insn arch) {x : Exec arch} (hx : ∀ addr, x.dst.ptr ≠ .mem addr) (ho : own .cannotEmulate) :
    (grp7 i x).Atomic own (Exec.Settled i) := by
  unfold grp7
  split
  · exact Prog.Quiet.bind (readDescriptor_quiet _ _) fun _ => effect_then (realmodeLgdt_atomic _ _) fun _ => Or.inl hx
  split
  · exact Prog.Quiet.bind (readDescriptor_quiet _ _) fun _ => effect_then (realmodeLidt_atomic _ _) fun _ => Or.inl hx
  split
  · exact effect_then (realmodeLmsw_atomic _ _) fun _ => Or.inl hx
  · exact ho

theorem grp7_dst : twobyteTable.getD (0x01 : BitVec 8).toNat 0 &&& dstMask = dstReg := rfl

theorem twobyteInsn_atomic (cpu : HostCpu arch) (i : Insn arch) {x : Exec arch} (ht : i.twobyte = true)
    (hx : i.d &&& dstMask = dstReg → ∀ addr, x.dst.ptr ≠ .mem addr) (ho : own .cannotEmulate) :
    (twobyteInsn cpu i x).Atomic own (Exec.Settled i) := by
  unfold twobyteInsn
  dsimp only
  refine Prog.Atomic.ite (fun hb => ?_) fun _ => ?_
  · apply grp7_atomic i _ ho
    apply hx
    rw [Insn.d_twobyte ht, hb]
    exact grp7_dst
  · iterate 9 refine Prog.Atomic.ite (fun _ => trivial) fun _ => ?_
    trivial

/-! ### Special instructions -/

theorem repeatInsn_quiet (ctxt : X86EmulateCtxt arch) {i : Insn arch} (hs : i.IsString) :
    (repeatInsn ctxt i (specialExec ctxt i)).Quiet (OwnExit ctxt i) := by
  unfold repeatInsn
  split
  · rename_i hr
    split
    · rename_i hc
      exact ⟨hs, hr, hc, rfl⟩
    · trivial
  · trivial

theorem movs_quiet (ctxt : X86EmulateCtxt arch) (i : Insn arch) (x : Exec arch) : (movs ctxt i x).Quiet own :=
  Prog.Quiet.bind (readEmulated_quiet _ _) fun _ => trivial

theorem lods_quiet (i : Insn arch) (x : Exec arch) : (lods i x).Quiet own :=
  Prog.Quiet.bind (readEmulated_quiet _ _) fun _ => trivial

theorem specialInsn_quiet (ctxt : X86EmulateCtxt arch) {i : Insn arch} (hs : i.IsString) :
    (specialInsn ctxt i).Quiet (OwnExit ctxt i) := by
  apply Prog.Quiet.bind (repeatInsn_quiet ctxt hs)
  intro x
  split
  · exact movs_quiet _ _ _
  split
  · trivial
  split
  · trivial
  split
  · exact lods_quiet _ _
  split
  · trivial
  · trivial

theorem crModrm_quiet (ctxt : X86EmulateCtxt arch) (eip : ULong arch) (ho : own .cannotEmulate) :
    (crModrm ctxt eip).Quiet own := by
  apply Prog.Quiet.bind (fetchByte_quiet _ _)
  rintro ⟨b, eip⟩
  dsimp only
  split
  · exact ho
  · trivial

theorem movFromCr_quiet (ctxt : X86EmulateCtxt arch) (x : Exec arch) (ho : own .cannotEmulate) :
    (movFromCr ctxt x).Quiet own := by
  apply Prog.Quiet.bind (crModrm_quiet _ _ ho)
  intro _
  exact Prog.Quiet.bind (realmodeGetCr_quiet _) fun _ => trivial

theorem movToCr_atomic (ctxt : X86EmulateCtxt arch) {i : Insn arch} {x : Exec arch} (hx : x.Settled i)
    (ho : own .cannotEmulate) : (movToCr ctxt x).Atomic own (Exec.Settled i) := by
  apply Prog.Quiet.bind (crModrm_quiet _ _ ho)
  intro _
  exact effect_then (realmodeSetCr_atomic _ _ _) fun _ => hx

theorem cmpxchg8bI386_atomic (hasCmpxchg8b : Bool) (i : Insn arch) {x : Exec arch} (hx : x.Settled i)
    (ho : own (.done .unhandleable)) : (cmpxchg8bI386 hasCmpxchg8b i x).Atomic own (Exec.Settled i) := by
  apply Prog.Quiet.bind (readEmulated_quiet _ _)
  intro oldLo
  apply Prog.Quiet.bind (readEmulated_quiet _ _)
  intro oldHi
  split
  · trivial
  split
  · exact ho
  · exact effect_then (cmpxchg8bEmulated_atomic _ _ _ _ _) fun _ => hx

theorem cmpxchg8bX86_64_atomic (i : Insn arch) {x : Exec arch} (hx : x.Settled i) :
    (cmpxchg8bX86_64 i x).Atomic own (Exec.Settled i) := by
  apply Prog.Quiet.bind (readEmulated_quiet _ _)
  intro old
  split
  · trivial
  · exact effect_then (cmpxchgEmulated_atomic _ _ _ _) fun _ => hx

theorem cmpxchg8b_atomic (hasCmpxchg8b : Bool) (i : Insn arch) {x : Exec arch} (hx : x.Settled i)
    (ho : own (.done .unhandleable)) : (cmpxchg8b hasCmpxchg8b i x).Atomic own (Exec.Settled i) := by
  unfold cmpxchg8b
  split
  · exact cmpxchg8bI386_atomic _ _ hx ho
  · exact cmpxchg8bX86_64_atomic _ hx

theorem specialExec_settled (ctxt : X86EmulateCtxt arch) (i : Insn arch) : (specialExec ctxt i).Settled i := by
  left
  intro addr haddr
  cases haddr

theorem twobyteSpecialInsn_atomic (hasCmpxchg8b : Bool) (ctxt : X86EmulateCtxt arch) (i : Insn arch) :
    (twobyteSpecialInsn hasCmpxchg8b ctxt i).Atomic (OwnExit ctxt i) (Exec.Settled i) := by
  have hx := specialExec_settled ctxt i
  unfold twobyteSpecialInsn
  dsimp only
  split
  · exact (movFromCr_quiet ctxt _ trivial).atomic
  split
  · exact movToCr_atomic ctxt hx trivial
  split
  · exact cmpxchg8b_atomic _ i hx rfl
  · trivial

/-! ### The whole instruction -/

theorem execute_atomic (cpu : HostCpu arch) (hasCmpxchg8b : Bool) (ctxt : X86EmulateCtxt arch) (i : Insn arch) :
    (execute cpu hasCmpxchg8b ctxt i).Atomic (OwnExit ctxt i) (Exec.Settled i) := by
  unfold execute
  split
  · rename_i hd
    cases ht : i.twobyte with
    | true => exact twobyteSpecialInsn_atomic hasCmpxchg8b ctxt i
    | false => exact (specialInsn_quiet ctxt (Insn.isString ht hd)).atomic
  · apply Prog.Quiet.bind_of_within (fetchDst_quiet ctxt i) (fetchDst_within ctxt i)
    intro dst hdst
    apply Prog.Quiet.bind (fetchSrc_quiet ctxt i)
    rintro ⟨src, eip⟩
    dsimp only
    cases ht : i.twobyte with
    | true => exact twobyteInsn_atomic cpu i ht hdst trivial
    | false => exact onebyteInsn_atomic cpu ctxt i ht rfl trivial

theorem writeback_atomic (x : Exec arch) : (writeback x).Atomic own fun _ => True := by
  unfold writeback
  split
  · split
    · trivial
    · split
      · exact Prog.Atomic.bind (cmpxchgEmulated_atomic _ _ _ _) (fun _ => trivial) fun _ _ => ⟨_, rfl, trivial⟩
      · exact Prog.Atomic.bind (writeEmulated_atomic _ _ _) (fun _ => trivial) fun _ _ => ⟨_, rfl, trivial⟩
    · trivial
  · trivial

/-- What follows the decoding. -/
def executeAndWriteback (cpu : HostCpu arch) (hasCmpxchg8b : Bool) (ctxt : X86EmulateCtxt arch) (i : Insn arch) :
    Emul arch (Exec arch) :=
  execute cpu hasCmpxchg8b ctxt i >>= writeback

theorem executeAndWriteback_atomic (cpu : HostCpu arch) (hasCmpxchg8b : Bool) (ctxt : X86EmulateCtxt arch)
    (i : Insn arch) : (executeAndWriteback cpu hasCmpxchg8b ctxt i).Atomic (OwnExit ctxt i) fun _ => True := by
  apply Prog.Atomic.bind (execute_atomic cpu hasCmpxchg8b ctxt i) fun x => writeback_atomic x
  intro x hx
  obtain ⟨y, hy⟩ := hx.writeback
  exact ⟨y, hy, trivial⟩

/-- No instruction propagates a fault by itself. -/
theorem emulate_atomic (cpu : HostCpu arch) (hasCmpxchg8b : Bool) (ctxt : X86EmulateCtxt arch) :
    (emulate cpu hasCmpxchg8b ctxt).Atomic (fun e => e ≠ .done .propagateFault) fun _ => True := by
  apply Prog.Quiet.bind (decode_quiet ctxt fun h => by cases h)
  intro i
  apply (executeAndWriteback_atomic cpu hasCmpxchg8b ctxt i).mono _ fun _ h => h
  rintro e he rfl
  cases he

/-! ### Runs -/

variable {σ : Type} (h : (c : OpCall arch) → σ → OpReply arch c × σ)

theorem effects_eq_zero {t : List (Event (OpReply arch))}
    (ht : ∀ e ∈ t, ¬ e.Effect OpCall.refusal fun c => c.hasEffect = true) : effects t = 0 := by
  rw [effects, List.countP_eq_zero]
  intro e he
  rw [isEffect_iff]
  exact ht e he

theorem effects_le_one {s s' : σ} {t : List (Event (OpReply arch))}
    (ht : EffectLast h OpCall.refusal (fun c => c.hasEffect = true) s t s') : effects t ≤ 1 := by
  rcases ht with ht | ⟨t₁, c, s₁, rfl, -, -, ht₁, -⟩
  · rw [effects_eq_zero ht]
    omega
  · have h0 := effects_eq_zero ht₁
    rw [effects] at h0 ⊢
    rw [List.countP_append, h0, Nat.zero_add]
    exact (List.countP_le_length).trans (by simp)

/-- What the exits of an instruction without a commit leave. -/
theorem finish_own {ctxt : X86EmulateCtxt arch} {i : Insn arch} {e : Exit arch} (he : OwnExit ctxt i e) :
    (ctxt.finish (.error e)).2 = ctxt ∨
    (i.IsString ∧ i.repPrefix = true ∧ ctxt.regs vcpuRegsRcx = 0#_ ∧
      (ctxt.finish (.error e)).2 = { ctxt with rip := i.eip }) := by
  cases e with
  | done rc => left; cases rc <;> rfl
  | cannotEmulate => left; rfl
  | repDone eip =>
    obtain ⟨hs, hr, hc, rfl⟩ := he
    exact Or.inr ⟨hs, hr, hc, rfl⟩

theorem refusal_done {e : Event (OpReply arch)} {x : Exit arch} (he : e.1.refusal e.2 = some x) :
    ∃ rc, x = .done rc := by
  obtain ⟨c, r⟩ := e
  cases c <;> first
    | (cases he)
    | (cases r with
       | ok a => cases he
       | error rc => cases he; exact ⟨rc, rfl⟩)

/-- A failed callback leaves the context as it was. -/
theorem finish_failsBy {ctxt : X86EmulateCtxt arch} {i : Insn arch} {t : List (Event (OpReply arch))} {e : Exit arch}
    (he : FailsBy OpCall.refusal (OwnExit ctxt i) t e) :
    (ctxt.finish (.error e)).2 = ctxt ∨
    (i.IsString ∧ i.repPrefix = true ∧ ctxt.regs vcpuRegsRcx = 0#_ ∧
      (ctxt.finish (.error e)).2 = { ctxt with rip := i.eip }) := by
  rcases he with ⟨t₁, x, -, hx, -⟩ | ⟨ho, -⟩
  · obtain ⟨rc, rfl⟩ := refusal_done hx
    left
    cases rc <;> rfl
  · exact finish_own ho

theorem emulate_eq (cpu : HostCpu arch) (hasCmpxchg8b : Bool) (ctxt : X86EmulateCtxt arch) :
    emulate cpu hasCmpxchg8b ctxt = decode ctxt >>= executeAndWriteback cpu hasCmpxchg8b ctxt := rfl

theorem effects_append (t₁ t₂ : List (Event (OpReply arch))) : effects (t₁ ++ t₂) = effects t₁ + effects t₂ :=
  List.countP_append

/-- An instruction that is not decoded leaves everything as it was. -/
theorem decode_fails {ctxt : X86EmulateCtxt arch} {s : σ} {e : Exit arch}
    (hr : ((decode ctxt).run h s).result = .error e) :
    (ctxt.finish (.error e)).2 = ctxt ∧ effects ((decode ctxt).run h s).trace = 0 := by
  obtain ⟨hf, hno⟩ := ((@decode_quiet arch (fun e => e = .cannotEmulate) ctxt rfl).run h s).2 e hr
  refine ⟨?_, effects_eq_zero hno⟩
  rcases hf with ⟨t₁, x, -, hx, -⟩ | ⟨rfl, -⟩
  · obtain ⟨rc, rfl⟩ := refusal_done hx
    cases rc <;> rfl
  · rfl

theorem decode_effects {ctxt : X86EmulateCtxt arch} {s : σ} {i : Insn arch}
    (hr : ((decode ctxt).run h s).result = .ok i) : effects ((decode ctxt).run h s).trace = 0 := by
  obtain ⟨-, -, hq⟩ := ((@decode_quiet arch (fun e => e = .cannotEmulate) ctxt rfl).run h s).1 i hr
  exact effects_eq_zero fun e he hE => hq ⟨e, he, hE⟩

/-- The run of an instruction that is decoded, from the state in which the decoder leaves the callbacks. -/
theorem emulate_run {ctxt : X86EmulateCtxt arch} {s : σ} {i : Insn arch} (cpu : HostCpu arch) (hasCmpxchg8b : Bool)
    (hr : ((decode ctxt).run h s).result = .ok i) :
    let o := (executeAndWriteback cpu hasCmpxchg8b ctxt i).run h ((decode ctxt).run h s).state
    (emulate cpu hasCmpxchg8b ctxt).run h s = { o with trace := ((decode ctxt).run h s).trace ++ o.trace } := by
  rw [emulate_eq, Prog.run_bind, hr]

theorem emulate_run_error {ctxt : X86EmulateCtxt arch} {s : σ} {e : Exit arch} (cpu : HostCpu arch)
    (hasCmpxchg8b : Bool) (hr : ((decode ctxt).run h s).result = .error e) :
    (emulate cpu hasCmpxchg8b ctxt).run h s =
      ⟨.error e, ((decode ctxt).run h s).state, ((decode ctxt).run h s).trace⟩ := by
  rw [emulate_eq, Prog.run_bind, hr]

/-- A call of `x86_emulate_memop` commits, after at most one effect, or leaves the registers as they were, after none.
The exception is a string instruction with a REP prefix and RCX = 0, which changes RIP alone. -/
theorem x86EmulateMemop_restartable (cpu : HostCpu arch) (hasCmpxchg8b : Bool) (ctxt : X86EmulateCtxt arch) (s : σ) :
    let o := (emulate cpu hasCmpxchg8b ctxt).run h s
    let after := (x86EmulateMemop h cpu hasCmpxchg8b ctxt s).2.1
    (∃ x, o.result = .ok x ∧ after = { ctxt with regs := x.regs, rip := x.eip, eflags := x.eflags } ∧
      effects o.trace ≤ 1) ∨
    (after = ctxt ∧ effects o.trace = 0) ∨
    ∃ i, ((decode ctxt).run h s).result = .ok i ∧ i.IsString ∧ i.repPrefix = true ∧ ctxt.regs vcpuRegsRcx = 0#_ ∧
      after = { ctxt with rip := i.eip } ∧ effects o.trace = 0 := by
  intro o after
  have hafter : after = (ctxt.finish o.result).2 := rfl
  cases hr : ((decode ctxt).run h s).result with
  | error e =>
    have ho : o = _ := emulate_run_error h cpu hasCmpxchg8b hr
    right; left
    rw [hafter, ho]
    exact decode_fails h hr
  | ok i =>
    have ho : o = _ := emulate_run h cpu hasCmpxchg8b hr
    have hx := (executeAndWriteback_atomic cpu hasCmpxchg8b ctxt i).run h ((decode ctxt).run h s).state
    have heff : effects o.trace =
        effects ((executeAndWriteback cpu hasCmpxchg8b ctxt i).run h ((decode ctxt).run h s).state).trace := by
      rw [ho, effects_append, decode_effects h hr, Nat.zero_add]
    have hres : o.result =
        ((executeAndWriteback cpu hasCmpxchg8b ctxt i).run h ((decode ctxt).run h s).state).result := by
      rw [ho]
    rw [heff, hafter]
    cases hor : o.result with
    | ok x =>
      obtain ⟨hl, -, -⟩ := hx.1 x (hres.symm.trans hor)
      exact Or.inl ⟨x, rfl, rfl, effects_le_one h hl⟩
    | error e =>
      obtain ⟨hf, hno⟩ := hx.2 e (hres.symm.trans hor)
      right
      rcases finish_failsBy hf with hctxt | ⟨hs, hrep, hc, hctxt⟩
      · exact Or.inl ⟨hctxt, effects_eq_zero hno⟩
      · exact Or.inr ⟨i, rfl, hs, hrep, hc, hctxt, effects_eq_zero hno⟩

end LearnKvm
