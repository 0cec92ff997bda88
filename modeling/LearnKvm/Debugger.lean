import Mathlib.Data.List.TakeWhile
import LearnKvm.ExceptionBitmap

/-!
# Breakpoints of the debugger (`kvm_update_debugger`, `kvm_dev_ioctl_debug_guest`)

QEMU passes the breakpoints of its debugger to the module in a structure on the stack, and sets the `enabled` words only of
the slots that it uses.  The module enables every slot whose word is not zero, so what is left on the stack may enable more
of them.  The slots that the debugger uses always get their addresses, and single-stepping is always right: after each call
the hardware has exactly what the debugger wants if the words that are not set have been zero on the stack
(`updateDebugger_exact_iff`).
-/

namespace LearnKvm

/-! ### The code -/

/-- What `kvm_update_debugger` reads of `CPUState`. -/
structure DebugEnv where
  nbBreakpoints : Nat
  breakpoints : Nat → BitVec 64
  singlestepEnabled : BitVec 32

/-- One round of the loop over the breakpoints. -/
def KvmDebugGuest.fillBreakpoint (env : DebugEnv) (dbg : KvmDebugGuest) (i : Fin 4) : KvmDebugGuest :=
  { dbg with breakpoints := Function.update dbg.breakpoints i ⟨1, env.breakpoints i⟩ }

/-- The structure that is passed on; `stack` is what the variable `dbg` holds at first. -/
def debuggerRequest (stack : KvmDebugGuest) (env : DebugEnv) : KvmDebugGuest :=
  let dbg := { stack with enabled := 0 }
  if env.nbBreakpoints ≠ 0 ∨ env.singlestepEnabled ≠ 0 then
    let dbg := { dbg with enabled := 1 }
    let dbg := ((List.finRange 4).takeWhile fun i => i.val < env.nbBreakpoints).foldl (.fillBreakpoint env) dbg
    { dbg with singlestep := env.singlestepEnabled }
  else dbg

/-- `kvm_update_debugger`, up to the return from KVM_DEBUG_GUEST for the vcpu 0. -/
def kvmUpdateDebugger (s : DebugVcpu) (stack : KvmDebugGuest) (env : DebugEnv) : DebugVcpu :=
  debugGuest s (debuggerRequest stack env)

/-- `kvm_guest_debug_pre`: the debug registers of the processor, and the vcpu. -/
def kvmGuestDebugPre (s : DebugVcpu) : (Fin 4 → BitVec 64) × DebugVcpu :=
  (s.guestDebug.bp,
    if s.guestDebug.singlestep != 0 then
      { s with vmcs := vmcsWritel s.vmcs .guestRflags (vmcsReadl s.vmcs .guestRflags ||| (x86EflagsTf ||| x86EflagsRf)) }
    else s)

/-! ### What the debugger wants -/

namespace DebugEnv

def Debugging (env : DebugEnv) : Prop := env.nbBreakpoints ≠ 0 ∨ env.singlestepEnabled ≠ 0

/-- The words `enabled` that are not set have been zero. -/
def CleanStack (env : DebugEnv) (stack : KvmDebugGuest) : Prop :=
  ∀ i : Fin 4, env.nbBreakpoints ≤ i.val → (stack.breakpoints i).enabled = 0

end DebugEnv

/-- The local or the global enable bit of a breakpoint. -/
def BreakpointEnabled (dr7 : BitVec 64) (i : Fin 4) : Prop :=
  dr7.hasBit (2 * i.val) = true ∨ dr7.hasBit (2 * i.val + 1) = true

structure DebuggerExact (env : DebugEnv) (d : DebugVcpu) : Prop where
  slots : ∀ i, BreakpointEnabled (vmcsReadl d.vmcs .guestDr7) i ↔ env.Debugging ∧ i.val < env.nbBreakpoints
  addresses : ∀ i, BreakpointEnabled (vmcsReadl d.vmcs .guestDr7) i →
    d.guestDebug.bp i = env.breakpoints i ∧ (kvmGuestDebugPre d).1 i = env.breakpoints i
  singlestep : d.guestDebug.singlestep = env.singlestepEnabled

/-! ### One call -/

variable {env : DebugEnv} {stack : KvmDebugGuest}

theorem foldl_fillBreakpoint (l : List (Fin 4)) (dbg : KvmDebugGuest) (i : Fin 4) :
    (l.foldl (.fillBreakpoint env) dbg).breakpoints i = if i ∈ l then ⟨1, env.breakpoints i⟩ else dbg.breakpoints i := by
  induction l generalizing dbg with
  | nil => rfl
  | cons j l ih =>
    rw [List.foldl_cons, ih]
    by_cases hi : i ∈ l
    · rw [if_pos hi, if_pos (List.mem_cons_of_mem _ hi)]
    · rw [if_neg hi]
      by_cases hij : i = j
      · subst hij
        rw [if_pos List.mem_cons_self]
        exact Function.update_self ..
      · rw [if_neg (by simp [hij, hi])]
        exact Function.update_of_ne hij ..

theorem foldl_fillBreakpoint_enabled (l : List (Fin 4)) (dbg : KvmDebugGuest) :
    (l.foldl (.fillBreakpoint env) dbg).enabled = dbg.enabled := by
  induction l generalizing dbg with
  | nil => rfl
  | cons j l ih => rw [List.foldl_cons, ih]; rfl

/-- The loop runs over the slots that are used. -/
theorem mem_usedSlots (n : Nat) (i : Fin 4) : i ∈ (List.finRange 4).takeWhile (fun i => i.val < n) ↔ i.val < n := by
  by_cases h : n < 4
  · interval_cases n <;> revert i <;> decide
  · have hall : ∀ j : Fin 4, j.val < n := fun j => by omega
    rw [List.takeWhile_eq_self_iff.2 fun j _ => decide_eq_true (hall j)]
    exact iff_of_true (List.mem_finRange i) (hall i)

/-- The slots that are used are enabled with their addresses; the others are as they have been on the stack. -/
theorem debuggerRequest_on (stack : KvmDebugGuest) (h : env.Debugging) :
    (debuggerRequest stack env).enabled = 1 ∧ (debuggerRequest stack env).singlestep = env.singlestepEnabled ∧
      ∀ i, (debuggerRequest stack env).breakpoints i =
        if i.val < env.nbBreakpoints then ⟨1, env.breakpoints i⟩ else stack.breakpoints i := by
  unfold debuggerRequest
  dsimp only
  rw [if_pos (show env.nbBreakpoints ≠ 0 ∨ env.singlestepEnabled ≠ 0 from h)]
  refine ⟨foldl_fillBreakpoint_enabled _ _, rfl, fun i => ?_⟩
  rw [foldl_fillBreakpoint]
  exact if_congr (mem_usedSlots _ i) rfl rfl

theorem debuggerRequest_off (stack : KvmDebugGuest) (h : ¬env.Debugging) : (debuggerRequest stack env).enabled = 0 := by
  unfold debuggerRequest
  dsimp only
  rw [if_neg (show ¬(env.nbBreakpoints ≠ 0 ∨ env.singlestepEnabled ≠ 0) from h)]

/-! ### DR7 -/

/-- A round of the loop over the breakpoints in the module sets the global enable bit. -/
theorem hasBit_globalEnable (dr7 : BitVec 64) (i : Fin 4) (j : Nat) :
    (dr7 ||| 2#64 <<< (i.val * 2) ||| 0#64 <<< (i.val * 4 + 16)).hasBit j = (dr7.hasBit j || decide (j = 2 * i.val + 1)) := by
  have htwo : (2#64 : BitVec 64) = 1#64 <<< 1 := rfl
  rw [BitVec.zero_shiftLeft, BitVec.or_zero, BitVec.hasBit_or, htwo, ← BitVec.shiftLeft_add,
    Bits.hasBit_one_shiftLeft (by omega)]
  congr 2
  exact propext (by omega)

theorem hasBit_enabledBreakpoints (dbg : KvmDebugGuest) (dr7 : BitVec 64) (j : Nat) :
    (enabledBreakpoints dbg dr7).hasBit j = true ↔
      dr7.hasBit j = true ∨ ∃ i : Fin 4, (dbg.breakpoints i).enabled ≠ 0 ∧ j = 2 * i.val + 1 := by
  have hall : ∀ (l : List (Fin 4)) (x : BitVec 64), (l.foldl (fun dr7 i =>
      if (dbg.breakpoints i).enabled != 0 then dr7 ||| 2#64 <<< (i.val * 2) ||| 0#64 <<< (i.val * 4 + 16) else dr7) x).hasBit
        j = true ↔ x.hasBit j = true ∨ ∃ i ∈ l, (dbg.breakpoints i).enabled ≠ 0 ∧ j = 2 * i.val + 1 := by
    intro l
    induction l with
    | nil => simp
    | cons i l ih =>
      intro x
      rw [List.foldl_cons, ih]
      by_cases hi : (dbg.breakpoints i).enabled = 0
      · simp [hi]
      · rw [if_pos (by simpa using hi), hasBit_globalEnable x i j]
        have hi' : ¬(dbg.breakpoints i).enabled = 0#32 := hi
        simp [hi', or_assoc]
  unfold enabledBreakpoints
  rw [hall]
  simp

/-- KVM_DEBUG_GUEST enables the slots whose words are not zero. -/
theorem debugGuest_dr7 (d : DebugVcpu) (dbg : KvmDebugGuest) (i : Fin 4) :
    BreakpointEnabled (vmcsReadl (debugGuest d dbg).vmcs .guestDr7) i ↔
      dbg.enabled ≠ 0 ∧ (dbg.breakpoints i).enabled ≠ 0 := by
  have hbase : ∀ j < 8, (0x400#64 ||| 0x200#64 : BitVec 64).hasBit j = false ∧ (0x400#64 : BitVec 64).hasBit j = false := by
    decide
  have hlow := hbase (2 * i.val) (by omega)
  have hhigh := hbase (2 * i.val + 1) (by omega)
  unfold BreakpointEnabled
  by_cases hen : dbg.enabled = 0
  · have hdr7 : vmcsReadl (debugGuest d dbg).vmcs .guestDr7 = 0x400#64 := by
      unfold debugGuest
      rw [hen]
      rfl
    rw [hdr7, hlow.2, hhigh.2]
    exact iff_of_false (by simp) fun h => h.1 hen
  · have hdr7 : vmcsReadl (debugGuest d dbg).vmcs .guestDr7 = enabledBreakpoints dbg (0x400#64 ||| 0x200#64) := by
      unfold debugGuest
      simp only [show (dbg.enabled != 0) = true by simpa using hen, if_true]
      rfl
    rw [hdr7, hasBit_enabledBreakpoints, hasBit_enabledBreakpoints, hlow.1, hhigh.1]
    constructor
    · rintro ((h | ⟨j, -, hj⟩) | (h | ⟨j, hj, heq⟩))
      · cases h
      · omega
      · cases h
      · obtain rfl : j = i := by omega
        exact ⟨hen, hj⟩
    · exact fun h => Or.inr (Or.inr ⟨i, h.2, rfl⟩)

/-- An enabled slot gets its address. -/
theorem debugGuest_bp (d : DebugVcpu) {dbg : KvmDebugGuest} {i : Fin 4} (hen : dbg.enabled ≠ 0)
    (hi : (dbg.breakpoints i).enabled ≠ 0) : (debugGuest d dbg).guestDebug.bp i = (dbg.breakpoints i).address := by
  unfold debugGuest
  simp only [show (dbg.enabled != 0) = true by simpa using hen, if_true]
  exact if_pos (by simpa using hi)

theorem debugGuest_singlestep (d : DebugVcpu) (dbg : KvmDebugGuest) :
    (debugGuest d dbg).guestDebug.singlestep = if dbg.enabled ≠ 0 then dbg.singlestep else 0 := by
  unfold debugGuest
  by_cases hen : dbg.enabled = 0
  · rw [if_neg (not_not.2 hen)]
    simp only [hen, bne_self_eq_false]
    rfl
  · rw [if_pos hen]
    simp only [show (dbg.enabled != 0) = true by simpa using hen, if_true]

/-- One call leaves what the debugger wants just if debugging is off or the stack has been clean. -/
theorem kvmUpdateDebugger_exact (d : DebugVcpu) (stack : KvmDebugGuest) (env : DebugEnv) :
    DebuggerExact env (kvmUpdateDebugger d stack env) ↔ ¬env.Debugging ∨ env.CleanStack stack := by
  have hslot := debugGuest_dr7 d (debuggerRequest stack env)
  have hsingle := debugGuest_singlestep d (debuggerRequest stack env)
  by_cases hdebug : env.Debugging
  · obtain ⟨hen, hstep, hbreak⟩ := debuggerRequest_on stack hdebug
    have hen0 : (debuggerRequest stack env).enabled ≠ 0 := by
      rw [hen]
      decide
    rw [if_pos hen0, hstep] at hsingle
    have hused : ∀ i : Fin 4, i.val < env.nbBreakpoints →
        (debuggerRequest stack env).breakpoints i = ⟨1, env.breakpoints i⟩ := fun i hi => (hbreak i).trans (if_pos hi)
    have hunused : ∀ i : Fin 4, env.nbBreakpoints ≤ i.val →
        (debuggerRequest stack env).breakpoints i = stack.breakpoints i := fun i hi =>
      (hbreak i).trans (if_neg (Nat.not_lt.2 hi))
    rw [or_iff_right (not_not.2 hdebug)]
    constructor
    · rintro ⟨hslots, -, -⟩ i hi
      by_contra hne
      have hon := (hslot i).2 ⟨hen0, by rw [hunused i hi]; exact hne⟩
      exact Nat.not_lt.2 hi ((hslots i).1 hon).2
    · intro hclean
      have hlt : ∀ i, BreakpointEnabled (vmcsReadl (kvmUpdateDebugger d stack env).vmcs .guestDr7) i →
          i.val < env.nbBreakpoints := by
        intro i hi
        by_contra hno
        refine ((hslot i).1 hi).2 ?_
        rw [hunused i (Nat.le_of_not_lt hno)]
        exact hclean i (Nat.le_of_not_lt hno)
      have hon : ∀ i : Fin 4, i.val < env.nbBreakpoints → ((debuggerRequest stack env).breakpoints i).enabled ≠ 0 := by
        intro i hi
        rw [hused i hi]
        exact show (1 : BitVec 32) ≠ 0 by decide
      have haddr : ∀ i : Fin 4, i.val < env.nbBreakpoints →
          (kvmUpdateDebugger d stack env).guestDebug.bp i = env.breakpoints i := fun i hi =>
        (debugGuest_bp d hen0 (hon i hi)).trans (by rw [hused i hi])
      refine ⟨fun i => ⟨fun hi => ⟨hdebug, hlt i hi⟩, fun hi => (hslot i).2 ⟨hen0, hon i hi.2⟩⟩, fun i hi => ?_, hsingle⟩
      exact ⟨haddr i (hlt i hi), haddr i (hlt i hi)⟩
  · have hoff := debuggerRequest_off stack hdebug
    have hnone : ∀ i, ¬BreakpointEnabled (vmcsReadl (kvmUpdateDebugger d stack env).vmcs .guestDr7) i := fun i hi =>
      ((hslot i).1 hi).1 hoff
    have hstep : env.singlestepEnabled = 0 := by
      by_contra hne
      exact hdebug (Or.inr hne)
    rw [if_neg (not_not.2 hoff)] at hsingle
    refine iff_of_true ⟨fun i => iff_of_false (hnone i) fun hi => hdebug hi.1, fun i hi => absurd hi (hnone i), ?_⟩
      (Or.inl hdebug)
    rw [hstep]
    exact hsingle

/-! ### Sequences of calls -/

/-- A call, with what happens to the vcpu before it. -/
structure DebuggerCall where
  before : DebugVcpu → DebugVcpu
  stack : KvmDebugGuest
  env : DebugEnv

/-- The vcpu after each call. -/
def debuggerRun (d : DebugVcpu) : List DebuggerCall → List (DebugEnv × DebugVcpu)
  | [] => []
  | c :: calls =>
    let d := kvmUpdateDebugger (c.before d) c.stack c.env
    (c.env, d) :: debuggerRun d calls

/-- **When the breakpoints reach the hardware.**  Along a sequence of calls the module has what the debugger wants after
each of them just if each finds zeros in the words that it does not set, or switches debugging off. -/
theorem updateDebugger_exact_iff (d : DebugVcpu) (calls : List DebuggerCall) :
    (∀ p ∈ debuggerRun d calls, DebuggerExact p.1 p.2) ↔
      ∀ c ∈ calls, ¬c.env.Debugging ∨ c.env.CleanStack c.stack := by
  induction calls generalizing d with
  | nil => exact iff_of_true (fun p hp => absurd hp List.not_mem_nil) fun c hc => absurd hc List.not_mem_nil
  | cons c calls ih =>
    unfold debuggerRun
    rw [List.forall_mem_cons, List.forall_mem_cons, ih, kvmUpdateDebugger_exact]

/-- One breakpoint, and a stack that enables the last slot. -/
def oneBreakpoint : DebugEnv where
  nbBreakpoints := 1
  breakpoints _ := 0x7c00
  singlestepEnabled := 0

def usedStack : KvmDebugGuest where
  enabled := 0
  breakpoints i := if i = 3 then ⟨1, 0⟩ else ⟨0, 0⟩
  singlestep := 0

theorem stack_enables_slot : ¬∀ (d : DebugVcpu) (calls : List DebuggerCall),
    ∀ p ∈ debuggerRun d calls, DebuggerExact p.1 p.2 := by
  intro h
  have hexact := h { (default : KvmVcpu) with guestDebug := ⟨0, fun _ => 0, 0⟩ } [⟨id, usedStack, oneBreakpoint⟩] _
    List.mem_cons_self
  have hon := (hexact.slots 3).1 ((debugGuest_dr7 _ _ 3).2 ⟨by decide, by decide⟩)
  exact absurd hon.2 (by decide)

end LearnKvm
