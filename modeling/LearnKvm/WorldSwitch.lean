import LearnKvm.Lib.StackCode
import LearnKvm.Interrupts

/-!
# The world switch (the assembler of `kvm_dev_ioctl_run`)

The registers of the host are saved on the stack, those of the guest are loaded from `struct kvm_vcpu`, the guest runs,
its registers are stored into the structure and those of the host are popped.  `%rcx` points to the structure; it is
loaded last, and the code finds the pointer again on the top of the stack, where it leaves the guest's `%rcx`.

`world_switch` says what both versions of the code do, however the VM entry ends: the guest has its registers and gets
them all back at the next entry, the flags and the stack of the host are restored, and so are its registers, but not
`%rcx` on x86_64: there is one word for it on the stack, and it ends with the value of the guest.
-/

namespace LearnKvm

open StackCode

/-- The registers that the code switches, and the fields of `struct kvm_vcpu` for them. -/
inductive Reg where
  | rax | rbx | rcx | rdx | rsi | rdi | rbp | r8 | r9 | r10 | r11 | r12 | r13 | r14 | r15 | cr2
  deriving DecidableEq

/-- What the assembler is made of: `vmwrite %rsp, HOST_RSP`, `cmp $0, launched`, the jump to VMLAUNCH or VMRESUME, `setbe
fail`, and plain instructions. -/
inductive SwitchInstr where
  | code (i : Instr Reg Reg)
  | vmwriteRsp
  | cmpLaunched
  | enter
  | setbe

/-- `fail` is an operand of the assembler, `entered` a record of the entry: VMRESUME or VMLAUNCH, and the registers. -/
structure Switch (w : Nat) where
  machine : StackMachine Reg Reg (BitVec w)
  launched : Bool
  /-- The depth of the stack that HOST_RSP stands for. -/
  hostRsp : Nat
  entered : Option (Bool × (Reg → BitVec w))
  fail : Bool

/-- How a VM entry ends: with an exit, or by its own failure, which sets the carry or the zero flag. -/
inductive Entry (w : Nat) where
  | exits (regs : Reg → BitVec w)
  | fails (flags : BitVec w) (h : (flags.hasBit 0 || flags.hasBit 6) = true)

variable {w : Nat}

def Entry.failed : Entry w → Bool
  | .exits _ => false
  | .fails _ _ => true

/-- The registers of the guest at the end. -/
def Entry.regs (e : Entry w) (before : Reg → BitVec w) : Reg → BitVec w :=
  match e with
  | .exits regs => regs
  | .fails _ _ => before

theorem Entry.regs_congr {e : Entry w} {g g' : Reg → BitVec w} {r : Reg} (h : g r = g' r) : e.regs g r = e.regs g' r := by
  cases e with
  | exits regs => rfl
  | fails flags hf => exact h

/-- The next instruction is the one at `kvm_vmx_return` in each case. -/
def Switch.enter (s : Switch w) (e : Entry w) : Switch w :=
  let s := { s with entered := some (!s.machine.flags.hasBit 6, s.machine.regs) }
  match e with
  | .exits regs => { s with
      machine := { s.machine with
        regs := regs
        flags := 2
        stack := s.machine.stack.drop (s.machine.stack.length - s.hostRsp) } }
  | .fails flags _ => { s with machine := { s.machine with flags := flags } }

def execSwitch (e : Entry w) (s : Switch w) : SwitchInstr → Option (Switch w)
  | .code i => (exec s.machine i).map fun m => { s with machine := m }
  | .vmwriteRsp => some { s with hostRsp := s.machine.stack.length }
  | .cmpLaunched => some { s with machine := { s.machine with flags := if s.launched then 0#w else 1#w <<< 6 } }
  | .enter => some (s.enter e)
  | .setbe => some { s with fail := s.machine.flags.hasBit 0 || s.machine.flags.hasBit 6 }

def runSwitch (e : Entry w) (code : List SwitchInstr) (s : Switch w) : Option (Switch w) :=
  code.foldlM (execSwitch e) s

/-! ### The code -/

/-- The registers in the order of the loads, before `%rcx`. -/
def Arch.gprs : Arch → List Reg
  | .i386 => [.rax, .rbx, .rdx, .rsi, .rdi, .rbp]
  | .x86_64 => [.rax, .rbx, .rdx, .rsi, .rdi, .rbp, .r8, .r9, .r10, .r11, .r12, .r13, .r14, .r15]

/-- Store host registers. -/
def Arch.storeHost : Arch → List (Instr Reg Reg)
  | .i386 => [.pushf, .push .rax, .push .rcx, .push .rdx, .push .rbx, .pushSp, .push .rbp, .push .rsi, .push .rdi,
      .push .rcx]
  | .x86_64 => [.pushf, .push .rax, .push .rbx, .push .rdx, .push .rsi, .push .rdi, .push .rbp, .push .r8, .push .r9,
      .push .r10, .push .r11, .push .r12, .push .r13, .push .r14, .push .r15, .push .rcx]

/-- Load guest registers; the last load kills the pointer. -/
def Arch.loadGuest (arch : Arch) : List (Instr Reg Reg) :=
  [.load .rcx .cr2 .rax, .move .rax .cr2] ++ arch.gprs.map (fun r => .load .rcx r r) ++ [.load .rcx .rcx .rcx]

/-- Save guest registers. -/
def Arch.saveGuest (arch : Arch) : List (Instr Reg Reg) :=
  [.xchgTop .rcx, .store .rax .rcx .rax, .store .rbx .rcx .rbx, .pushTop, .popField .rcx .rcx] ++
    (arch.gprs.drop 2).map (fun r => .store r .rcx r) ++ [.move .cr2 .rax, .store .rax .rcx .cr2, .loadTop .rcx]

/-- Load host registers. -/
def Arch.loadHost : Arch → List (Instr Reg Reg)
  | .i386 => [.pop .rcx, .pop .rdi, .pop .rsi, .pop .rbp, .drop, .pop .rbx, .pop .rdx, .pop .rcx, .pop .rax]
  | .x86_64 => [.pop .rcx, .pop .r15, .pop .r14, .pop .r13, .pop .r12, .pop .r11, .pop .r10, .pop .r9, .pop .r8,
      .pop .rbp, .pop .rdi, .pop .rsi, .pop .rdx, .pop .rbx, .pop .rax]

def Arch.switchCode (arch : Arch) : List SwitchInstr :=
  arch.storeHost.map .code ++ [.vmwriteRsp, .cmpLaunched] ++ arch.loadGuest.map .code ++ [.enter] ++
    arch.saveGuest.map .code ++ arch.loadHost.map .code ++ [.setbe, .code .popf]

/-! ### Its blocks -/

/-- The registers that the guest has of its own. -/
def Arch.guestRegs (arch : Arch) : List Reg := .cr2 :: .rcx :: arch.gprs

/-- What the code pushes after the flags, the top first. -/
def Arch.saved (arch : Arch) (m : StackMachine Reg Reg (BitVec w)) : List (BitVec w) :=
  match arch with
  | .i386 => [m.regs .rcx, m.regs .rdi, m.regs .rsi, m.regs .rbp, m.stackPointer (m.stack.length + 5), m.regs .rbx,
      m.regs .rdx, m.regs .rcx, m.regs .rax]
  | .x86_64 => m.regs .rcx :: (arch.gprs.map m.regs).reverse

variable {arch : Arch} {m : StackMachine Reg Reg (BitVec w)} {e : Entry w} {s s' : Switch w} {p : BitVec w}

theorem run_storeHost (m : StackMachine Reg Reg (BitVec w)) :
    run arch.storeHost m = some { m with stack := arch.saved m ++ m.flags :: m.stack } := by
  cases arch <;> rfl

theorem rcx_not_mem_gprs : Reg.rcx ∉ arch.gprs := by cases arch <;> decide

theorem cr2_not_mem_gprs : Reg.cr2 ∉ arch.gprs := by cases arch <;> decide

theorem gprs_eq : arch.gprs = .rax :: .rbx :: arch.gprs.drop 2 := by cases arch <;> rfl

theorem run_loadGuest (m : StackMachine Reg Reg (BitVec w)) :
    run arch.loadGuest m = some (m.setRegs arch.guestRegs (m.records (m.regs .rcx))) := by
  have hrax : Reg.rax ∈ arch.gprs := by rw [gprs_eq]; simp
  unfold Arch.loadGuest
  simp only [run_append, run_cons, run_nil, exec, Option.bind_some]
  rw [run_loads (fun r => r) rcx_not_mem_gprs]
  simp only [run_cons, run_nil, exec, Option.bind_some, StackMachine.setReg, StackMachine.setRegs, Arch.guestRegs]
  congr 2
  funext r
  by_cases hr : r ∈ arch.gprs
  · have h1 : r ≠ .rcx := fun h => rcx_not_mem_gprs (h ▸ hr)
    simp [hr, h1]
  · have h1 : r ≠ .rax := fun h => hr (h ▸ hrax)
    by_cases hc : r = .rcx
    · subst hc
      simp [hr]
    · by_cases h2 : r = .cr2
      · subst h2
        simp [hr]
      · simp [hr, hc, h1, h2]

variable (arch) in
/-- The top of the stack is the pointer to the structure; afterwards it is the guest's `%rcx`. -/
theorem run_saveGuest {st : List (BitVec w)} (hst : m.stack = p :: st) :
    run arch.saveGuest m = some { (m.setFields p arch.guestRegs m.regs).setReg .rax (m.regs .cr2) with
      stack := m.regs .rcx :: st } := by
  have hcopy : ∀ x : StackMachine Reg Reg (BitVec w), run ((arch.gprs.drop 2).map fun r => Instr.store r .rcx r) x =
      some (x.setFields (x.regs .rcx) (arch.gprs.drop 2) x.regs) := run_stores _
  obtain ⟨regs, flags, stack, stackPointer, records⟩ := m
  obtain rfl : stack = p :: st := hst
  unfold Arch.saveGuest
  simp only [run_append, run_cons, run_nil, exec, Option.bind_some, hcopy, StackMachine.setReg, StackMachine.setField,
    StackMachine.setFields, Function.update_self, Function.update_idem, ne_eq, reduceCtorEq, not_false_eq_true,
    Function.update_of_ne]
  congr 2
  · funext r
    by_cases h1 : r = .rcx
    · subst h1
      simp
    · simp [h1, Function.update_apply]
  · congr 1
    funext r
    have hmem : r ∈ arch.guestRegs ↔ r = .cr2 ∨ r = .rcx ∨ r = .rax ∨ r = .rbx ∨ r ∈ arch.gprs.drop 2 := by
      unfold Arch.guestRegs
      rw [gprs_eq]
      simp
    have hrcx : Reg.rcx ∉ arch.gprs.drop 2 := fun h => rcx_not_mem_gprs (List.mem_of_mem_drop h)
    simp only [hmem, Function.update_apply]
    grind

/-- What is left in `%rcx`, of the host and of the guest. -/
def Arch.lastRcx (arch : Arch) (host guest : BitVec w) : BitVec w :=
  match arch with
  | .i386 => host
  | .x86_64 => guest

variable (arch) in
theorem run_loadHost {h : StackMachine Reg Reg (BitVec w)} {g : BitVec w} {st : List (BitVec w)}
    (hst : m.stack = g :: ((arch.saved h).tail ++ st)) :
    ∃ m', run arch.loadHost m = some m' ∧ m'.stack = st ∧ m'.flags = m.flags ∧ m'.records = m.records ∧
      (∀ r ∈ arch.gprs, m'.regs r = h.regs r) ∧ m'.regs .rcx = arch.lastRcx (h.regs .rcx) g ∧
      m'.regs .cr2 = m.regs .cr2 := by
  obtain ⟨regs, flags, stack, stackPointer, records⟩ := m
  obtain rfl : stack = g :: ((arch.saved h).tail ++ st) := hst
  cases arch with
  | i386 =>
    refine ⟨_, rfl, rfl, rfl, rfl, fun r hr => ?_, rfl, rfl⟩
    cases r <;> first | rfl | exact absurd hr (by decide)
  | x86_64 =>
    refine ⟨_, rfl, rfl, rfl, rfl, fun r hr => ?_, rfl, rfl⟩
    cases r <;> first | rfl | exact absurd hr (by decide)

/-! ### The switch as a whole -/

@[simp] theorem runSwitch_nil : runSwitch e [] s = some s := rfl

@[simp] theorem runSwitch_cons {i : SwitchInstr} {code : List SwitchInstr} :
    runSwitch e (i :: code) s = (execSwitch e s i).bind (runSwitch e code) := rfl

@[simp] theorem runSwitch_append {code code' : List SwitchInstr} :
    runSwitch e (code ++ code') s = (runSwitch e code s).bind (runSwitch e code') := List.foldlM_append

theorem runSwitch_code {code : List (Instr Reg Reg)} {m' : StackMachine Reg Reg (BitVec w)}
    (h : run code s.machine = some m') :
    runSwitch e (code.map .code) s = some { s with machine := m' } := by
  induction code generalizing s with
  | nil => rw [← Option.some.inj h]; rfl
  | cons i code ih =>
    rw [run_cons] at h
    obtain ⟨x, hx, hrest⟩ := Option.bind_eq_some_iff.1 h
    simp only [List.map_cons, runSwitch_cons, execSwitch, hx, Option.map_some, Option.bind_some]
    exact ih (s := { s with machine := x }) hrest

/-- The fields of the structure that `%rcx` points to. -/
def Switch.vcpu (s : Switch w) : Reg → BitVec w := s.machine.records (s.machine.regs .rcx)

/-- What the code does to a state. -/
structure Switched (arch : Arch) (e : Entry w) (s s' : Switch w) : Prop where
  /-- The guest is resumed if it has been launched, with its registers. -/
  entered : ∃ regs, s'.entered = some (s.launched, regs) ∧ ∀ r ∈ arch.guestRegs, regs r = s.vcpu r
  /-- Its registers are stored; after a failed entry they are what they were. -/
  stored : ∀ r ∈ arch.guestRegs, s'.machine.records (s.machine.regs .rcx) r = e.regs s.vcpu r
  others : ∀ q r, q ≠ s.machine.regs .rcx ∨ r ∉ arch.guestRegs → s'.machine.records q r = s.machine.records q r
  stack : s'.machine.stack = s.machine.stack
  flags : s'.machine.flags = s.machine.flags
  gprs : ∀ r ∈ arch.gprs, s'.machine.regs r = s.machine.regs r
  rcx : s'.machine.regs .rcx = arch.lastRcx (s.machine.regs .rcx) (e.regs s.vcpu .rcx)
  cr2 : s'.machine.regs .cr2 = e.regs s.vcpu .cr2
  fail : s'.fail = e.failed

/-- Both ways to end leave the stack where HOST_RSP is. -/
theorem enter_eq (hsp : s.hostRsp = s.machine.stack.length) :
    ∃ flags : BitVec w, (flags.hasBit 0 || flags.hasBit 6) = e.failed ∧ s.enter e = { s with
      entered := some (!s.machine.flags.hasBit 6, s.machine.regs)
      machine := { s.machine with regs := e.regs s.machine.regs, flags := flags } } := by
  cases e with
  | exits regs =>
    refine ⟨2, ?_, ?_⟩
    · show ((2#w).hasBit 0 || (2#w).hasBit 6) = false
      unfold BitVec.hasBit
      rw [BitVec.getLsbD_ofNat, BitVec.getLsbD_ofNat]
      simp [show Nat.testBit 2 0 = false by decide, show Nat.testBit 2 6 = false by decide]
    · unfold Switch.enter
      simp [hsp, Entry.regs]
  | fails flags h => exact ⟨flags, h, rfl⟩

theorem saved_eq (m : StackMachine Reg Reg (BitVec w)) : arch.saved m = m.regs .rcx :: (arch.saved m).tail := by
  cases arch <;> rfl

/-- What the jump finds in the flags of the comparison. -/
theorem hasBit_cmpFlags (hw : 7 ≤ w) (launched : Bool) :
    (!(if launched then 0#w else 1#w <<< 6).hasBit 6) = launched := by
  cases launched with
  | true => simp
  | false => simp [Bits.hasBit_one_shiftLeft (show 6 < w by omega)]

/-- The state of the entry. -/
def Arch.entryState (arch : Arch) (s : Switch w) : Switch w :=
  { s with
    machine := { s.machine.setRegs arch.guestRegs s.vcpu with
      flags := if s.launched then 0#w else 1#w <<< 6
      stack := arch.saved s.machine ++ s.machine.flags :: s.machine.stack }
    hostRsp := (arch.saved s.machine ++ s.machine.flags :: s.machine.stack).length }

theorem runSwitch_before (s : Switch w) :
    runSwitch e (arch.storeHost.map .code ++ [.vmwriteRsp, .cmpLaunched] ++ arch.loadGuest.map .code) s =
      some (arch.entryState s) := by
  simp only [runSwitch_append, runSwitch_code (run_storeHost s.machine), runSwitch_cons, runSwitch_nil, execSwitch,
    Option.bind_some]
  exact runSwitch_code (run_loadGuest _)

/-- From `kvm_vmx_return` on, with what has been pushed by a host with the registers of `h`. -/
structure Returned (arch : Arch) (h : StackMachine Reg Reg (BitVec w)) (s s' : Switch w) : Prop where
  entered : s'.entered = s.entered
  fail : s'.fail = (s.machine.flags.hasBit 0 || s.machine.flags.hasBit 6)
  stack : s'.machine.stack = h.stack
  flags : s'.machine.flags = h.flags
  records : s'.machine.records = (s.machine.setFields (h.regs .rcx) arch.guestRegs s.machine.regs).records
  gprs : ∀ r ∈ arch.gprs, s'.machine.regs r = h.regs r
  rcx : s'.machine.regs .rcx = arch.lastRcx (h.regs .rcx) (s.machine.regs .rcx)
  cr2 : s'.machine.regs .cr2 = s.machine.regs .cr2

theorem runSwitch_after {h : StackMachine Reg Reg (BitVec w)} (hst : s.machine.stack = arch.saved h ++ h.flags :: h.stack) :
    ∃ s', runSwitch e (arch.saveGuest.map .code ++ arch.loadHost.map .code ++ [.setbe, .code .popf]) s = some s' ∧
      Returned arch h s s' := by
  rw [saved_eq, List.cons_append] at hst
  have hsave := run_saveGuest arch hst
  generalize hm : { (s.machine.setFields (h.regs .rcx) arch.guestRegs s.machine.regs).setReg .rax
    (s.machine.regs .cr2) with stack := s.machine.regs .rcx :: ((arch.saved h).tail ++ h.flags :: h.stack) } = m at hsave
  obtain ⟨m', hload, hstack, hflags, hrecords, hgprs, hrcx, hcr2⟩ := run_loadHost arch (h := h) (m := m)
    (by rw [← hm])
  refine ⟨{ s with
    machine := { m' with flags := h.flags, stack := h.stack }
    fail := m'.flags.hasBit 0 || m'.flags.hasBit 6 }, ?_, ?_⟩
  · simp only [runSwitch_append, runSwitch_code hsave, Option.bind_some]
    rw [runSwitch_code (s := { s with machine := m }) hload]
    simp only [runSwitch_cons, runSwitch_nil, execSwitch, exec, Option.bind_some, hstack, Option.map_some]
  · refine ⟨rfl, ?_, rfl, rfl, ?_, hgprs, hrcx, ?_⟩
    · rw [← show m.flags = s.machine.flags by rw [← hm]; rfl, ← hflags]
    · exact hrecords.trans (by rw [← hm]; rfl)
    · refine hcr2.trans ?_
      rw [← hm]
      simp [StackMachine.setReg, StackMachine.setFields]

theorem switched_of_width (hw : 7 ≤ w) (arch : Arch) (e : Entry w) (s : Switch w) :
    ∃ s', runSwitch e arch.switchCode s = some s' ∧ Switched arch e s s' := by
  obtain ⟨flags, hfail, henter⟩ := @enter_eq w e (arch.entryState s) rfl
  have hst : ((arch.entryState s).enter e).machine.stack = arch.saved s.machine ++ s.machine.flags :: s.machine.stack := by
    rw [henter]
    rfl
  obtain ⟨s', hrun, hret⟩ := runSwitch_after (e := e) hst
  have hcode : arch.switchCode = (arch.storeHost.map .code ++ [.vmwriteRsp, .cmpLaunched] ++ arch.loadGuest.map .code) ++
      (.enter :: (arch.saveGuest.map .code ++ arch.loadHost.map .code ++ [.setbe, .code .popf])) := by
    unfold Arch.switchCode
    simp only [List.append_assoc, List.cons_append, List.nil_append]
  refine ⟨s', ?_, ?_⟩
  · rw [hcode, runSwitch_append, runSwitch_before, Option.bind_some, runSwitch_cons]
    exact hrun
  · have hregs : ∀ r ∈ arch.guestRegs, (arch.entryState s).machine.regs r = s.vcpu r := fun r hr => if_pos hr
    have hend : ∀ r ∈ arch.guestRegs, ((arch.entryState s).enter e).machine.regs r = e.regs s.vcpu r := fun r hr => by
      rw [henter]
      exact Entry.regs_congr (hregs r hr)
    have hrecords : s'.machine.records = Function.update s.machine.records (s.machine.regs .rcx) fun r =>
        if r ∈ arch.guestRegs then ((arch.entryState s).enter e).machine.regs r else s.vcpu r := by
      rw [hret.records, henter]
      rfl
    refine ⟨⟨_, ?_, hregs⟩, fun r hr => ?_, fun q r hqr => ?_, hret.stack, hret.flags, hret.gprs, ?_, ?_, ?_⟩
    · rw [hret.entered, henter]
      exact congrArg (fun b => some (b, (arch.entryState s).machine.regs)) (hasBit_cmpFlags hw s.launched)
    · rw [hrecords, Function.update_self, if_pos hr, hend r hr]
    · rw [hrecords, Function.update_apply]
      split
      · rename_i hq
        dsimp only
        rw [if_neg (hqr.resolve_left fun hne => hne hq), hq]
        rfl
      · rfl
    · rw [hret.rcx, hend .rcx (by simp [Arch.guestRegs])]
    · rw [hret.cr2, hend .cr2 (by simp [Arch.guestRegs])]
    · rw [hret.fail, ← hfail, henter]

/-- **The world switch.** -/
theorem world_switch (arch : Arch) (e : Entry arch.bitsPerLong) (s : Switch arch.bitsPerLong) :
    ∃ s', runSwitch e arch.switchCode s = some s' ∧ Switched arch e s s' :=
  switched_of_width (by cases arch <;> decide) arch e s

end LearnKvm
