import Mathlib.Data.List.Basic
import Mathlib.Logic.Function.Basic
import Mathlib.Logic.Relation

/-!
# Preempt notifiers by hardware breakpoints (`x86/preempt.c`)

Kernels without preempt notifiers get them from the debug registers.  While a task with a notifier runs, the processor has
a breakpoint on `schedule`; there the breakpoint moves to the return address of the call and into the thread, from which
`__switch_to` loads it when the task runs again, perhaps on another processor.  So the callbacks of each task alternate,
whatever the tasks and processors do, and name the right processor (`preempt_notified`).

A processor keeps the breakpoint when it switches to a task without debug registers of its own.  Such a task clears it when
it meets it, and after `preempt_notifier_sys_exit` no processor has one.
-/

namespace LearnKvm

section Notifiers

/-- DR7 with breakpoint 0 on execution. -/
def dr7Notify : BitVec 64 := 0x701

/-- DR0 and DR7 of a processor. -/
structure DebugRegs where
  db0 : BitVec 64
  db7 : BitVec 64

/-- The debug registers of a thread, which `__switch_to` loads if TIF_DEBUG is set. -/
structure ThreadDebug where
  debugreg0 : BitVec 64
  debugreg7 : BitVec 64
  tifDebug : Bool

/-- A task outside of `schedule`, or in a call that returns to `ret`. -/
inductive Place where
  | running
  | inSchedule (ret : BitVec 64)

variable (Cpu Task : Type)

/-- Calls of the interface and of the callbacks. -/
inductive NotifierCall where
  | register (t : Task) (cpu : Cpu)
  | unregister (t : Task)
  | schedIn (t : Task) (cpu : Cpu)
  | schedOut (t : Task)

/-- Tasks with notifiers, and the calls up to now, the last one first.  From `exiting` on the module is being removed, and
`disabled` are the processors that have run `do_disable`. -/
structure PreemptSystem where
  regs : Cpu → DebugRegs
  current : Cpu → Task
  thread : Task → ThreadDebug
  place : Task → Place
  pnList : List Task
  log : List (NotifierCall Cpu Task)
  exiting : Bool
  disabled : Cpu → Bool

variable {Cpu Task} [DecidableEq Cpu] [DecidableEq Task]

/-! ### The code -/

namespace PreemptSystem

def setRegs (s : PreemptSystem Cpu Task) (c : Cpu) (r : DebugRegs) : PreemptSystem Cpu Task :=
  { s with regs := Function.update s.regs c r }

def setThread (s : PreemptSystem Cpu Task) (t : Task) (d : ThreadDebug) : PreemptSystem Cpu Task :=
  { s with thread := Function.update s.thread t d }

def setPlace (s : PreemptSystem Cpu Task) (t : Task) (p : Place) : PreemptSystem Cpu Task :=
  { s with place := Function.update s.place t p }

def note (s : PreemptSystem Cpu Task) (e : NotifierCall Cpu Task) : PreemptSystem Cpu Task := { s with log := e :: s.log }

/-- The current task has no debug registers of its own. -/
def clearDebug (s : PreemptSystem Cpu Task) (c : Cpu) : PreemptSystem Cpu Task :=
  s.setThread (s.current c) { s.thread (s.current c) with debugreg7 := 0, tifDebug := false }

end PreemptSystem

open PreemptSystem

/-- `schedule` is the address of the function. -/
def preemptEnableSchedOutNotifiers (schedule : BitVec 64) (s : PreemptSystem Cpu Task) (c : Cpu) : PreemptSystem Cpu Task :=
  (s.setRegs c ⟨schedule, dr7Notify⟩).clearDebug c

def preemptEnableSchedInNotifiers (addr : BitVec 64) (s : PreemptSystem Cpu Task) (c : Cpu) : PreemptSystem Cpu Task :=
  (s.setRegs c ⟨addr, dr7Notify⟩).setThread (s.current c) ⟨addr, dr7Notify, true⟩

/-- `__preempt_disable_notifiers` -/
def disableNotifiersHere (s : PreemptSystem Cpu Task) (c : Cpu) : PreemptSystem Cpu Task :=
  s.setRegs c { s.regs c with db7 := 0 }

def preemptDisableNotifiers (s : PreemptSystem Cpu Task) (c : Cpu) : PreemptSystem Cpu Task :=
  (disableNotifiersHere s c).clearDebug c

/-- `ip` is the address of the breakpoint, `ret` the word at the top of the stack. -/
def preemptNotifierTrigger (schedule ip ret : BitVec 64) (s : PreemptSystem Cpu Task) (c : Cpu) : PreemptSystem Cpu Task :=
  if s.current c ∈ s.pnList then
    if ip ≠ schedule then (preemptEnableSchedOutNotifiers schedule s c).note (.schedIn (s.current c) c)
    else (preemptEnableSchedInNotifiers ret s c).note (.schedOut (s.current c))
  else disableNotifiersHere s c

def preemptNotifierRegister (schedule : BitVec 64) (s : PreemptSystem Cpu Task) (c : Cpu) : PreemptSystem Cpu Task :=
  { (preemptEnableSchedOutNotifiers schedule s c).note (.register (s.current c) c) with
    pnList := s.current c :: s.pnList }

def preemptNotifierUnregister (s : PreemptSystem Cpu Task) (c : Cpu) : PreemptSystem Cpu Task :=
  { (preemptDisableNotifiers s c).note (.unregister (s.current c)) with pnList := s.pnList.erase (s.current c) }

def doDisable (s : PreemptSystem Cpu Task) (c : Cpu) : PreemptSystem Cpu Task :=
  if !(s.thread (s.current c)).tifDebug then disableNotifiersHere s c else s

/-! ### The processors and the scheduler -/

/-- The processor comes to an instruction.  `pn_int1_handler` passes on the exceptions of other breakpoints. -/
def atInstruction (schedule addr ret : BitVec 64) (s : PreemptSystem Cpu Task) (c : Cpu) : PreemptSystem Cpu Task :=
  if (s.regs c).db7 = dr7Notify ∧ (s.regs c).db0 = addr then preemptNotifierTrigger schedule addr ret s c else s

/-- `__switch_to` -/
def switchTo (s : PreemptSystem Cpu Task) (c : Cpu) (next : Task) : PreemptSystem Cpu Task :=
  let d := s.thread next
  { s with
    current := Function.update s.current c next
    regs := if d.tifDebug then Function.update s.regs c ⟨d.debugreg0, d.debugreg7⟩ else s.regs }

/-- What a processor does next.  `userDebug` is a debugger that sets breakpoints in a task without a notifier. -/
inductive PreemptStep (schedule : BitVec 64) (s : PreemptSystem Cpu Task) : PreemptSystem Cpu Task → Prop
  | execute (c : Cpu) (addr ret : BitVec 64) (hrun : s.place (s.current c) = .running) (haddr : addr ≠ schedule) :
      PreemptStep schedule s (atInstruction schedule addr ret s c)
  | callSchedule (c : Cpu) (ret : BitVec 64) (hrun : s.place (s.current c) = .running) (hret : ret ≠ schedule) :
      PreemptStep schedule s ((atInstruction schedule schedule ret s c).setPlace (s.current c) (.inSchedule ret))
  | switch (c : Cpu) (next : Task) (ret ret' : BitVec 64) (hprev : s.place (s.current c) = .inSchedule ret)
      (hnext : s.place next = .inSchedule ret') (hfree : ∀ c', s.current c' = next → c' = c) :
      PreemptStep schedule s (switchTo s c next)
  | return (c : Cpu) (ret top : BitVec 64) (hplace : s.place (s.current c) = .inSchedule ret) :
      PreemptStep schedule s ((atInstruction schedule ret top s c).setPlace (s.current c) .running)
  | register (c : Cpu) (hrun : s.place (s.current c) = .running) (hnew : s.current c ∉ s.pnList)
      (hexit : s.exiting = false) :
      PreemptStep schedule s (preemptNotifierRegister schedule s c)
  | unregister (c : Cpu) (hrun : s.place (s.current c) = .running) (hold : s.current c ∈ s.pnList) :
      PreemptStep schedule s (preemptNotifierUnregister s c)
  | userDebug (t : Task) (d : ThreadDebug) (hnew : t ∉ s.pnList) (haway : ∀ c, s.current c ≠ t)
      (hd : d.debugreg7 ≠ dr7Notify) : PreemptStep schedule s (s.setThread t d)
  | sysExit (hempty : s.pnList = []) : PreemptStep schedule s { s with exiting := true }
  | disable (c : Cpu) (hexit : s.exiting = true) :
      PreemptStep schedule s { doDisable s c with disabled := Function.update s.disabled c true }

/-- Before the first notifier: each processor has a task of its own, the other tasks are in `schedule`. -/
structure PreemptStart (schedule : BitVec 64) (s : PreemptSystem Cpu Task) : Prop where
  pnList : s.pnList = []
  log : s.log = []
  exiting : s.exiting = false
  disabled : ∀ c, s.disabled c = false
  current : Function.Injective s.current
  ret : ∀ t ret, s.place t = .inSchedule ret → ret ≠ schedule
  thread : ∀ t, (s.thread t).tifDebug = true → (s.thread t).debugreg7 ≠ dr7Notify ∧
    ∀ c, s.current c = t → s.regs c = ⟨(s.thread t).debugreg0, (s.thread t).debugreg7⟩

/-! ### The calls of a task -/

variable (Cpu) in
/-- A task without a notifier, on a processor, or off it. -/
inductive Phase where
  | off
  | on (c : Cpu)
  | out

def NotifierCall.task : NotifierCall Cpu Task → Task
  | register t _ => t
  | unregister t => t
  | schedIn t _ => t
  | schedOut t => t

/-- The calls of a task alternate and have led to this phase. -/
inductive History (t : Task) : List (NotifierCall Cpu Task) → Phase Cpu → Prop
  | start : History t [] .off
  | register {l : List (NotifierCall Cpu Task)} (h : History t l .off) (c : Cpu) : History t (.register t c :: l) (.on c)
  | schedOut {l : List (NotifierCall Cpu Task)} {c : Cpu} (h : History t l (.on c)) : History t (.schedOut t :: l) .out
  | schedIn {l : List (NotifierCall Cpu Task)} (h : History t l .out) (c : Cpu) : History t (.schedIn t c :: l) (.on c)
  | unregister {l : List (NotifierCall Cpu Task)} {c : Cpu} (h : History t l (.on c)) :
      History t (.unregister t :: l) .off
  | other {l : List (NotifierCall Cpu Task)} {p : Phase Cpu} {e : NotifierCall Cpu Task} (h : History t l p)
      (he : e.task ≠ t) : History t (e :: l) p

/-! ### The invariant -/

variable {schedule : BitVec 64} {s s' : PreemptSystem Cpu Task} {t : Task} {c : Cpu}

/-- What holds of a task: where its breakpoint is, and its calls. -/
structure TaskInv (schedule : BitVec 64) (s : PreemptSystem Cpu Task) (t : Task) : Prop where
  ret : ∀ ret, s.place t = .inSchedule ret → ret ≠ schedule
  off : t ∉ s.pnList → History t s.log .off ∧ ((s.thread t).tifDebug = true →
    (s.thread t).debugreg7 ≠ dr7Notify ∧ ∀ c, s.current c = t → s.regs c = ⟨(s.thread t).debugreg0, (s.thread t).debugreg7⟩)
  running : t ∈ s.pnList → s.place t = .running →
    ∃ c, s.current c = t ∧ s.regs c = ⟨schedule, dr7Notify⟩ ∧ History t s.log (.on c)
  waiting : t ∈ s.pnList → ∀ ret, s.place t = .inSchedule ret →
    History t s.log .out ∧ s.thread t = ⟨ret, dr7Notify, true⟩ ∧
      ∀ c, s.current c = t → s.regs c = ⟨ret, dr7Notify⟩

/-- A step is not about this task. -/
structure SameTask (s s' : PreemptSystem Cpu Task) (t : Task) : Prop where
  thread : s'.thread t = s.thread t
  place : s'.place t = s.place t
  mem : t ∈ s'.pnList ↔ t ∈ s.pnList
  log : ∀ p, History t s.log p → History t s'.log p
  current : ∀ c, s'.current c = t ↔ s.current c = t
  regs : ∀ c, s.current c = t → s'.regs c = s.regs c

omit [DecidableEq Cpu] [DecidableEq Task] in
theorem TaskInv.frame (h : TaskInv schedule s t) (hs : SameTask s s' t) : TaskInv schedule s' t where
  ret ret hp := h.ret ret (by rw [← hs.place]; exact hp)
  off hnot := by
    obtain ⟨hlog, huser⟩ := h.off (fun hm => hnot (hs.mem.2 hm))
    refine ⟨hs.log _ hlog, fun htif => ?_⟩
    rw [hs.thread] at htif ⊢
    refine ⟨(huser htif).1, fun c hc => ?_⟩
    have hc' := (hs.current c).1 hc
    rw [hs.regs c hc']
    exact (huser htif).2 c hc'
  running hmem hp := by
    obtain ⟨c, hc, hregs, hlog⟩ := h.running (hs.mem.1 hmem) (by rw [← hs.place]; exact hp)
    exact ⟨c, (hs.current c).2 hc, by rw [hs.regs c hc]; exact hregs, hs.log _ hlog⟩
  waiting hmem ret hp := by
    obtain ⟨hlog, hthread, hregs⟩ := h.waiting (hs.mem.1 hmem) ret (by rw [← hs.place]; exact hp)
    refine ⟨hs.log _ hlog, by rw [hs.thread]; exact hthread, fun c hc => ?_⟩
    have hc' := (hs.current c).1 hc
    rw [hs.regs c hc']
    exact hregs c hc'

structure PreemptInv (schedule : BitVec 64) (s : PreemptSystem Cpu Task) : Prop where
  current : Function.Injective s.current
  nodup : s.pnList.Nodup
  exiting : s.exiting = true → s.pnList = []
  disabled : ∀ c, s.disabled c = true → s.exiting = true ∧ (s.regs c).db7 ≠ dr7Notify
  task : ∀ t, TaskInv schedule s t

/-- A step of a processor and of its current task. -/
structure LocalTo (c : Cpu) (s s' : PreemptSystem Cpu Task) : Prop where
  current : s'.current = s.current
  regs : ∀ c', c' ≠ c → s'.regs c' = s.regs c'
  thread : ∀ t, t ≠ s.current c → s'.thread t = s.thread t
  place : ∀ t, t ≠ s.current c → s'.place t = s.place t
  mem : ∀ t, t ≠ s.current c → (t ∈ s'.pnList ↔ t ∈ s.pnList)
  log : ∃ l, s'.log = l ++ s.log ∧ ∀ e ∈ l, e.task = s.current c

omit [DecidableEq Cpu] [DecidableEq Task] in
theorem LocalTo.refl (c : Cpu) (s : PreemptSystem Cpu Task) : LocalTo c s s :=
  ⟨rfl, fun _ _ => rfl, fun _ _ => rfl, fun _ _ => rfl, fun _ _ => Iff.rfl, [], rfl, nofun⟩

omit [DecidableEq Task] in
theorem LocalTo.setRegs (h : LocalTo c s s') (r : DebugRegs) : LocalTo c s (s'.setRegs c r) :=
  { h with regs := fun c' hc => (Function.update_of_ne hc _ _).trans (h.regs c' hc) }

omit [DecidableEq Cpu] in
theorem LocalTo.setThread (h : LocalTo c s s') (d : ThreadDebug) : LocalTo c s (s'.setThread (s.current c) d) :=
  { h with thread := fun t ht => (Function.update_of_ne ht _ _).trans (h.thread t ht) }

omit [DecidableEq Cpu] in
theorem LocalTo.setPlace (h : LocalTo c s s') (p : Place) : LocalTo c s (s'.setPlace (s.current c) p) :=
  { h with place := fun t ht => (Function.update_of_ne ht _ _).trans (h.place t ht) }

omit [DecidableEq Cpu] in
theorem LocalTo.clearDebug (h : LocalTo c s s') : LocalTo c s (s'.clearDebug c) := by
  unfold PreemptSystem.clearDebug
  rw [h.current]
  exact h.setThread _

omit [DecidableEq Cpu] [DecidableEq Task] in
theorem LocalTo.note (h : LocalTo c s s') {e : NotifierCall Cpu Task} (he : e.task = s.current c) :
    LocalTo c s (s'.note e) := by
  obtain ⟨l, hl, hall⟩ := h.log
  refine { h with log := ⟨e :: l, congrArg (e :: ·) hl, ?_⟩ }
  intro e' he'
  rcases List.mem_cons.1 he' with rfl | he'
  · exact he
  · exact hall e' he'

omit [DecidableEq Cpu] [DecidableEq Task] in
theorem History.append {l l' : List (NotifierCall Cpu Task)} {p : Phase Cpu} (h : History t l p)
    (hl : ∀ e ∈ l', e.task ≠ t) : History t (l' ++ l) p := by
  induction l' with
  | nil => exact h
  | cons e l' ih =>
    exact .other (ih fun e' he' => hl e' (List.mem_cons_of_mem _ he')) (hl e (List.mem_cons_self ..))

omit [DecidableEq Cpu] [DecidableEq Task] in
theorem LocalTo.same (h : LocalTo c s s') (ht : t ≠ s.current c) : SameTask s s' t := by
  obtain ⟨l, hl, hall⟩ := h.log
  refine ⟨h.thread t ht, h.place t ht, h.mem t ht, fun p hp => ?_, fun c' => ?_, fun c' hc => h.regs c' ?_⟩
  · rw [hl]
    exact hp.append fun e he heq => ht (heq.symm.trans (hall e he))
  · rw [h.current]
  · rintro rfl
    exact ht hc.symm

omit [DecidableEq Cpu] in
/-- After a step of a processor, its current task is left to be looked at. -/
theorem PreemptInv.of_local (h : PreemptInv schedule s) (hl : LocalTo c s s') (hnodup : s'.pnList.Nodup)
    (hexit : s'.exiting = true → s'.pnList = [])
    (hdis : ∀ c', s'.disabled c' = true → s'.exiting = true ∧ (s'.regs c').db7 ≠ dr7Notify)
    (ht : TaskInv schedule s' (s.current c)) : PreemptInv schedule s' := by
  refine ⟨by rw [hl.current]; exact h.current, hnodup, hexit, hdis, fun t => ?_⟩
  by_cases heq : t = s.current c
  · rw [heq]
    exact ht
  · exact (h.task t).frame (hl.same heq)

omit [DecidableEq Cpu] [DecidableEq Task] in
theorem PreemptInv.not_exiting (h : PreemptInv schedule s) (hmem : t ∈ s.pnList) : s.exiting = false := by
  rw [Bool.eq_false_iff]
  intro hexit
  rw [h.exiting hexit] at hmem
  cases hmem

omit [DecidableEq Cpu] [DecidableEq Task] in
/-- As long as the module is used, no processor is disabled. -/
theorem PreemptInv.not_disabled (h : PreemptInv schedule s) (hexit : s.exiting = false) (c : Cpu) :
    s.disabled c ≠ true := by
  intro hdis
  have := (h.disabled c hdis).1
  rw [hexit] at this
  cases this

/-! ### The breakpoint -/

theorem trap_schedule (h : TaskInv schedule s (s.current c)) (hcur : Function.Injective s.current)
    (hmem : s.current c ∈ s.pnList) (hrun : s.place (s.current c) = .running) (ret : BitVec 64) :
    atInstruction schedule schedule ret s c =
      (preemptEnableSchedInNotifiers ret s c).note (.schedOut (s.current c)) := by
  obtain ⟨c', hc, hregs, -⟩ := h.running hmem hrun
  obtain rfl := hcur hc
  unfold atInstruction preemptNotifierTrigger
  rw [hregs, if_pos ⟨rfl, rfl⟩, if_pos hmem, if_neg (fun h => h rfl)]

theorem trap_return (h : TaskInv schedule s (s.current c)) (hmem : s.current c ∈ s.pnList) {ret : BitVec 64}
    (hplace : s.place (s.current c) = .inSchedule ret) (top : BitVec 64) : atInstruction schedule ret top s c =
      (preemptEnableSchedOutNotifiers schedule s c).note (.schedIn (s.current c) c) := by
  obtain ⟨-, -, hregs⟩ := h.waiting hmem ret hplace
  unfold atInstruction preemptNotifierTrigger
  rw [hregs c rfl, if_pos ⟨rfl, rfl⟩, if_pos hmem, if_pos (h.ret ret hplace)]

theorem no_trap (h : TaskInv schedule s (s.current c)) (hcur : Function.Injective s.current)
    (hmem : s.current c ∈ s.pnList) (hrun : s.place (s.current c) = .running) {addr : BitVec 64}
    (haddr : addr ≠ schedule) (ret : BitVec 64) : atInstruction schedule addr ret s c = s := by
  obtain ⟨c', hc, hregs, -⟩ := h.running hmem hrun
  obtain rfl := hcur hc
  unfold atInstruction
  rw [hregs, if_neg (fun h => haddr h.2.symm)]

/-- A task without a notifier clears a breakpoint that is not its own. -/
theorem trap_other (h : TaskInv schedule s (s.current c)) (hmem : s.current c ∉ s.pnList) (addr ret : BitVec 64) :
    atInstruction schedule addr ret s c = s ∨
      atInstruction schedule addr ret s c = disableNotifiersHere s c ∧ (s.thread (s.current c)).tifDebug = false := by
  unfold atInstruction preemptNotifierTrigger
  split
  · rename_i htrap
    refine Or.inr ⟨rfl, Bool.eq_false_iff.2 fun htif => ?_⟩
    obtain ⟨hdr7, hregs⟩ := (h.off hmem).2 htif
    rw [hregs c rfl] at htrap
    exact hdr7 htrap.1
  · exact Or.inl rfl

/-! ### The steps -/

theorem dr7Notify_ne_zero : (0 : BitVec 64) ≠ dr7Notify := by decide

theorem PreemptInv.disableHere (h : PreemptInv schedule s) (hmem : s.current c ∉ s.pnList)
    (htif : (s.thread (s.current c)).tifDebug = false) : PreemptInv schedule (disableNotifiersHere s c) := by
  have hl : LocalTo c s (disableNotifiersHere s c) := (LocalTo.refl c s).setRegs _
  refine h.of_local hl h.nodup h.exiting (fun c' hc => ⟨(h.disabled c' hc).1, ?_⟩) ?_
  · by_cases heq : c' = c
    · rw [heq]
      show (Function.update s.regs c _ c).db7 ≠ dr7Notify
      rw [Function.update_self]
      exact dr7Notify_ne_zero
    · rw [hl.regs c' heq]
      exact (h.disabled c' hc).2
  · refine ⟨(h.task _).ret, fun _ => ⟨((h.task _).off hmem).1, fun htif' => ?_⟩, fun hm => absurd hm hmem,
      fun hm => absurd hm hmem⟩
    exact absurd (htif'.symm.trans htif) nofun

omit [DecidableEq Cpu] in
/-- The place of a task without a notifier. -/
theorem PreemptInv.setPlace (h : PreemptInv schedule s) (hmem : s.current c ∉ s.pnList) {p : Place}
    (hp : ∀ ret, p = .inSchedule ret → ret ≠ schedule) : PreemptInv schedule (s.setPlace (s.current c) p) := by
  refine h.of_local ((LocalTo.refl c s).setPlace p) h.nodup h.exiting h.disabled ?_
  refine ⟨fun ret hret => hp ret ?_, (h.task _).off, fun hm => absurd hm hmem, fun hm => absurd hm hmem⟩
  exact (Function.update_self ..).symm.trans hret

/-- A task without a notifier may meet a breakpoint. -/
theorem PreemptInv.atInstruction (h : PreemptInv schedule s) (hmem : s.current c ∉ s.pnList) (addr ret : BitVec 64) :
    PreemptInv schedule (atInstruction schedule addr ret s c) ∧
      (LearnKvm.atInstruction schedule addr ret s c).current = s.current ∧
      (LearnKvm.atInstruction schedule addr ret s c).pnList = s.pnList := by
  rcases trap_other (h.task _) hmem addr ret with heq | ⟨heq, htif⟩
  · rw [heq]
    exact ⟨h, rfl, rfl⟩
  · rw [heq]
    exact ⟨h.disableHere hmem htif, rfl, rfl⟩

theorem PreemptInv.atInstruction_setPlace (h : PreemptInv schedule s) (hmem : s.current c ∉ s.pnList)
    (addr ret : BitVec 64) {p : Place} (hp : ∀ ret, p = .inSchedule ret → ret ≠ schedule) :
    PreemptInv schedule ((LearnKvm.atInstruction schedule addr ret s c).setPlace (s.current c) p) := by
  obtain ⟨hinv, hcur, hlist⟩ := h.atInstruction hmem addr ret
  have := hinv.setPlace (c := c) (p := p) (by rw [hcur, hlist]; exact hmem) hp
  rwa [hcur] at this

theorem PreemptInv.callSchedule (h : PreemptInv schedule s) {ret : BitVec 64} (hrun : s.place (s.current c) = .running)
    (hret : ret ≠ schedule) :
    PreemptInv schedule ((LearnKvm.atInstruction schedule schedule ret s c).setPlace (s.current c) (.inSchedule ret)) := by
  have hp : ∀ r, Place.inSchedule ret = .inSchedule r → r ≠ schedule := by
    rintro r ⟨⟩
    exact hret
  by_cases hmem : s.current c ∈ s.pnList
  · rw [trap_schedule (h.task _) h.current hmem hrun]
    have hl : LocalTo c s (((preemptEnableSchedInNotifiers ret s c).note (.schedOut (s.current c))).setPlace (s.current c)
        (.inSchedule ret)) := ((((LocalTo.refl c s).setRegs _).setThread _).note rfl).setPlace _
    refine h.of_local hl h.nodup h.exiting (fun c' hc => absurd hc (h.not_disabled (h.not_exiting hmem) c')) ?_
    obtain ⟨c', hc', -, hlog⟩ := (h.task _).running hmem hrun
    have hplace : (Function.update s.place (s.current c) (.inSchedule ret)) (s.current c) = .inSchedule ret :=
      Function.update_self ..
    refine ⟨fun r hr => hp r (hplace.symm.trans hr), fun hnot => absurd hmem hnot,
      fun _ hr => absurd (hplace.symm.trans hr) nofun, fun _ r hr => ?_⟩
    cases hplace.symm.trans hr
    refine ⟨hlog.schedOut, Function.update_self .., fun d hd => ?_⟩
    obtain rfl : d = c := h.current hd
    exact Function.update_self ..
  · exact h.atInstruction_setPlace hmem _ _ hp

theorem PreemptInv.return (h : PreemptInv schedule s) {ret : BitVec 64} (hplace : s.place (s.current c) = .inSchedule ret)
    (top : BitVec 64) :
    PreemptInv schedule ((LearnKvm.atInstruction schedule ret top s c).setPlace (s.current c) .running) := by
  by_cases hmem : s.current c ∈ s.pnList
  · rw [trap_return (h.task _) hmem hplace]
    have hl : LocalTo c s (((preemptEnableSchedOutNotifiers schedule s c).note (.schedIn (s.current c) c)).setPlace
        (s.current c) .running) := ((((LocalTo.refl c s).setRegs _).clearDebug).note rfl).setPlace _
    refine h.of_local hl h.nodup h.exiting (fun c' hc => absurd hc (h.not_disabled (h.not_exiting hmem) c')) ?_
    obtain ⟨hlog, -⟩ := (h.task _).waiting hmem ret hplace
    have hplace' : (Function.update s.place (s.current c) .running) (s.current c) = .running := Function.update_self ..
    refine ⟨fun r hr => absurd (hplace'.symm.trans hr) nofun, fun hnot => absurd hmem hnot,
      fun _ _ => ⟨c, rfl, Function.update_self .., hlog.schedIn c⟩,
      fun _ r hr => absurd (hplace'.symm.trans hr) nofun⟩
  · exact h.atInstruction_setPlace hmem _ _ nofun

theorem PreemptInv.register (h : PreemptInv schedule s) (hrun : s.place (s.current c) = .running)
    (hnew : s.current c ∉ s.pnList) (hexit : s.exiting = false) :
    PreemptInv schedule (preemptNotifierRegister schedule s c) := by
  have hnote : LocalTo c s ((preemptEnableSchedOutNotifiers schedule s c).note (.register (s.current c) c)) :=
    (((LocalTo.refl c s).setRegs _).clearDebug).note rfl
  have hl : LocalTo c s (preemptNotifierRegister schedule s c) :=
    { hnote with mem := fun t ht => List.mem_cons.trans (or_iff_right ht) }
  refine h.of_local hl (List.nodup_cons.2 ⟨hnew, h.nodup⟩) (fun he => absurd (hexit.symm.trans he) nofun)
    (fun c' hc => absurd hc (h.not_disabled hexit c')) ?_
  refine ⟨(h.task _).ret, fun hnot => absurd (List.mem_cons_self ..) hnot,
    fun _ _ => ⟨c, rfl, Function.update_self .., ((h.task _).off hnew).1.register c⟩,
    fun _ r hr => absurd (hrun.symm.trans hr) nofun⟩

theorem PreemptInv.unregister (h : PreemptInv schedule s) (hrun : s.place (s.current c) = .running)
    (hold : s.current c ∈ s.pnList) : PreemptInv schedule (preemptNotifierUnregister s c) := by
  have hnote : LocalTo c s ((preemptDisableNotifiers s c).note (.unregister (s.current c))) :=
    (((LocalTo.refl c s).setRegs _).clearDebug).note rfl
  have hl : LocalTo c s (preemptNotifierUnregister s c) :=
    { hnote with mem := fun t ht => List.mem_erase_of_ne ht }
  have hexit := h.not_exiting hold
  have hnot : s.current c ∉ s.pnList.erase (s.current c) := h.nodup.not_mem_erase
  obtain ⟨c', -, -, hlog⟩ := (h.task _).running hold hrun
  refine h.of_local hl (h.nodup.erase _) (fun he => absurd (hexit.symm.trans he) nofun)
    (fun c' hc => absurd hc (h.not_disabled hexit c')) ?_
  refine ⟨(h.task _).ret, fun _ => ⟨hlog.unregister, fun htif => ?_⟩, fun hm => absurd hm hnot,
    fun hm => absurd hm hnot⟩
  have hclear : ((preemptNotifierUnregister s c).thread (s.current c)).tifDebug = false := by
    show ((Function.update s.thread (s.current c) _) (s.current c)).tifDebug = false
    rw [Function.update_self]
  exact absurd (hclear.symm.trans htif) nofun

omit [DecidableEq Task] in
/-- The next task may have been on another processor. -/
theorem PreemptInv.switch (h : PreemptInv schedule s) {next : Task} {ret : BitVec 64}
    (hprev : s.place (s.current c) = .inSchedule ret) (hfree : ∀ c', s.current c' = next → c' = c) :
    PreemptInv schedule (switchTo s c next) := by
  have hcur : ∀ c', (switchTo s c next).current c' = if c' = c then next else s.current c' := fun c' =>
    Function.update_apply ..
  have hregs : ∀ c', c' ≠ c → (switchTo s c next).regs c' = s.regs c' := fun c' hc => by
    show (if _ then Function.update s.regs c _ else s.regs) c' = s.regs c'
    split
    · exact Function.update_of_ne hc _ _
    · rfl
  have hload : (s.thread next).tifDebug = true →
      (switchTo s c next).regs c = ⟨(s.thread next).debugreg0, (s.thread next).debugreg7⟩ := fun htif => by
    show (if (s.thread next).tifDebug then Function.update s.regs c _ else s.regs) c = _
    rw [if_pos htif, Function.update_self]
  have hkeep : (s.thread next).tifDebug = false → (switchTo s c next).regs c = s.regs c := fun htif => by
    show (if (s.thread next).tifDebug then Function.update s.regs c _ else s.regs) c = _
    rw [htif]
    rfl
  refine ⟨fun c1 c2 heq => ?_, h.nodup, h.exiting, fun c' hdis => ⟨(h.disabled c' hdis).1, ?_⟩, fun t => ?_⟩
  · rw [hcur, hcur] at heq
    split at heq
    · rename_i h1
      split at heq
      · rename_i h2
        rw [h1, h2]
      · rename_i h2
        exact absurd (hfree c2 heq.symm) h2
    · rename_i h1
      split at heq
      · exact absurd (hfree c1 heq) h1
      · exact h.current heq
  · have hnot : next ∉ s.pnList := by
      rw [h.exiting (h.disabled c' hdis).1]
      exact List.not_mem_nil
    by_cases hc : c' = c
    · subst hc
      cases htif : (s.thread next).tifDebug with
      | true =>
        rw [hload htif]
        exact (((h.task next).off hnot).2 htif).1
      | false =>
        rw [hkeep htif]
        exact (h.disabled c' hdis).2
    · rw [hregs c' hc]
      exact (h.disabled c' hdis).2
  · refine ⟨(h.task t).ret, fun hnot => ?_, fun hmem hp => ?_, fun hmem r hp => ?_⟩
    · obtain ⟨hlog, huser⟩ := (h.task t).off hnot
      refine ⟨hlog, fun htif => ⟨(huser htif).1, fun c' hc' => ?_⟩⟩
      rw [hcur] at hc'
      split at hc'
      · rename_i heq
        subst heq hc'
        exact hload htif
      · rename_i hne
        rw [hregs c' hne]
        exact (huser htif).2 c' hc'
    · obtain ⟨c', hc', hreg, hlog⟩ := (h.task t).running hmem hp
      have hne : c' ≠ c := by
        rintro rfl
        rw [hc'] at hprev
        exact absurd (hprev.symm.trans hp) nofun
      exact ⟨c', by rw [hcur, if_neg hne]; exact hc', by rw [hregs c' hne]; exact hreg, hlog⟩
    · obtain ⟨hlog, hthread, hreg⟩ := (h.task t).waiting hmem r hp
      refine ⟨hlog, hthread, fun c' hc' => ?_⟩
      rw [hcur] at hc'
      split at hc'
      · rename_i heq
        subst heq hc'
        rw [hload (by rw [hthread]), hthread]
      · rename_i hne
        rw [hregs c' hne]
        exact hreg c' hc'

omit [DecidableEq Cpu] in
/-- What `__switch_to` would load is not there yet. -/
theorem PreemptInv.userDebug (h : PreemptInv schedule s) {d : ThreadDebug} (hnew : t ∉ s.pnList)
    (haway : ∀ c, s.current c ≠ t) (hd : d.debugreg7 ≠ dr7Notify) : PreemptInv schedule (s.setThread t d) := by
  refine ⟨h.current, h.nodup, h.exiting, h.disabled, fun t' => ?_⟩
  by_cases heq : t' = t
  · subst heq
    refine ⟨(h.task _).ret, fun _ => ⟨((h.task _).off hnew).1, fun _ => ⟨?_, fun c hc => absurd hc (haway c)⟩⟩,
      fun hm => absurd hm hnew, fun hm => absurd hm hnew⟩
    show (Function.update s.thread t' d t').debugreg7 ≠ dr7Notify
    rw [Function.update_self]
    exact hd
  · exact (h.task t').frame
      ⟨Function.update_of_ne heq _ _, rfl, Iff.rfl, fun _ hp => hp, fun _ => Iff.rfl, fun _ _ => rfl⟩

omit [DecidableEq Cpu] [DecidableEq Task] in
theorem PreemptInv.sysExit (h : PreemptInv schedule s) (hempty : s.pnList = []) :
    PreemptInv schedule { s with exiting := true } := by
  refine ⟨h.current, h.nodup, fun _ => hempty, fun c hc => ⟨rfl, (h.disabled c hc).2⟩, fun t => ?_⟩
  exact (h.task t).frame ⟨rfl, rfl, Iff.rfl, fun _ hp => hp, fun _ => Iff.rfl, fun _ _ => rfl⟩

theorem PreemptInv.disable (h : PreemptInv schedule s) (hexit : s.exiting = true) (c : Cpu) :
    PreemptInv schedule { doDisable s c with disabled := Function.update s.disabled c true } := by
  have hnot : s.current c ∉ s.pnList := by
    rw [h.exiting hexit]
    exact List.not_mem_nil
  have hdone : ∀ s₁ : PreemptSystem Cpu Task, PreemptInv schedule s₁ → s₁.exiting = true →
      (s₁.regs c).db7 ≠ dr7Notify →
      PreemptInv schedule { s₁ with disabled := Function.update s₁.disabled c true } := by
    intro s₁ h₁ hexit₁ hdr7
    refine ⟨h₁.current, h₁.nodup, h₁.exiting, fun c' hc' => ⟨hexit₁, ?_⟩, fun t => ?_⟩
    · by_cases hc : c' = c
      · rw [hc]
        exact hdr7
      · exact (h₁.disabled c' ((Function.update_of_ne hc _ _).symm.trans hc')).2
    · exact (h₁.task t).frame ⟨rfl, rfl, Iff.rfl, fun _ hp => hp, fun _ => Iff.rfl, fun _ _ => rfl⟩
  unfold doDisable
  cases htif : (s.thread (s.current c)).tifDebug with
  | false =>
    refine hdone _ (h.disableHere hnot htif) hexit ?_
    show (Function.update s.regs c _ c).db7 ≠ dr7Notify
    rw [Function.update_self]
    exact dr7Notify_ne_zero
  | true =>
    obtain ⟨hdr7, hregs⟩ := ((h.task _).off hnot).2 htif
    refine hdone s h hexit ?_
    rw [hregs c rfl]
    exact hdr7

theorem PreemptInv.step (h : PreemptInv schedule s) (hs : PreemptStep schedule s s') : PreemptInv schedule s' := by
  cases hs with
  | execute c addr ret hrun haddr =>
    by_cases hmem : s.current c ∈ s.pnList
    · rw [no_trap (h.task _) h.current hmem hrun haddr]
      exact h
    · exact (h.atInstruction hmem addr ret).1
  | callSchedule c ret hrun hret => exact h.callSchedule hrun hret
  | switch c next ret ret' hprev _ hfree => exact h.switch hprev hfree
  | «return» c ret top hplace => exact h.return hplace top
  | register c hrun hnew hexit => exact h.register hrun hnew hexit
  | unregister c hrun hold => exact h.unregister hrun hold
  | userDebug t d hnew haway hd => exact h.userDebug hnew haway hd
  | sysExit hempty => exact h.sysExit hempty
  | disable c hexit => exact h.disable hexit c

omit [DecidableEq Cpu] [DecidableEq Task] in
theorem PreemptStart.inv (h : PreemptStart schedule s) : PreemptInv schedule s := by
  have hnot : ∀ t, t ∉ s.pnList := fun t => by
    rw [h.pnList]
    exact List.not_mem_nil
  refine ⟨h.current, by rw [h.pnList]; exact List.nodup_nil, fun _ => h.pnList,
    fun c hc => absurd (hc.symm.trans (h.disabled c)) nofun, fun t => ?_⟩
  refine ⟨h.ret t, fun _ => ⟨?_, h.thread t⟩, fun hm => absurd hm (hnot t), fun hm => absurd hm (hnot t)⟩
  rw [h.log]
  exact .start

/-- **Preempt notifiers.**  The callbacks of a task with a notifier alternate: while it is in `schedule` it has been told
that it goes, and elsewhere that it has come to the processor where it is.  Other tasks keep their own breakpoints, and
none of the module is left on a processor that has run `do_disable`. -/
theorem preempt_notified {s₀ : PreemptSystem Cpu Task} (hstart : PreemptStart schedule s₀)
    (hrun : Relation.ReflTransGen (PreemptStep schedule) s₀ s) (t : Task) :
    (t ∈ s.pnList → (∀ ret, s.place t = .inSchedule ret → History t s.log .out) ∧
      (s.place t = .running → ∃ c, s.current c = t ∧ History t s.log (.on c))) ∧
    (t ∉ s.pnList → History t s.log .off ∧ ((s.thread t).tifDebug = true →
      ∀ c, s.current c = t → s.regs c = ⟨(s.thread t).debugreg0, (s.thread t).debugreg7⟩)) ∧
    ∀ c, s.disabled c = true → (s.regs c).db7 ≠ dr7Notify := by
  have hinv : PreemptInv schedule s := by
    induction hrun with
    | refl => exact hstart.inv
    | tail _ hs ih => exact ih.step hs
  refine ⟨fun hmem => ⟨fun ret hp => ((hinv.task t).waiting hmem ret hp).1, fun hp => ?_⟩, fun hmem => ?_,
    fun c hc => (hinv.disabled c hc).2⟩
  · obtain ⟨c, hc, -, hlog⟩ := (hinv.task t).running hmem hp
    exact ⟨c, hc, hlog⟩
  · obtain ⟨hlog, huser⟩ := (hinv.task t).off hmem
    exact ⟨hlog, fun htif => (huser htif).2⟩

/-- A processor with one task. -/
def oneTask : PreemptSystem Unit Unit where
  regs _ := ⟨0, 0⟩
  current _ := ()
  thread _ := ⟨0, 0, false⟩
  place _ := .running
  pnList := []
  log := []
  exiting := false
  disabled _ := false

theorem oneTask_start (schedule : BitVec 64) : PreemptStart schedule oneTask :=
  ⟨rfl, rfl, rfl, fun _ => rfl, fun _ _ _ => rfl, nofun, nofun⟩

theorem preempt_notified_oneTask : History () ((atInstruction 1 1 2 (preemptNotifierRegister 1 oneTask ()) ()).setPlace ()
    (.inSchedule 2)).log .out := by
  have hreg : PreemptStep 1 oneTask (preemptNotifierRegister 1 oneTask ()) := .register () rfl List.not_mem_nil rfl
  have hcall : PreemptStep 1 (preemptNotifierRegister 1 oneTask ()) _ := .callSchedule () 2 rfl (by decide)
  exact ((preempt_notified (oneTask_start 1) (.tail (.single hreg) hcall) ()).1 (List.mem_cons_self ..)).1 2 rfl

end Notifiers

end LearnKvm
