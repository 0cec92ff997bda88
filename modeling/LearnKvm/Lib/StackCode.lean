import Mathlib.Data.List.Basic
import Mathlib.Logic.Function.Basic

/-!
# Straight-line code with a stack

A processor has registers, flags, a stack, and records in memory whose fields are read and written through a register
that points to the record.  Code that saves the registers on the stack and then takes new values from a record is made
of blocks: pushes, pops, loads and stores, each for a list of registers.  There is one lemma for a block of each kind.
-/

namespace StackCode

variable {R F W : Type} [DecidableEq R] [DecidableEq F] [DecidableEq W]

structure StackMachine (R F W : Type) where
  regs : R → W
  flags : W
  /-- The words on the stack, the top first. -/
  stack : List W
  /-- The stack pointer for each depth of the stack. -/
  stackPointer : Nat → W
  /-- The records in memory, by their addresses. -/
  records : W → F → W

inductive Instr (R F : Type) where
  | push (r : R)
  | pop (r : R)
  | pushf
  | popf
  | pushSp
  | drop
  /-- `push 0(sp)` -/
  | pushTop
  /-- `pop f(base)` -/
  | popField (base : R) (f : F)
  | move (src dst : R)
  /-- `mov f(base), dst` -/
  | load (base : R) (f : F) (dst : R)
  /-- `mov src, f(base)` -/
  | store (src base : R) (f : F)
  /-- `mov 0(sp), dst` -/
  | loadTop (dst : R)
  /-- `xchg r, 0(sp)` -/
  | xchgTop (r : R)

namespace StackMachine

def setReg (m : StackMachine R F W) (r : R) (w : W) : StackMachine R F W := { m with regs := Function.update m.regs r w }

def setField (m : StackMachine R F W) (p : W) (f : F) (w : W) : StackMachine R F W :=
  { m with records := Function.update m.records p (Function.update (m.records p) f w) }

/-- Registers of the list get the values of `g`. -/
def setRegs (m : StackMachine R F W) (rs : List R) (g : R → W) : StackMachine R F W :=
  { m with regs := fun r => if r ∈ rs then g r else m.regs r }

/-- Fields of the list get the values of `g`. -/
def setFields (m : StackMachine R F W) (p : W) (fs : List F) (g : F → W) : StackMachine R F W :=
  { m with records := Function.update m.records p fun f => if f ∈ fs then g f else m.records p f }

end StackMachine

open StackMachine

/-- A pop of the empty stack is not defined. -/
def exec (m : StackMachine R F W) : Instr R F → Option (StackMachine R F W)
  | .push r => some { m with stack := m.regs r :: m.stack }
  | .pop r => match m.stack with
    | [] => none
    | w :: st => some { m.setReg r w with stack := st }
  | .pushf => some { m with stack := m.flags :: m.stack }
  | .popf => match m.stack with
    | [] => none
    | w :: st => some { m with flags := w, stack := st }
  | .pushSp => some { m with stack := m.stackPointer m.stack.length :: m.stack }
  | .drop => match m.stack with
    | [] => none
    | _ :: st => some { m with stack := st }
  | .pushTop => match m.stack with
    | [] => none
    | w :: st => some { m with stack := w :: w :: st }
  | .popField base f => match m.stack with
    | [] => none
    | w :: st => some { m.setField (m.regs base) f w with stack := st }
  | .move src dst => some (m.setReg dst (m.regs src))
  | .load base f dst => some (m.setReg dst (m.records (m.regs base) f))
  | .store src base f => some (m.setField (m.regs base) f (m.regs src))
  | .loadTop dst => match m.stack with
    | [] => none
    | w :: _ => some (m.setReg dst w)
  | .xchgTop r => match m.stack with
    | [] => none
    | w :: st => some { m.setReg r w with stack := m.regs r :: st }

def run (code : List (Instr R F)) (m : StackMachine R F W) : Option (StackMachine R F W) := code.foldlM exec m

variable {m m' : StackMachine R F W} {code code' : List (Instr R F)} {rs : List R} {p : W}

@[simp] theorem run_nil : run [] m = some m := rfl

@[simp] theorem run_cons {i : Instr R F} : run (i :: code) m = (exec m i).bind (run code) := rfl

@[simp] theorem run_append : run (code ++ code') m = (run code m).bind (run code') := List.foldlM_append

omit [DecidableEq F] [DecidableEq W] in
theorem setRegs_nil (g : R → W) : m.setRegs [] g = m := by
  unfold setRegs
  simp

omit [DecidableEq F] [DecidableEq W] in
theorem setRegs_cons {r : R} (g : R → W) : (m.setReg r (g r)).setRegs rs g = m.setRegs (r :: rs) g := by
  unfold setRegs setReg
  congr 1
  funext x
  by_cases hx : x = r
  · subst hx
    simp
  · simp [hx]

/-! ### Blocks -/

theorem run_pushes (rs : List R) (m : StackMachine R F W) :
    run (rs.map Instr.push) m = some { m with stack := (rs.map m.regs).reverse ++ m.stack } := by
  induction rs generalizing m with
  | nil => rfl
  | cons r rs ih =>
    simp only [List.map_cons, run_cons, exec, Option.bind_some, ih]
    simp

/-- What has been pushed is popped, in the reverse order. -/
theorem run_pops (rs : List R) (g : R → W) {st : List W} (hst : m.stack = rs.map g ++ st) :
    run (rs.map Instr.pop) m = some { m.setRegs rs g with stack := st } := by
  induction rs generalizing m with
  | nil =>
    obtain rfl : m.stack = st := hst
    simp [setRegs_nil]
  | cons r rs ih =>
    simp only [List.map_cons, List.cons_append] at hst
    simp only [List.map_cons, run_cons, exec, hst, Option.bind_some]
    rw [ih rfl, ← setRegs_cons]
    rfl

/-- The base must not be among the registers that are loaded. -/
theorem run_loads {base : R} (field : R → F) (hbase : base ∉ rs) :
    run (rs.map fun r => Instr.load base (field r) r) m =
      some (m.setRegs rs fun r => m.records (m.regs base) (field r)) := by
  induction rs generalizing m with
  | nil => rw [setRegs_nil]; rfl
  | cons r rs ih =>
    simp only [List.mem_cons, not_or] at hbase
    obtain ⟨hr, hrs⟩ := hbase
    simp only [List.map_cons, run_cons, exec, Option.bind_some]
    rw [ih hrs, ← setRegs_cons]
    simp only [setReg, Function.update_of_ne hr]

omit [DecidableEq R] in
theorem setFields_nil (g : F → W) : m.setFields p [] g = m := by
  unfold setFields
  simp

omit [DecidableEq R] in
theorem setFields_cons {f : F} {fs : List F} (g : F → W) :
    (m.setField p f (g f)).setFields p fs g = m.setFields p (f :: fs) g := by
  unfold setFields setField
  simp only [Function.update_self, Function.update_idem]
  congr 2
  funext x
  by_cases hx : x = f
  · subst hx
    simp
  · simp [hx]

omit [DecidableEq R] in
theorem setFields_append {fs fs' : List F} (g : F → W) :
    (m.setFields p fs g).setFields p fs' g = m.setFields p (fs ++ fs') g := by
  induction fs generalizing m with
  | nil => rw [setFields_nil]; rfl
  | cons f fs ih => rw [← setFields_cons, ih, List.cons_append, ← setFields_cons]

/-- A field of each register gets its value. -/
theorem run_stores (rs : List R) {base : R} (m : StackMachine R R W) :
    run (rs.map fun r => Instr.store r base r) m = some (m.setFields (m.regs base) rs m.regs) := by
  induction rs generalizing m with
  | nil => rw [setFields_nil]; rfl
  | cons r rs ih =>
    simp only [List.map_cons, run_cons, exec, Option.bind_some]
    rw [ih, ← setFields_cons]
    rfl

end StackCode
