import LearnKvm.Lib.FieldBuffer
import LearnKvm.Registers
import Mathlib.Data.List.FinRange
import Mathlib.Tactic.FinCases

/-!
# The register packet of the gdb stub (`cpu_gdb_read_registers`, `cpu_gdb_write_registers`)

The packet is made by one list of `PUTREG`s and taken apart by one list of `GETREG`s.  The two lists name the same registers
in the same order, but `PUTREGF` moves on by the size of an element of `fpregs`, and `GETREGF` by the ten bytes it has read:
from the second FPU register on, the two positions drift apart unless an element has ten bytes (`gdbRegisters_iff`).
-/

namespace LearnKvm

open FieldBuffer

/-- The registers of `CPUState` that the packet holds.  `fpregs i` are the bytes of an element of the array. -/
structure GdbState where
  regs : Fin 16 → BitVec 64
  eip : BitVec 64
  eflags : BitVec 64
  selector : Segment → BitVec 32
  fpregs : Fin 8 → Buffer
  fpuc : BitVec 32
  fpus : BitVec 32
  fpstt : BitVec 32

/-! ### `cpu_gdb_read_registers` -/

/-- `PUTREG`; the bytes are in the order of the target, little-endian. -/
def putreg (x : BitVec 64) : Field := ⟨8, 8, byte x.toNat, le_refl 8⟩

/-- `PUTREG32`. -/
def putreg32 (x : BitVec 32) : Field := ⟨4, 4, byte x.toNat, le_refl 4⟩

/-- `PUTREGF`, for elements of `size` bytes. -/
def putregf (size : { n // 10 ≤ n }) (x : Buffer) : Field := ⟨10, size, x, size.2⟩

section Read

variable (size : { n // 10 ≤ n }) (env : GdbState)

def putInteger : List Field := [
  putreg (env.regs 0), putreg (env.regs 3), putreg (env.regs 1), putreg (env.regs 2),
  putreg (env.regs 6), putreg (env.regs 7), putreg (env.regs 5), putreg (env.regs 4),
  putreg (env.regs 8), putreg (env.regs 9), putreg (env.regs 10), putreg (env.regs 11),
  putreg (env.regs 12), putreg (env.regs 13), putreg (env.regs 14), putreg (env.regs 15),
  putreg env.eip,
  putreg32 (env.eflags.setWidth 32),
  putreg32 (env.selector .cs), putreg32 (env.selector .ss), putreg32 (env.selector .ds),
  putreg32 (env.selector .es), putreg32 (env.selector .fs), putreg32 (env.selector .gs)]

def putFpregs : List Field := (List.finRange 8).map fun i => putregf size (env.fpregs i)

def putFpuState : List Field :=
  let fpus := (env.fpus &&& ~~~0x3800#32) ||| ((env.fpstt &&& 0x7) <<< 11)
  [putreg32 env.fpuc,
    putreg32 fpus,
    putreg32 0, -- the tags are not converted
    putreg32 0, putreg32 0, putreg32 0, putreg32 0, -- fiseg, fioff, foseg, fooff
    putreg32 0] -- fop

def cpuGdbReadRegisters (memBuf : Buffer) : Buffer :=
  (writeFields ⟨memBuf, 0⟩ (putInteger env ++ (putFpregs size env ++ putFpuState env))).buf

end Read

/-! ### `cpu_gdb_write_registers` -/

/-- `GETREG`. -/
def getreg (set : BitVec 64 → GdbState → GdbState) : Setter GdbState :=
  ⟨8, 8, fun b => set (BitVec.ofNat 64 (word b 8)), fun _ _ h => by rw [word_congr h]⟩

/-- `GETREG32`. -/
def getreg32 (set : BitVec 32 → GdbState → GdbState) : Setter GdbState :=
  ⟨4, 4, fun b => set (BitVec.ofNat 32 (word b 4)), fun _ _ h => by rw [word_congr h]⟩

/-- The first ten bytes of an element. -/
def copyTen (b x : Buffer) : Buffer := fun k => if k < 10 then b k else x k

theorem copyTen_congr {b b' : Buffer} (h : ∀ k < 10, b k = b' k) (x : Buffer) : copyTen b x = copyTen b' x := by
  funext k
  unfold copyTen
  split
  · exact h k ‹_›
  · rfl

/-- `GETREGF`. -/
def getregf (i : Fin 8) : Setter GdbState where
  len := 10
  size := 10
  set b env := { env with fpregs := Function.update env.fpregs i (copyTen b (env.fpregs i)) }
  local_bytes _ _ h := by funext env; rw [copyTen_congr h]

/-- `GETREG(env->regs[r])`. -/
def getGeneral (r : Fin 16) : Setter GdbState := getreg fun x env => { env with regs := Function.update env.regs r x }

/-- `GETREG32(env->segs[seg].selector)`. -/
def getSelector (seg : Segment) : Setter GdbState :=
  getreg32 fun x env => { env with selector := Function.update env.selector seg x }

/-- A value that is read into a local variable and dropped. -/
def getDropped : Setter GdbState := getreg32 fun _ env => env

def getInteger : List (Setter GdbState) := [
  getGeneral 0, getGeneral 3, getGeneral 1, getGeneral 2,
  getGeneral 6, getGeneral 7, getGeneral 5, getGeneral 4,
  getGeneral 8, getGeneral 9, getGeneral 10, getGeneral 11,
  getGeneral 12, getGeneral 13, getGeneral 14, getGeneral 15,
  getreg fun x env => { env with eip := x },
  getreg32 fun x env => { env with eflags := x.setWidth 64 },
  getSelector .cs, getSelector .ss, getSelector .ds,
  getSelector .es, getSelector .fs, getSelector .gs]

def getFpregs : List (Setter GdbState) := (List.finRange 8).map getregf

def getFpuState : List (Setter GdbState) := [
  getreg32 fun x env => { env with fpuc := x },
  getDropped, -- the status word is not converted
  getDropped, -- nor are the tags
  getDropped, getDropped, getDropped, getDropped,
  getDropped]

def cpuGdbWriteRegisters (env : GdbState) (memBuf : Buffer) : GdbState :=
  readFields memBuf 0 (getInteger ++ (getFpregs ++ getFpuState)) env

/-! ### What comes back -/

theorem getreg_set (set : BitVec 64 → GdbState → GdbState) (x : BitVec 64) :
    (getreg set).set (putreg x).bytes = set x := by
  have : BitVec.ofNat 64 (word (byte x.toNat) 8) = x := by
    rw [word_byte]
    exact BitVec.eq_of_toNat_eq (by rw [BitVec.toNat_ofNat]; omega)
  exact congrArg set this

theorem getreg32_set (set : BitVec 32 → GdbState → GdbState) (x : BitVec 32) :
    (getreg32 set).set (putreg32 x).bytes = set x := by
  have : BitVec.ofNat 32 (word (byte x.toNat) 4) = x := by
    rw [word_byte]
    exact BitVec.eq_of_toNat_eq (by rw [BitVec.toNat_ofNat]; omega)
  exact congrArg set this

theorem aligned_integer (env : GdbState) : List.Forall₂ Aligned getInteger (putInteger env) := by
  unfold getInteger putInteger
  repeat' constructor

/-- The integer registers come back, but only the low half of the flags is in the packet. -/
theorem handOver_integer (env : GdbState) :
    handOver getInteger (putInteger env) env = { env with eflags := (env.eflags.setWidth 32).setWidth 64 } := by
  simp [getInteger, putInteger, handOver, getGeneral, getSelector, getreg_set, getreg32_set]

theorem extent_integer (env : GdbState) : extent (putInteger env) = 164 := by
  simp [extent, putInteger, putreg, putreg32]

theorem integer_sizes : (getInteger.map Setter.size).sum = 164 := by
  simp [getInteger, getGeneral, getSelector, getreg, getreg32]

/-- The rest of the packet is taken apart from position 164 on. -/
theorem cpuGdbWriteRegisters_eq (size : { n // 10 ≤ n }) (env : GdbState) (memBuf : Buffer) :
    cpuGdbWriteRegisters env (cpuGdbReadRegisters size env memBuf) =
      readFields (cpuGdbReadRegisters size env memBuf) 164 (getFpregs ++ getFpuState)
        { env with eflags := (env.eflags.setWidth 32).setWidth 64 } := by
  unfold cpuGdbWriteRegisters
  rw [readFields_append, integer_sizes, Nat.zero_add]
  congr 1
  exact (readFields_writeFields ⟨memBuf, 0⟩ (aligned_integer env) _ env).trans (handOver_integer env)

/-- What the FPU part makes of any buffer. -/
theorem readFields_fpu (b : Buffer) (p : Nat) (env : GdbState) :
    readFields b p (getFpregs ++ getFpuState) env =
      { env with
        fpregs := fun i => copyTen (fun k => b (p + 10 * i + k)) (env.fpregs i)
        fpuc := BitVec.ofNat 32 (word (fun k => b (p + 80 + k)) 4) } := by
  have hlist : getFpregs = [getregf 0, getregf 1, getregf 2, getregf 3, getregf 4, getregf 5, getregf 6, getregf 7] := rfl
  rw [hlist]
  simp only [List.cons_append, List.nil_append, getFpuState, readFields, getregf, getDropped, getreg32, GdbState.mk.injEq,
    true_and, and_true]
  funext i
  fin_cases i <;> rfl

/-- Byte `k` of the FPU registers as they lie in the packet: the first ten bytes of each element, with what the buffer held
before behind them. -/
def spreadByte (size : { n // 10 ≤ n }) (env : GdbState) (memBuf : Buffer) (k : Nat) : BitVec 8 :=
  if k % size < 10 then env.fpregs (Fin.ofNat 8 (k / size)) (k % size) else memBuf (164 + k)

theorem extent_take_fpregs (size : { n // 10 ≤ n }) (env : GdbState) {q : Nat} (h : q ≤ 8) :
    extent ((putFpregs size env).take q) = size.1 * q := by
  have hconst : (putFpregs size env).map Field.size = List.replicate 8 size.1 := rfl
  unfold extent
  rw [List.map_take, hconst, List.take_replicate, List.sum_replicate_nat, Nat.min_eq_left h, Nat.mul_comm]

theorem fpregs_byte (size : { n // 10 ≤ n }) (env : GdbState) (memBuf : Buffer) {k : Nat} (h : k < 8 * size.1) :
    cpuGdbReadRegisters size env memBuf (164 + k) = spreadByte size env memBuf k := by
  have hpos : 0 < size.1 := Nat.lt_of_lt_of_le (by decide) size.2
  have hq : k / size.1 < 8 := (Nat.div_lt_iff_lt_mul hpos).2 h
  have hmod : k % size.1 < size.1 := Nat.mod_lt k hpos
  -- the element that byte `k` lies in, between those before and those behind
  have hsplit : putFpregs size env = (putFpregs size env).take (k / size.1) ++
      putregf size (env.fpregs (Fin.ofNat 8 (k / size.1))) :: (putFpregs size env).drop (k / size.1 + 1) := by
    have hlt : k / size.1 < (putFpregs size env).length := hq
    have hget : (putFpregs size env)[k / size.1] = putregf size (env.fpregs (Fin.ofNat 8 (k / size.1))) := by
      have hfin : Fin.ofNat 8 (k / size.1) = ⟨k / size.1, hq⟩ := Fin.ext (Nat.mod_eq_of_lt hq)
      rw [hfin]
      simp [putFpregs]
    rw [← hget, ← List.drop_eq_getElem_cons, List.take_append_drop]
  have hat : 164 + k = 0 + extent (putInteger env ++ (putFpregs size env).take (k / size.1)) + k % size.1 := by
    rw [extent_append, extent_integer, extent_take_fpregs size env hq.le]
    have := Nat.div_add_mod k size.1
    omega
  have hcode : putInteger env ++ (putFpregs size env ++ putFpuState env) =
      (putInteger env ++ (putFpregs size env).take (k / size.1)) ++
        putregf size (env.fpregs (Fin.ofNat 8 (k / size.1))) ::
          ((putFpregs size env).drop (k / size.1 + 1) ++ putFpuState env) := by
    conv_lhs => rw [hsplit]
    simp only [List.append_assoc, List.cons_append]
  unfold cpuGdbReadRegisters spreadByte
  rw [hcode, hat]
  split
  · exact writeFields_field ⟨memBuf, 0⟩ _ _ _ ‹_›
  · exact writeFields_gap ⟨memBuf, 0⟩ _ _ _ (Nat.le_of_not_lt ‹_›) hmod

theorem fpuc_byte (size : { n // 10 ≤ n }) (env : GdbState) (memBuf : Buffer) {k : Nat} (h : k < 4) :
    cpuGdbReadRegisters size env memBuf (164 + size.1 * 8 + k) = byte env.fpuc.toNat k := by
  have hat : 164 + size.1 * 8 = 0 + extent (putInteger env ++ putFpregs size env) := by
    rw [extent_append, extent_integer, ← extent_take_fpregs size env (le_refl 8), Nat.zero_add]
    rfl
  unfold cpuGdbReadRegisters
  rw [hat, ← List.append_assoc]
  exact writeFields_field ⟨memBuf, 0⟩ _ (putreg32 env.fpuc) _ h

/-- The registers of the packet are as they were. -/
structure SameRegisters (env env' : GdbState) : Prop where
  regs : ∀ r, env'.regs r = env.regs r
  eip : env'.eip = env.eip
  eflags : env'.eflags = env.eflags
  selector : ∀ seg, env'.selector seg = env.selector seg
  fpregs : ∀ i, ∀ j < 10, env'.fpregs i j = env.fpregs i j
  fpuc : env'.fpuc = env.fpuc
  fpus : env'.fpus = env.fpus
  fpstt : env'.fpstt = env.fpstt

/-- Ten bytes after ten bytes of the spread registers are the registers and the control word. -/
def SpreadAgrees (size : { n // 10 ≤ n }) (env : GdbState) (memBuf : Buffer) : Prop :=
  (∀ i : Fin 8, ∀ j < 10, spreadByte size env memBuf (10 * i + j) = env.fpregs i j) ∧
    ∀ k < 4, spreadByte size env memBuf (80 + k) = byte env.fpuc.toNat k

/-- What comes back depends on the bytes at every tenth place, and on the four bytes behind them. -/
theorem sameRegisters_iff (size : { n // 10 ≤ n }) (env : GdbState) (memBuf : Buffer) :
    SameRegisters env (cpuGdbWriteRegisters env (cpuGdbReadRegisters size env memBuf)) ↔
      env.eflags.toNat < 2 ^ 32 ∧
        (∀ i : Fin 8, ∀ j < 10, cpuGdbReadRegisters size env memBuf (164 + 10 * i + j) = env.fpregs i j) ∧
        ∀ k < 4, cpuGdbReadRegisters size env memBuf (164 + 80 + k) = byte env.fpuc.toNat k := by
  have heflags : (env.eflags.setWidth 32).setWidth 64 = env.eflags ↔ env.eflags.toNat < 2 ^ 32 := by
    rw [← BitVec.toNat_inj, BitVec.toNat_setWidth, BitVec.toNat_setWidth]
    omega
  have hfpuc : ∀ b : Buffer, BitVec.ofNat 32 (word b 4) = env.fpuc ↔ ∀ k < 4, b k = byte env.fpuc.toNat k := by
    intro b
    have hlt : word b 4 < 2 ^ 32 := word_lt b 4
    rw [← word_eq_iff b (show env.fpuc.toNat < 256 ^ 4 from env.fpuc.isLt), ← BitVec.toNat_inj, BitVec.toNat_ofNat,
      Nat.mod_eq_of_lt hlt]
  rw [cpuGdbWriteRegisters_eq, readFields_fpu]
  constructor
  · intro h
    refine ⟨heflags.1 h.eflags, fun i j hj => ?_, (hfpuc _).1 h.fpuc⟩
    exact (if_pos hj).symm.trans (h.fpregs i j hj)
  · rintro ⟨hflags, hfp, huc⟩
    exact {
      regs := fun _ => rfl
      eip := rfl
      eflags := heflags.2 hflags
      selector := fun _ => rfl
      fpregs := fun i j hj => (if_pos hj).trans (hfp i j hj)
      fpuc := (hfpuc _).2 huc
      fpus := rfl
      fpstt := rfl }

/-- The registers come back iff the flags fit in 32 bits and either the elements of `fpregs` have ten bytes or the drift
meets the right bytes by chance. -/
theorem gdbRegisters_iff (size : { n // 10 ≤ n }) (env : GdbState) (memBuf : Buffer) :
    SameRegisters env (cpuGdbWriteRegisters env (cpuGdbReadRegisters size env memBuf)) ↔
      env.eflags.toNat < 2 ^ 32 ∧ (size.1 = 10 ∨ SpreadAgrees size env memBuf) := by
  rw [sameRegisters_iff]
  refine and_congr_right fun _ => ?_
  by_cases hten : size.1 = 10
  · refine iff_of_true ⟨fun i j hj => ?_, fun k hk => ?_⟩ (.inl hten)
    · have hi := i.isLt
      rw [Nat.add_assoc, fpregs_byte size env memBuf (by omega)]
      unfold spreadByte
      rw [hten, show (10 * i.1 + j) % 10 = j by omega, show (10 * i.1 + j) / 10 = i.1 by omega, if_pos hj,
        show Fin.ofNat 8 i.1 = i from Fin.ext (Nat.mod_eq_of_lt hi)]
    · have hat : 164 + 80 + k = 164 + size.1 * 8 + k := by omega
      rw [hat, fpuc_byte size env memBuf hk]
  · have hsize := size.2
    rw [or_iff_right hten]
    refine and_congr (forall_congr' fun i => forall₂_congr fun j hj => ?_) (forall₂_congr fun k hk => ?_)
    · rw [Nat.add_assoc, fpregs_byte size env memBuf (by omega)]
    · rw [Nat.add_assoc, fpregs_byte size env memBuf (by omega)]

/-- A state with every byte of the FPU registers set. -/
def gdbOnes : GdbState where
  regs _ := 0
  eip := 0
  eflags := 0
  selector _ := 0
  fpregs _ _ := 255
  fpuc := 0
  fpus := 0
  fpstt := 0

/-- With elements of 16 bytes and an empty buffer, the second FPU register starts with the gap behind the first. -/
theorem gdbRegisters_drift :
    ¬ ∀ (size : { n // 10 ≤ n }) (env : GdbState) (memBuf : Buffer),
      SameRegisters env (cpuGdbWriteRegisters env (cpuGdbReadRegisters size env memBuf)) := by
  intro hall
  have hbyte := ((sameRegisters_iff ⟨16, by decide⟩ gdbOnes fun _ => 0).1 (hall _ _ _)).2.1 1 0 (by decide)
  have hgap := fpregs_byte ⟨16, by decide⟩ gdbOnes (fun _ => 0) (k := 10) (by decide)
  exact absurd (hgap.symm.trans hbyte) (by decide)

end LearnKvm
