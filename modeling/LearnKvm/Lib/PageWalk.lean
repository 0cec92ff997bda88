import LearnKvm.Lib.ByteMemory

/-!
# Page walks of the x86 architecture

The architecture has three formats of paging tables, with two, three and four levels.  A walk starts at the table that
CR3 points to and reads one entry at each level, in a memory of bytes indexed by physical addresses.  It ends at an
entry that is not present, at one with a reserved bit, at an entry of level two that maps a large page, or at a page
(`Format.walk`).

Physical addresses have 36 bits with the large pages of the 32-bit format (PSE-36) and 52 bits in the other formats.
Rights, and with them the bit that forbids execution, have no part in a translation.
-/

namespace PageWalk

/-- The bits from `lo` up to `hi` of a word, in place. -/
def bits (lo hi : Nat) (x : BitVec 64) : BitVec 64 := (Bits.field lo (hi - lo) x).setWidth 64 <<< lo

@[simp] theorem hasBit_bits (lo hi : Nat) (x : BitVec 64) (i : Nat) :
    (bits lo hi x).hasBit i = (decide (lo ≤ i ∧ i < hi) && x.hasBit i) := by
  unfold bits
  rw [BitVec.hasBit_shiftLeft, BitVec.hasBit_setWidth, Bits.hasBit_field]
  by_cases h64 : i < 64
  · by_cases hlo : lo ≤ i
    · simp [h64, hlo, show ¬i < lo by omega, show i - lo < 64 by omega, show lo + (i - lo) = i by omega,
        show i - lo < hi - lo ↔ i < hi by omega]
    · simp [hlo, show i < lo by omega]
  · rw [BitVec.hasBit_of_ge x (Nat.not_lt.1 h64)]
    simp [h64]

/-- A format of paging tables; that with entries of 32 bits has large pages if CR4.PSE is set. -/
inductive Format where
  | legacy (pse : Bool)
  | pae
  | long
  deriving DecidableEq

/-- How a walk ends. -/
inductive Outcome where
  | mapped (addr : BitVec 64)
  | notPresent
  | reserved
  deriving DecidableEq

namespace Format

def levels : Format → Nat
  | legacy _ => 2
  | pae => 3
  | long => 4

def entrySize : Format → Nat
  | legacy _ => 4
  | pae => 8
  | long => 8

theorem one_le_levels (fmt : Format) : 1 ≤ fmt.levels := by cases fmt <;> exact Nat.succ_pos _

theorem entrySize_pos (fmt : Format) : 0 < fmt.entrySize := by cases fmt <;> exact Nat.succ_pos _

theorem entrySize_dvd (fmt : Format) : fmt.entrySize ∣ 8 := by
  cases fmt with
  | legacy _ => exact ⟨2, rfl⟩
  | pae => exact ⟨1, rfl⟩
  | long => exact ⟨1, rfl⟩

/-- The address of the root table. -/
def root : Format → BitVec 64 → BitVec 64
  | legacy _, cr3 => bits 12 32 cr3
  | pae, cr3 => bits 5 32 cr3
  | long, cr3 => bits 12 52 cr3

/-- The bits 5 to 51 of CR3 that are not part of the address of the root table. -/
def IsIgnored : Format → Nat → Prop
  | legacy _, i => 5 ≤ i ∧ i < 12 ∨ 32 ≤ i ∧ i < 52
  | pae, i => 32 ≤ i ∧ i < 52
  | long, i => 5 ≤ i ∧ i < 12

/-- CR3 has no such bit. -/
def RootOnly (fmt : Format) (cr3 : BitVec 64) : Prop := ∀ i, fmt.IsIgnored i → cr3.hasBit i = false

/-- The number of bits of an address that select an entry at a level. -/
def indexBits : Format → Nat → Nat
  | legacy _, _ => 10
  | pae, level => if level = 3 then 2 else 9
  | long, _ => 9

/-- The lowest of these bits. -/
def indexShift : Format → Nat → Nat
  | legacy _, level => 12 + (level - 1) * 10
  | pae, level => 12 + (level - 1) * 9
  | long, level => 12 + (level - 1) * 9

def index (fmt : Format) (level : Nat) (va : BitVec 64) : Nat :=
  (Bits.field (fmt.indexShift level) (fmt.indexBits level) va).toNat

/-- The table or the page that an entry points to. -/
def base : Format → BitVec 64 → BitVec 64
  | legacy _, e => bits 12 32 e
  | pae, e => bits 12 52 e
  | long, e => bits 12 52 e

/-- The entry maps a large page. -/
def isLarge (fmt : Format) (level : Nat) (e : BitVec 64) : Bool :=
  level = 2 && e.hasBit 7 && fmt ≠ legacy false

/-- An address in the large page that an entry maps. -/
def largeAddr : Format → BitVec 64 → BitVec 64 → BitVec 64
  | legacy _, e, va => bits 22 32 e ||| bits 13 17 e <<< 19 ||| bits 0 22 va
  | pae, e, va => bits 21 52 e ||| bits 0 21 va
  | long, e, va => bits 21 52 e ||| bits 0 21 va

/-- The reserved bits of an entry. -/
def isReserved (fmt : Format) (level : Nat) (large : Bool) (i : Nat) : Bool :=
  match fmt with
  | legacy _ => large && decide (17 ≤ i ∧ i < 22)
  | pae =>
    if level = 3 then decide (i = 1 ∨ i = 2 ∨ 5 ≤ i ∧ i < 9 ∨ 52 ≤ i)
    else decide (52 ≤ i ∧ i < 63) || large && decide (13 ≤ i ∧ i < 21)
  | long => decide (3 ≤ level ∧ i = 7) || large && decide (13 ≤ i ∧ i < 21)

def hasReserved (fmt : Format) (level : Nat) (e : BitVec 64) : Bool :=
  (List.range 64).any fun i => fmt.isReserved level (fmt.isLarge level e) i && e.hasBit i

/-- The linear addresses of a mode: 32 bits, or canonical. -/
def Legal : Format → BitVec 64 → Prop
  | legacy _, va => va.toNat < 2 ^ 32
  | pae, va => va.toNat < 2 ^ 32
  | long, va => ∀ i, 48 ≤ i → i < 64 → va.hasBit i = va.hasBit 47

variable (fmt : Format) (mem : ByteMem.Mem 64) (va : BitVec 64)

/-- The entry of an address in a table. -/
def entry (level : Nat) (table : BitVec 64) : BitVec 64 :=
  ByteMem.load mem (table + BitVec.ofNat 64 (fmt.entrySize * fmt.index level va)) fmt.entrySize

/-- The walk from a table of a level, or from a page. -/
def walk : Nat → BitVec 64 → Outcome
  | 0, page => .mapped (page ||| bits 0 12 va)
  | level + 1, table =>
    let e := fmt.entry mem va (level + 1) table
    if !e.hasBit 0 then .notPresent
    else if fmt.hasReserved (level + 1) e then .reserved
    else if fmt.isLarge (level + 1) e then .mapped (fmt.largeAddr e va)
    else walk level (fmt.base e)

/-- The translation of a linear address. -/
def translate (cr3 : BitVec 64) : Outcome := fmt.walk mem va fmt.levels (fmt.root cr3)

variable {fmt mem va} {level n : Nat} {e table : BitVec 64} {i : Nat}

theorem lt_of_hasBit_entry (h : (fmt.entry mem va level table).hasBit i = true) : i < 8 * fmt.entrySize := by
  unfold entry at h
  rw [ByteMem.hasBit_load] at h
  simp only [Bool.and_eq_true, decide_eq_true_eq] at h
  exact h.1.2

theorem lt_of_hasBit_base (h : (fmt.base e).hasBit i = true) : 12 ≤ i ∧ i < 52 := by
  cases fmt with
  | legacy _ =>
    rw [base, hasBit_bits, Bool.and_eq_true, decide_eq_true_eq] at h
    omega
  | pae =>
    rw [base, hasBit_bits, Bool.and_eq_true, decide_eq_true_eq] at h
    exact h.1
  | long =>
    rw [base, hasBit_bits, Bool.and_eq_true, decide_eq_true_eq] at h
    exact h.1

theorem lt_of_hasBit_largeAddr (h : (fmt.largeAddr e va).hasBit i = true) : i < 52 := by
  cases fmt <;> simp [largeAddr] at h <;> omega

/-- A linear address is mapped to a physical one. -/
theorem lt_of_walk_mapped {addr : BitVec 64} (h : fmt.walk mem va (level + 1) table = .mapped addr)
    (hi : addr.hasBit i = true) : i < 52 := by
  induction level generalizing table with
  | zero =>
    unfold walk at h
    dsimp only at h
    split at h
    · cases h
    · split at h
      · cases h
      · split at h
        · cases h
          exact lt_of_hasBit_largeAddr hi
        · cases h
          rw [BitVec.hasBit_or, Bool.or_eq_true, hasBit_bits, Bool.and_eq_true, decide_eq_true_eq] at hi
          rcases hi with hi | hi
          · exact (lt_of_hasBit_base hi).2
          · omega
  | succ level ih =>
    unfold walk at h
    dsimp only at h
    split at h
    · cases h
    · split at h
      · cases h
      · split at h
        · cases h
          exact lt_of_hasBit_largeAddr hi
        · exact ih h

/-- The walk goes through an entry at this level. -/
structure Passes (fmt : Format) (level : Nat) (e : BitVec 64) : Prop where
  present : e.hasBit 0 = true
  legal : fmt.hasReserved level e = false
  small : fmt.isLarge level e = false

theorem walk_of_passes (h : fmt.Passes (level + 1) (fmt.entry mem va (level + 1) table)) :
    fmt.walk mem va (level + 1) table = fmt.walk mem va level (fmt.base (fmt.entry mem va (level + 1) table)) := by
  rw [walk]
  rw [h.present, h.legal, h.small]
  rfl

theorem walk_of_notPresent (h : (fmt.entry mem va (level + 1) table).hasBit 0 = false) :
    fmt.walk mem va (level + 1) table = .notPresent := by
  rw [walk]
  rw [h]
  rfl

theorem walk_of_reserved (hp : (fmt.entry mem va (level + 1) table).hasBit 0 = true)
    (h : fmt.hasReserved (level + 1) (fmt.entry mem va (level + 1) table) = true) :
    fmt.walk mem va (level + 1) table = .reserved := by
  rw [walk]
  rw [hp, h]
  rfl

theorem walk_of_isLarge (hp : (fmt.entry mem va (level + 1) table).hasBit 0 = true)
    (hr : fmt.hasReserved (level + 1) (fmt.entry mem va (level + 1) table) = false)
    (h : fmt.isLarge (level + 1) (fmt.entry mem va (level + 1) table) = true) :
    fmt.walk mem va (level + 1) table = .mapped (fmt.largeAddr (fmt.entry mem va (level + 1) table) va) := by
  rw [walk]
  rw [hp, hr, h]
  rfl

theorem eq_two_of_isLarge (h : fmt.isLarge level e = true) : level = 2 := by
  unfold isLarge at h
  simp only [Bool.and_eq_true, decide_eq_true_eq] at h
  exact h.1.1

/-- An entry that is met at every level, because it points to a table where it stands again, maps that table. -/
theorem walk_of_self (hpass : ∀ level, fmt.Passes level e) (htable : ∀ level, fmt.entry mem va level table = e)
    (hself : ∀ level, fmt.entry mem va level (fmt.base e) = e) :
    fmt.walk mem va (n + 1) table = .mapped (fmt.base e ||| bits 0 12 va) := by
  induction n generalizing table with
  | zero =>
    have h1 : fmt.Passes 1 (fmt.entry mem va 1 table) := htable 1 ▸ hpass 1
    rw [walk_of_passes h1, htable]
    rfl
  | succ n ih =>
    have h1 : fmt.Passes (n + 2) (fmt.entry mem va (n + 2) table) := htable _ ▸ hpass _
    rw [walk_of_passes h1, htable]
    exact ih hself

end Format

end PageWalk
