import LearnKvm.Kvm

/-!
# Page table entries (`mmu.c`)

The flags of guest and shadow page table entries, the masks built from them and the index of an address at a level of
the two table formats.  Entries of both formats are 64-bit words, an entry of the 32-bit format being zero-extended.
Each mask has a lemma giving its bits, so that an entry put together from masked parts can be read bit by bit; the
frame an entry points to is read with `frameOf`.
-/

namespace LearnKvm

/-! ### Flags -/

def ptPresentMask : BitVec 64 := 1#64 <<< 0
def ptWritableMask : BitVec 64 := 1#64 <<< 1
def ptUserMask : BitVec 64 := 1#64 <<< 2
def ptPwtMask : BitVec 64 := 1#64 <<< 3
def ptPcdMask : BitVec 64 := 1#64 <<< 4
def ptAccessedMask : BitVec 64 := 1#64 <<< 5
def ptDirtyMask : BitVec 64 := 1#64 <<< 6
def ptPageSizeMask : BitVec 64 := 1#64 <<< 7
def ptPatMask : BitVec 64 := 1#64 <<< 7
def ptGlobalMask : BitVec 64 := 1#64 <<< 8
def pt64NxMask : BitVec 64 := 1#64 <<< 63

def ptDirPatMask : BitVec 64 := 1#64 <<< 12
def pt32DirPse36Mask : BitVec 64 := (1#64 <<< 4 - 1#64) <<< 13

def ptShadowPsMark : BitVec 64 := 1#64 <<< 9
def ptShadowIoMark : BitVec 64 := 1#64 <<< 9
def ptShadowWritableMask : BitVec 64 := 1#64 <<< 10
def ptShadowUserMask : BitVec 64 := 1#64 <<< 11
def ptShadowBitsOffset : Nat := 9

def isPresentPte (pte : BitVec 64) : Bool := pte &&& ptPresentMask != 0
def isWriteblePte (pte : BitVec 64) : Bool := pte &&& ptWritableMask != 0
def isIoPte (pte : BitVec 64) : Bool := pte &&& ptShadowIoMark != 0

@[simp] theorem isPresentPte_eq (e : BitVec 64) : isPresentPte e = e.hasBit 0 :=
  Bits.and_one_shiftLeft_bne_zero (by decide) e

@[simp] theorem isWriteblePte_eq (e : BitVec 64) : isWriteblePte e = e.hasBit 1 :=
  Bits.and_one_shiftLeft_bne_zero (by decide) e

@[simp] theorem isIoPte_eq (e : BitVec 64) : isIoPte e = e.hasBit 9 := Bits.and_one_shiftLeft_bne_zero (by decide) e

theorem and_ptWritableMask (e : BitVec 64) : (e &&& ptWritableMask != 0) = e.hasBit 1 :=
  Bits.and_one_shiftLeft_bne_zero (by decide) e

theorem and_ptUserMask (e : BitVec 64) : (e &&& ptUserMask != 0) = e.hasBit 2 :=
  Bits.and_one_shiftLeft_bne_zero (by decide) e

theorem and_ptDirtyMask (e : BitVec 64) : (e &&& ptDirtyMask != 0) = e.hasBit 6 :=
  Bits.and_one_shiftLeft_bne_zero (by decide) e

theorem and_ptPageSizeMask (e : BitVec 64) : (e &&& ptPageSizeMask != 0) = e.hasBit 7 :=
  Bits.and_one_shiftLeft_bne_zero (by decide) e

theorem and_ptGlobalMask (e : BitVec 64) : (e &&& ptGlobalMask != 0) = e.hasBit 8 :=
  Bits.and_one_shiftLeft_bne_zero (by decide) e

theorem and_ptShadowPsMark (e : BitVec 64) : (e &&& ptShadowPsMark != 0) = e.hasBit 9 :=
  Bits.and_one_shiftLeft_bne_zero (by decide) e

theorem and_ptShadowWritableMask (e : BitVec 64) : (e &&& ptShadowWritableMask != 0) = e.hasBit 10 :=
  Bits.and_one_shiftLeft_bne_zero (by decide) e

theorem and_ptShadowUserMask (e : BitVec 64) : (e &&& ptShadowUserMask != 0) = e.hasBit 11 :=
  Bits.and_one_shiftLeft_bne_zero (by decide) e

section Bits

variable (i : Nat)

@[simp] theorem hasBit_ptPresentMask : ptPresentMask.hasBit i = decide (i = 0) := Bits.hasBit_one_shiftLeft (by decide) i
@[simp] theorem hasBit_ptWritableMask : ptWritableMask.hasBit i = decide (i = 1) := Bits.hasBit_one_shiftLeft (by decide) i
@[simp] theorem hasBit_ptUserMask : ptUserMask.hasBit i = decide (i = 2) := Bits.hasBit_one_shiftLeft (by decide) i
@[simp] theorem hasBit_ptPwtMask : ptPwtMask.hasBit i = decide (i = 3) := Bits.hasBit_one_shiftLeft (by decide) i
@[simp] theorem hasBit_ptPcdMask : ptPcdMask.hasBit i = decide (i = 4) := Bits.hasBit_one_shiftLeft (by decide) i
@[simp] theorem hasBit_ptAccessedMask : ptAccessedMask.hasBit i = decide (i = 5) := Bits.hasBit_one_shiftLeft (by decide) i
@[simp] theorem hasBit_ptDirtyMask : ptDirtyMask.hasBit i = decide (i = 6) := Bits.hasBit_one_shiftLeft (by decide) i
@[simp] theorem hasBit_ptPatMask : ptPatMask.hasBit i = decide (i = 7) := Bits.hasBit_one_shiftLeft (by decide) i
@[simp] theorem hasBit_ptGlobalMask : ptGlobalMask.hasBit i = decide (i = 8) := Bits.hasBit_one_shiftLeft (by decide) i
@[simp] theorem hasBit_pt64NxMask : pt64NxMask.hasBit i = decide (i = 63) := Bits.hasBit_one_shiftLeft (by decide) i
@[simp] theorem hasBit_ptDirPatMask : ptDirPatMask.hasBit i = decide (i = 12) := Bits.hasBit_one_shiftLeft (by decide) i
@[simp] theorem hasBit_ptShadowPsMark : ptShadowPsMark.hasBit i = decide (i = 9) := Bits.hasBit_one_shiftLeft (by decide) i
@[simp] theorem hasBit_ptShadowIoMark : ptShadowIoMark.hasBit i = decide (i = 9) := Bits.hasBit_one_shiftLeft (by decide) i

@[simp] theorem hasBit_pt32DirPse36Mask : pt32DirPse36Mask.hasBit i = decide (13 ≤ i ∧ i < 17) := by
  unfold pt32DirPse36Mask
  rw [BitVec.hasBit_shiftLeft, Bits.hasBit_lowMask (by decide)]
  by_cases h : 13 ≤ i ∧ i < 17
  · simp [h, show i < 64 by omega, show i - 13 < 4 by omega]
  · simp only [h, decide_false]
    by_cases h1 : i < 13
    · simp [h1]
    · simp [show ¬i - 13 < 4 by omega]

@[simp] theorem hasBit_pageMask : pageMask.hasBit i = decide (12 ≤ i ∧ i < 64) := by
  unfold pageMask pageSize pageShift
  rw [BitVec.hasBit_not, Bits.hasBit_lowMask (by decide)]
  by_cases h : i < 64 <;> by_cases h' : i < 12 <;> simp [h, h']
  omega

@[simp] theorem hasBit_pageOffsetMask : (pageSize - 1#64).hasBit i = decide (i < 12) :=
  Bits.hasBit_lowMask (by decide) i

@[simp] theorem hasBit_not_pageMask : (~~~pageMask).hasBit i = decide (i < 12) := by
  unfold pageMask
  rw [BitVec.not_not, hasBit_pageOffsetMask]

theorem hasBit_hpaOf (p : Pfn) : (hpaOf p).hasBit i = (decide (12 ≤ i ∧ i < 52) && p.hasBit (i - 12)) := by
  unfold hpaOf pageShift
  rw [BitVec.hasBit_shiftLeft, BitVec.hasBit_setWidth]
  by_cases h : 12 ≤ i ∧ i < 52
  · simp [h, show i < 64 by omega, show ¬i < 12 by omega, show i - 12 < 64 by omega]
  · by_cases h1 : i < 12
    · simp [h1]
    · have : p.hasBit (i - 12) = false := BitVec.hasBit_of_ge _ (by omega)
      simp [this]

end Bits

/-! ### Copy masks -/

def pt32PteCopyMask : BitVec 64 :=
  ptPresentMask ||| ptPwtMask ||| ptPcdMask ||| ptAccessedMask ||| ptDirtyMask ||| ptPatMask ||| ptGlobalMask

def pt32NonPteCopyMask : BitVec 64 :=
  ptPresentMask ||| ptPwtMask ||| ptPcdMask ||| ptAccessedMask ||| ptDirtyMask

def pt64PteCopyMask : BitVec 64 := pt64NxMask ||| pt32PteCopyMask

def pt64NonPteCopyMask : BitVec 64 := pt64NxMask ||| pt32NonPteCopyMask

/-! ### Addresses -/

def pt64BaseAddrMask : BitVec 64 := (1#64 <<< 52 - 1#64) &&& pageMask
def pt64DirBaseAddrMask : BitVec 64 := pt64BaseAddrMask &&& ~~~(1#64 <<< 21 - 1#64)
def pt32BaseAddrMask : BitVec 64 := pageMask
def pt32DirBaseAddrMask : BitVec 64 := pageMask &&& ~~~(1#64 <<< 22 - 1#64)

def pt64LevelShift (level : Nat) : Nat := 12 + (level - 1) * 9
def pt32LevelShift (level : Nat) : Nat := 12 + (level - 1) * 10

/-- `PT64_LEVEL_MASK(PT_PAGE_TABLE_LEVEL)`. -/
def pt64PageTableLevelMask : BitVec 64 := (1#64 <<< 9 - 1#64) <<< 12

/-- `PT32_LEVEL_MASK(PT_PAGE_TABLE_LEVEL)`. -/
def pt32PageTableLevelMask : BitVec 64 := (1#64 <<< 10 - 1#64) <<< 12

/-- `PT64_INDEX`: the nine bits of an address that select the entry at a level. -/
def pt64Index (addr : BitVec 64) (level : Nat) : Fin 512 := (Bits.field (pt64LevelShift level) 9 addr).toFin

/-- `PT32_INDEX`: the ten bits of an address that select the entry at a level. -/
def pt32Index (addr : BitVec 64) (level : Nat) : Fin 1024 := (Bits.field (pt32LevelShift level) 10 addr).toFin

/-- Addresses have the same index at a level when they agree on its bits. -/
theorem pt64Index_eq_iff {a b : BitVec 64} {level : Nat} :
    pt64Index a level = pt64Index b level ↔
      ∀ i, pt64LevelShift level ≤ i → i < pt64LevelShift level + 9 → a.hasBit i = b.hasBit i := by
  unfold pt64Index
  constructor
  · intro h i hlo hhi
    have h' : Bits.field (pt64LevelShift level) 9 a = Bits.field (pt64LevelShift level) 9 b :=
      BitVec.toFin_inj.1 h
    exact Bits.hasBit_of_field_eq h' hlo hhi
  · intro h
    rw [Bits.field_congr h]

theorem pt32Index_congr {a b : BitVec 64} {level : Nat}
    (h : ∀ i, pt32LevelShift level ≤ i → i < pt32LevelShift level + 10 → a.hasBit i = b.hasBit i) :
    pt32Index a level = pt32Index b level := by
  unfold pt32Index
  rw [Bits.field_congr h]

@[simp] theorem hasBit_pt64BaseAddrMask (i : Nat) : pt64BaseAddrMask.hasBit i = decide (12 ≤ i ∧ i < 52) := by
  unfold pt64BaseAddrMask
  rw [BitVec.hasBit_and, hasBit_pageMask, Bits.hasBit_lowMask (by decide), ← Bool.decide_and]
  exact decide_eq_decide.2 (by omega)

@[simp] theorem hasBit_pt32BaseAddrMask (i : Nat) : pt32BaseAddrMask.hasBit i = decide (12 ≤ i ∧ i < 64) :=
  hasBit_pageMask i

@[simp] theorem hasBit_pt64DirBaseAddrMask (i : Nat) :
    pt64DirBaseAddrMask.hasBit i = decide (21 ≤ i ∧ i < 52) := by
  unfold pt64DirBaseAddrMask
  rw [BitVec.hasBit_and, hasBit_pt64BaseAddrMask, BitVec.hasBit_not, Bits.hasBit_lowMask (by decide)]
  by_cases h : 21 ≤ i ∧ i < 52
  · simp [h, show i < 64 by omega, show 12 ≤ i by omega]
  · by_cases h1 : i < 21
    · simp [h1]
    · simp [show ¬i < 52 by omega]

@[simp] theorem hasBit_pt32DirBaseAddrMask (i : Nat) :
    pt32DirBaseAddrMask.hasBit i = decide (22 ≤ i ∧ i < 64) := by
  unfold pt32DirBaseAddrMask
  rw [BitVec.hasBit_and, hasBit_pageMask, BitVec.hasBit_not, Bits.hasBit_lowMask (by decide)]
  by_cases h : 22 ≤ i ∧ i < 64
  · simp [h, show 12 ≤ i by omega]
  · by_cases h1 : i < 22
    · simp [h1]
    · simp [show ¬i < 64 by omega]

@[simp] theorem hasBit_pt64PageTableLevelMask (i : Nat) :
    pt64PageTableLevelMask.hasBit i = decide (12 ≤ i ∧ i < 21) := by
  unfold pt64PageTableLevelMask
  rw [BitVec.hasBit_shiftLeft, Bits.hasBit_lowMask (by decide)]
  by_cases h : 12 ≤ i ∧ i < 21
  · simp [h, show i < 64 by omega, show i - 12 < 9 by omega]
  · by_cases h1 : i < 12
    · simp [h1]
    · simp [show ¬i - 12 < 9 by omega, show ¬i < 21 by omega]

@[simp] theorem hasBit_pt32PageTableLevelMask (i : Nat) :
    pt32PageTableLevelMask.hasBit i = decide (12 ≤ i ∧ i < 22) := by
  unfold pt32PageTableLevelMask
  rw [BitVec.hasBit_shiftLeft, Bits.hasBit_lowMask (by decide)]
  by_cases h : 12 ≤ i ∧ i < 22
  · simp [h, show i < 64 by omega, show i - 12 < 10 by omega]
  · by_cases h1 : i < 12
    · simp [h1]
    · simp [show ¬i - 12 < 10 by omega, show ¬i < 22 by omega]

/-- The host page an entry points to. -/
def frameOf (e : BitVec 64) : Pfn := pfnOf (e &&& pt64BaseAddrMask)

theorem hasBit_frameOf (e : BitVec 64) (i : Nat) : (frameOf e).hasBit i = (decide (i < 40) && e.hasBit (12 + i)) := by
  unfold frameOf pfnOf
  rw [Bits.hasBit_field, BitVec.hasBit_and, hasBit_pt64BaseAddrMask]
  by_cases h : i < 40
  · simp [h, pageShift, show 12 + i < 52 by omega]
  · simp [h]

/-- The frame of an entry made of the address of a page and of flags outside the address field. -/
theorem frameOf_eq {e : BitVec 64} {p : Pfn} (h : ∀ i, 12 ≤ i → i < 52 → e.hasBit i = (hpaOf p).hasBit i) :
    frameOf e = p := by
  apply BitVec.eq_of_hasBit
  intro i hi
  rw [hasBit_frameOf, h (12 + i) (by omega) (by omega), hasBit_hpaOf]
  simp [hi, show 12 + i < 52 by omega, show 12 + i - 12 = i by omega]

theorem frameOf_congr {e e' : BitVec 64} (h : ∀ i, 12 ≤ i → i < 52 → e.hasBit i = e'.hasBit i) :
    frameOf e = frameOf e' := by
  apply BitVec.eq_of_hasBit
  intro i hi
  rw [hasBit_frameOf, hasBit_frameOf, h (12 + i) (by omega) (by omega)]

end LearnKvm
