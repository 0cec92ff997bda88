import LearnKvm.Mmu.Path
import LearnKvm.Mmu.Walk

/-!
# Entries of level one

`set_pte` and `set_pde` differ in the flags and in the guest address they pass to `set_pte_common`; `leafBase` and
`leafGaddr` are these two, as functions of the level at which the guest walk ended.  The entry that results is
`commonPte`, and its bits are read off with `LeafArgs`: which bits the flags, the access rights and the address can have
set at all.
-/

namespace LearnKvm

/-! ### What the memory slots give -/

/-- Marking a page changes a bitmap only. -/
theorem markPageDirty_frame (kvm : Kvm) (gfn : Nat) :
    markPageDirty kvm gfn = { kvm with bitmap := (markPageDirty kvm gfn).bitmap } := by
  unfold markPageDirty
  split
  · rfl
  · dsimp only
    split
    · rfl
    · split <;> rfl

/-- What is set after a page has been marked. -/
theorem bitmap_markPageDirty (kvm : Kvm) (gfn map nr : Nat) :
    (markPageDirty kvm gfn).bitmap map nr = true ↔ kvm.bitmap map nr = true ∨ ∃ i, gfnToMemslot kvm gfn = some i ∧
      (kvm.memslots i).dirtyBitmap ≠ 0 ∧ map = (kvm.memslots i).dirtyBitmap ∧ nr = gfn - (kvm.memslots i).baseGfn := by
  unfold markPageDirty
  cases hslot : gfnToMemslot kvm gfn with
  | none => simp
  | some i =>
    dsimp only
    split
    · rename_i h0
      simp [h0]
    · rename_i h0
      split
      · rename_i hset
        simp only [Option.some.injEq, exists_eq_left', iff_self_or]
        rintro ⟨-, rfl, rfl⟩
        exact hset
      · simp only [setBit, Option.some.injEq, exists_eq_left']
        split
        · rename_i heq
          simp [heq, h0]
        · rename_i hne
          simp only [iff_self_or]
          exact fun h => absurd ⟨h.2.1, h.2.2⟩ hne

theorem gfnToMemslot_congr {kvm kvm' : Kvm} (hn : kvm'.nmemslots = kvm.nmemslots) (hm : kvm'.memslots = kvm.memslots)
    (gfn : Nat) : gfnToMemslot kvm' gfn = gfnToMemslot kvm gfn := by
  unfold gfnToMemslot
  rw [hn, hm]

theorem gpaToHpa_congr {kvm kvm' : Kvm} (hn : kvm'.nmemslots = kvm.nmemslots) (hm : kvm'.memslots = kvm.memslots)
    (ha : kvm'.pageArray = kvm.pageArray) (gpa : BitVec 64) : gpaToHpa kvm' gpa = gpaToHpa kvm gpa := by
  unfold gpaToHpa gfnToPage
  rw [gfnToMemslot_congr hn hm, hm, ha]

@[simp] theorem gpaToHpa_markPageDirty (kvm : Kvm) (gfn : Nat) (gpa : BitVec 64) :
    gpaToHpa (markPageDirty kvm gfn) gpa = gpaToHpa kvm gpa := by
  rw [markPageDirty_frame]
  exact gpaToHpa_congr rfl rfl rfl gpa

@[simp] theorem gfnToMemslot_markPageDirty (kvm : Kvm) (gfn gfn' : Nat) :
    gfnToMemslot (markPageDirty kvm gfn) gfn' = gfnToMemslot kvm gfn' := by
  rw [markPageDirty_frame]
  exact gfnToMemslot_congr rfl rfl gfn'

/-- The bits of a page-aligned guest physical address in the address field of an entry. -/
def AddrBits (gaddr : BitVec 64) : Prop := ∀ i, gaddr.hasBit i = true → 12 ≤ i ∧ i < 52

theorem AddrBits.and_base {gaddr : BitVec 64} (h : AddrBits gaddr) : gaddr &&& pt64BaseAddrMask = gaddr := by
  apply BitVec.eq_of_hasBit
  intro i _
  rw [BitVec.hasBit_and, hasBit_pt64BaseAddrMask]
  by_cases hi : gaddr.hasBit i = true
  · have := h i hi
    simp [hi, this]
  · simp [hi]

/-- A page of the slots, or none when the address lies outside of them. -/
def gpaFrame (kvm : Kvm) (gpa : BitVec 64) : Option Pfn :=
  (gfnToMemslot kvm (gfnOf gpa)).map fun slot => gfnToPage kvm slot (gfnOf gpa)

theorem gpaToHpa_of_none {kvm : Kvm} {gpa : BitVec 64} (h : gpaFrame kvm gpa = none) :
    gpaToHpa kvm gpa = gpa ||| hpaErrMask := by
  unfold gpaFrame at h
  unfold gpaToHpa
  rw [Option.map_eq_none_iff.1 h]

theorem gpaToHpa_of_some {kvm : Kvm} {gpa : BitVec 64} {f : Pfn} (h : gpaFrame kvm gpa = some f) :
    gpaToHpa kvm gpa = hpaOf f ||| (gpa &&& (pageSize - 1#64)) := by
  obtain ⟨slot, hs, rfl⟩ := Option.map_eq_some_iff.1 h
  unfold gpaToHpa
  rw [hs]

theorem hasBit_hpaErrMask (i : Nat) : hpaErrMask.hasBit i = decide (i = 63) := Bits.hasBit_one_shiftLeft (by decide) i

/-- `gpa_to_hpa` fails exactly outside of the slots. -/
theorem isErrorHpa_gpaToHpa (kvm : Kvm) (gpa : BitVec 64) : isErrorHpa (gpaToHpa kvm gpa) = (gpaFrame kvm gpa).isNone := by
  unfold isErrorHpa
  cases h : gpaFrame kvm gpa with
  | none =>
    rw [gpaToHpa_of_none h, BitVec.hasBit_or, hasBit_hpaErrMask]
    simp
  | some f =>
    rw [gpaToHpa_of_some h, BitVec.hasBit_or, hasBit_hpaOf, BitVec.hasBit_and, hasBit_pageOffsetMask]
    simp

/-- The frame of the address that `gpa_to_hpa` gives. -/
theorem frameOf_gpaToHpa {kvm : Kvm} {gpa : BitVec 64} {f : Pfn} (h : gpaFrame kvm gpa = some f) :
    frameOf (gpaToHpa kvm gpa) = f := by
  rw [gpaToHpa_of_some h]
  refine frameOf_eq fun i h12 _ => ?_
  rw [BitVec.hasBit_or, BitVec.hasBit_and, hasBit_pageOffsetMask]
  simp [show ¬i < 12 by omega]

/-! ### The entry that `set_pte_common` writes -/

/-- The entry that `set_pte_common` leaves, `base` being the flags it finds there. -/
def commonPte (kvm : Kvm) (base gaddr : BitVec 64) (dirty : Bool) (accessBits : BitVec 64) : BitVec 64 :=
  let ent := base ||| accessBits <<< ptShadowBitsOffset |||
    (if dirty then accessBits else accessBits &&& ~~~ptWritableMask)
  let paddr := gpaToHpa kvm (gaddr &&& pt64BaseAddrMask)
  if isErrorHpa paddr then (ent ||| gaddr ||| ptShadowIoMark) &&& ~~~ptPresentMask else ent ||| paddr

/-- The bits that the arguments of `set_pte_common` can have. -/
structure LeafArgs (base gaddr accessBits : BitVec 64) : Prop where
  present : base.hasBit 0 = true
  flags : ∀ i, base.hasBit i = true → i < 9 ∧ i ≠ 1 ∧ i ≠ 2 ∨ i = 63
  addr : AddrBits gaddr
  rights : ∀ i, accessBits.hasBit i = true → i = 1 ∨ i = 2

namespace LeafArgs

variable {kvm : Kvm} {base gaddr ar : BitVec 64} (h : LeafArgs base gaddr ar) (dirty : Bool)
include h

theorem base_eq_false {i : Nat} (hi : ¬(i < 9 ∧ i ≠ 1 ∧ i ≠ 2 ∨ i = 63)) : base.hasBit i = false :=
  Bool.eq_false_iff.2 fun hb => hi (h.flags i hb)

theorem gaddr_eq_false {i : Nat} (hi : ¬(12 ≤ i ∧ i < 52)) : gaddr.hasBit i = false :=
  Bool.eq_false_iff.2 fun hb => hi (h.addr i hb)

theorem rights_eq_false {i : Nat} (hi : ¬(i = 1 ∨ i = 2)) : ar.hasBit i = false :=
  Bool.eq_false_iff.2 fun hb => hi (h.rights i hb)

/-- An entry for a page of the slots. -/
theorem commonPte_of_some {f : Pfn} (hf : gpaFrame kvm gaddr = some f) :
    commonPte kvm base gaddr dirty ar =
      base ||| ar <<< ptShadowBitsOffset ||| (if dirty then ar else ar &&& ~~~ptWritableMask) ||| hpaOf f := by
  have hoff : gaddr &&& (pageSize - 1#64) = 0 := by
    apply BitVec.eq_of_hasBit
    intro i _
    rw [BitVec.hasBit_and, hasBit_pageOffsetMask]
    by_cases hi : i < 12
    · simp [h.gaddr_eq_false (show ¬(12 ≤ i ∧ i < 52) by omega)]
    · simp [hi]
  unfold commonPte
  dsimp only
  rw [h.addr.and_base, if_neg (by simp [isErrorHpa_gpaToHpa, hf]), gpaToHpa_of_some hf, hoff]
  simp

/-- An entry for an address outside of the slots. -/
theorem commonPte_of_none (hf : gpaFrame kvm gaddr = none) :
    commonPte kvm base gaddr dirty ar =
      (base ||| ar <<< ptShadowBitsOffset ||| (if dirty then ar else ar &&& ~~~ptWritableMask) ||| gaddr |||
        ptShadowIoMark) &&& ~~~ptPresentMask := by
  unfold commonPte
  dsimp only
  rw [h.addr.and_base, if_pos (by simp [isErrorHpa_gpaToHpa, hf])]

/-- The flags of the entry, outside of the address field. -/
theorem hasBit_commonPte {i : Nat} (hi : i < 12 ∨ 52 ≤ i) :
    (commonPte kvm base gaddr dirty ar).hasBit i =
      if i = 0 then (gpaFrame kvm gaddr).isSome
      else if i = 1 then dirty && ar.hasBit 1
      else if i = 2 then ar.hasBit 2
      else if i = 9 then (gpaFrame kvm gaddr).isNone
      else if i = 10 then ar.hasBit 1
      else if i = 11 then ar.hasBit 2
      else base.hasBit i := by
  have hg := h.gaddr_eq_false (i := i) (by omega)
  have hshift : (ar <<< ptShadowBitsOffset).hasBit i =
      if i = 10 then ar.hasBit 1 else if i = 11 then ar.hasBit 2 else false := by
    rw [BitVec.hasBit_shiftLeft]
    unfold ptShadowBitsOffset
    split
    · rename_i h10
      simp [h10]
    · split
      · rename_i h11
        simp [h11]
      · by_cases h9 : i < 9
        · simp [h9]
        · simp [h.rights_eq_false (i := i - 9) (by omega)]
  have hrights : (if dirty then ar else ar &&& ~~~ptWritableMask).hasBit i =
      if i = 1 then dirty && ar.hasBit 1 else if i = 2 then ar.hasBit 2 else false := by
    by_cases h1 : i = 1
    · subst h1
      cases dirty <;> simp
    · by_cases h2 : i = 2
      · subst h2
        cases dirty <;> simp
      · have := h.rights_eq_false (i := i) (by omega)
        cases dirty <;> simp [this, h1, h2]
  have hbase : i = 1 ∨ i = 2 ∨ i = 9 ∨ i = 10 ∨ i = 11 → base.hasBit i = false := fun hi =>
    h.base_eq_false (by omega)
  cases hf : gpaFrame kvm gaddr with
  | none =>
    rw [h.commonPte_of_none dirty hf]
    simp only [BitVec.hasBit_and, BitVec.hasBit_or, BitVec.hasBit_not, hshift, hrights, hg, hasBit_ptShadowIoMark,
      hasBit_ptPresentMask]
    by_cases h64 : i < 64
    · grind
    · grind [BitVec.hasBit_of_ge]
  | some f =>
    have hframe : (hpaOf f).hasBit i = false := by
      rw [hasBit_hpaOf]
      simp
      omega
    rw [h.commonPte_of_some dirty hf]
    simp only [BitVec.hasBit_or, hshift, hrights, hframe]
    have := h.present
    grind

theorem frameOf_commonPte {f : Pfn} (hf : gpaFrame kvm gaddr = some f) :
    frameOf (commonPte kvm base gaddr dirty ar) = f := by
  rw [h.commonPte_of_some dirty hf]
  refine frameOf_eq fun i h12 h52 => ?_
  have h1 := h.base_eq_false (i := i) (by omega)
  have h2 := h.rights_eq_false (i := i) (by omega)
  have h3 := h.rights_eq_false (i := i - ptShadowBitsOffset) (by unfold ptShadowBitsOffset; omega)
  cases dirty <;> simp [h1, h2, h3]

theorem leafEntry_commonPte : LeafEntry (commonPte kvm base gaddr dirty ar) := by
  right
  rw [h.hasBit_commonPte dirty (i := 0) (by omega), h.hasBit_commonPte dirty (i := 9) (by omega)]
  cases hf : gpaFrame kvm gaddr <;> simp

end LeafArgs

/-- The header of a page after an entry for `gaddr` has been written into it. -/
def leafHeader (kvm : Kvm) (hd : KvmMmuPage) (gaddr : BitVec 64) (global : Bool) : KvmMmuPage :=
  { hd with
    global := hd.global && global
    slotBitmap := (gfnToMemslot kvm (gfnOf gaddr)).elim hd.slotBitmap fun slot =>
      hd.slotBitmap ||| 1#64 <<< slot.val }

/-- The state that `set_pte_common` leaves. -/
theorem setPteCommon_eq (s : Vcpu) (ptr : PtePtr) {gaddr ar : BitVec 64} (dirty : Bool)
    (h : LeafArgs (s.readPte ptr) gaddr ar) :
    setPteCommon s ptr gaddr dirty ar =
      { s with
        shadow := (s.writePte ptr (commonPte s.kvm (s.readPte ptr) gaddr dirty ar)).shadow
        kvm := if dirty && ar.hasBit 1 then markPageDirty s.kvm (gfnOf gaddr) else s.kvm
        header := fun p =>
          if p = ptr.page then leafHeader s.kvm (s.header p) gaddr ((s.readPte ptr).hasBit 8) else s.header p } := by
  have hw : ((if dirty then ar else ar &&& ~~~ptWritableMask) &&& ptWritableMask != 0) = (dirty && ar.hasBit 1) := by
    rw [and_ptWritableMask]
    cases dirty <;> simp
  have hg : ((s.readPte ptr ||| ar <<< ptShadowBitsOffset ||| (if dirty then ar else ar &&& ~~~ptWritableMask)) &&&
      ptGlobalMask != 0) = (s.readPte ptr).hasBit 8 := by
    have h8 := h.rights_eq_false (i := 8) (by decide)
    rw [and_ptGlobalMask]
    cases dirty <;> simp [ptShadowBitsOffset, h8]
  unfold setPteCommon commonPte
  dsimp only
  rw [hw, hg]
  generalize hm : (if dirty && ar.hasBit 1 then markPageDirty s.kvm (gfnOf gaddr) else s.kvm) = kvm
  have hhpa : ∀ gpa, gpaToHpa kvm gpa = gpaToHpa s.kvm gpa := by
    intro gpa
    rw [← hm]
    split
    · exact gpaToHpa_markPageDirty ..
    · rfl
  have hslot : gfnToMemslot kvm (gfnOf gaddr) = gfnToMemslot s.kvm (gfnOf gaddr) := by
    rw [← hm]
    split
    · exact gfnToMemslot_markPageDirty ..
    · rfl
  have hs : (if dirty && ar.hasBit 1 then { s with kvm := markPageDirty s.kvm (gfnOf gaddr) } else s) =
      { s with kvm := kvm } := by
    rw [← hm]
    split <;> rfl
  rw [hs, hhpa, h.addr.and_base]
  have hfr := isErrorHpa_gpaToHpa s.kvm gaddr
  have hmap : (gpaFrame s.kvm gaddr).isNone = (gfnToMemslot s.kvm (gfnOf gaddr)).isNone := by simp [gpaFrame]
  rw [hfr, hmap]
  unfold leafHeader
  cases hsl : gfnToMemslot s.kvm (gfnOf gaddr) with
  | none =>
    cases hb : (s.readPte ptr).hasBit 8 <;> simp [markPagetableNonglobal, Vcpu.writePte]
  | some slot =>
    rw [hsl] at hslot
    cases hb : (s.readPte ptr).hasBit 8
    · simp only [markPagetableNonglobal, Vcpu.writePte, pageHeaderUpdateSlot]
      simp
      grind
    · simp [pageHeaderUpdateSlot, Vcpu.writePte, hslot]

/-! ### What `set_pte` and `set_pde` pass on -/

variable (pt : PtType)

/-- The flags copied from the guest entry at which the walk ended. -/
def leafBase (level : Nat) (gent : BitVec 64) : BitVec 64 :=
  if level = 2 then (gent &&& pt.nonPteCopyMask) ||| ((gent &&& ptDirPatMask) >>> (12 - 7))
  else gent &&& pt.pteCopyMask

/-- The guest physical page that the entry maps at `va`. -/
def leafGaddr (level : Nat) (gent va : BitVec 64) : BitVec 64 :=
  if level = 2 then pdeGaddr pt gent (pt.index va 1) else gent &&& pt.baseAddrMask

/-- The guest physical page of `va`. -/
def guestGaddr (s : Vcpu) (va : BitVec 64) : BitVec 64 := leafGaddr pt (guestLevel pt s va) (guestPte pt s va 1) va

/-- The rights that the guest tables give at `va`. -/
def guestRights (s : Vcpu) (va : BitVec 64) : BitVec 64 :=
  (guestWalk pt s va 1).1.inheritedAr &&& guestPte pt s va 1

/-- The entry that `fetch` installs at `va`. -/
def leafPte (s : Vcpu) (va : BitVec 64) : BitVec 64 :=
  commonPte s.kvm (leafBase pt (guestLevel pt s va) (guestPte pt s va 1)) (guestGaddr pt s va)
    ((guestPte pt s va 1).hasBit 6) (guestRights pt s va)

/-- The state after `fetch` has installed the entry of `va`. -/
def installLeaf (s : Vcpu) (va : BitVec 64) (ptr : PtePtr) : Vcpu :=
  { s with
    shadow := (s.writePte ptr (leafPte pt s va)).shadow
    kvm := if (guestPte pt s va 1).hasBit 6 && (guestRights pt s va).hasBit 1
      then markPageDirty s.kvm (gfnOf (guestGaddr pt s va)) else s.kvm
    header := fun p =>
      if p = ptr.page then leafHeader s.kvm (s.header p) (guestGaddr pt s va)
        ((leafBase pt (guestLevel pt s va) (guestPte pt s va 1)).hasBit 8)
      else s.header p }

variable {pt}

/-- The low address bits below the page of a large page. -/
theorem pageSize_mul_index (va : BitVec 64) :
    pageSize * BitVec.ofNat 64 (pt.index va 1) = va &&& pt.pageTableLevelMask := by
  have hmul : ∀ n, pageSize * BitVec.ofNat 64 n = BitVec.ofNat 64 n <<< 12 := fun n => by
    rw [BitVec.shiftLeft_eq_mul_twoPow, BitVec.mul_comm]
    rfl
  have hfield : ∀ len (x : BitVec len) i, len ≤ 64 → (BitVec.ofNat 64 x.toNat).hasBit i = x.hasBit i := by
    intro len x i hlen
    rw [BitVec.ofNat_toNat, BitVec.hasBit_setWidth]
    by_cases hi : i < 64
    · simp [hi]
    · simp [hi, BitVec.hasBit_of_ge x (show len ≤ i by omega)]
  rw [hmul]
  apply BitVec.eq_of_hasBit
  intro i hi
  rw [BitVec.hasBit_shiftLeft, BitVec.hasBit_and]
  cases pt
  · show _ = (va.hasBit i && pt32PageTableLevelMask.hasBit i)
    rw [show PtType.index .pt32 va 1 = (Bits.field (pt32LevelShift 1) 10 va).toNat from rfl, hfield _ _ _ (by decide),
      Bits.hasBit_field, hasBit_pt32PageTableLevelMask]
    by_cases h12 : i < 12
    · simp [h12]
    · simp only [hi, h12, pt32LevelShift, show 12 + (1 - 1) * 10 + (i - 12) = i by omega]
      simp [show (i - 12 < 10) = (i < 22) by simp; omega, show 12 ≤ i by omega, Bool.and_comm]
  · show _ = (va.hasBit i && pt64PageTableLevelMask.hasBit i)
    rw [show PtType.index .pt64 va 1 = (Bits.field (pt64LevelShift 1) 9 va).toNat from rfl, hfield _ _ _ (by decide),
      Bits.hasBit_field, hasBit_pt64PageTableLevelMask]
    by_cases h12 : i < 12
    · simp [h12]
    · simp only [hi, h12, pt64LevelShift, show 12 + (1 - 1) * 9 + (i - 12) = i by omega]
      simp [show (i - 12 < 9) = (i < 21) by simp; omega, show 12 ≤ i by omega, Bool.and_comm]

theorem pdeGaddr_eq (gent va : BitVec 64) :
    pdeGaddr pt gent (pt.index va 1) =
      if pt = .pt32 then (gent &&& pt.dirBaseAddrMask) ||| (va &&& pt.pageTableLevelMask) |||
        (gent &&& pt32DirPse36Mask) <<< (32 - 13)
      else (gent &&& pt.dirBaseAddrMask) ||| (va &&& pt.pageTableLevelMask) := by
  have hadd : (gent &&& pt.dirBaseAddrMask) + (va &&& pt.pageTableLevelMask) =
      (gent &&& pt.dirBaseAddrMask) ||| (va &&& pt.pageTableLevelMask) := by
    refine BitVec.add_eq_or_of_and_eq_zero _ _ ?_
    apply BitVec.eq_of_hasBit
    intro i _
    cases pt
    · simp [PtType.dirBaseAddrMask, PtType.pageTableLevelMask]
      omega
    · simp [PtType.dirBaseAddrMask, PtType.pageTableLevelMask]
      omega
  unfold pdeGaddr
  rw [pageSize_mul_index, hadd]

/-- A guest entry has the bits of its format. -/
def EntryBits (pt : PtType) (gent : BitVec 64) : Prop := ∀ i, gent.hasBit i = true → i < 8 * pt.bytes

theorem entryBits_readEntry (s : Vcpu) (a : BitVec 64) : EntryBits pt (readEntry pt s a) := by
  intro i hi
  unfold readEntry at hi
  rw [ByteMem.hasBit_load] at hi
  simp only [Bool.and_eq_true, decide_eq_true_eq] at hi
  exact hi.1.2

theorem addrBits_leafGaddr (level : Nat) {gent : BitVec 64} (hg : EntryBits pt gent) (va : BitVec 64) :
    AddrBits (leafGaddr pt level gent va) := by
  intro i hi
  unfold leafGaddr at hi
  rw [pdeGaddr_eq] at hi
  cases pt
  · have h32 : ∀ j, gent.hasBit j = true → j < 32 := fun j hj => hg j hj
    split at hi
    · simp [PtType.dirBaseAddrMask, PtType.pageTableLevelMask] at hi
      rcases hi with (⟨h, hlo, -⟩ | ⟨-, h⟩) | ⟨⟨hi', -⟩, h, h'⟩
      · have := h32 i h
        omega
      · omega
      · omega
    · simp [PtType.baseAddrMask] at hi
      have := h32 i hi.1
      omega
  · split at hi
    · simp [PtType.dirBaseAddrMask, PtType.pageTableLevelMask] at hi
      omega
    · simp [PtType.baseAddrMask] at hi
      omega

theorem leafArgs (s : Vcpu) (va : BitVec 64) (hp : (guestPte pt s va 1).hasBit 0 = true) :
    LeafArgs (leafBase pt (guestLevel pt s va) (guestPte pt s va 1)) (guestGaddr pt s va) (guestRights pt s va) where
  present := by
    unfold leafBase
    cases pt <;> split <;>
      simp [hp, PtType.nonPteCopyMask, PtType.pteCopyMask, pt32NonPteCopyMask, pt32PteCopyMask, pt64NonPteCopyMask,
        pt64PteCopyMask]
  flags i hi := by
    unfold leafBase at hi
    cases pt <;> split at hi <;>
      simp [PtType.nonPteCopyMask, PtType.pteCopyMask, pt32NonPteCopyMask, pt32PteCopyMask, pt64NonPteCopyMask,
        pt64PteCopyMask] at hi <;> omega
  addr := addrBits_leafGaddr _ (entryBits_readEntry s _) va
  rights i hi := by
    unfold guestRights at hi
    rw [BitVec.hasBit_and, Bool.and_eq_true] at hi
    exact (ok_fetchGuest s (@ok_initWalker pt s) 1 va).1.rights i hi.1

/-- `set_pte` and `set_pde` on an empty entry install the entry of the address. -/
theorem set_eq_installLeaf {s : Vcpu} {va : BitVec 64} {ptr : PtePtr} (hz : s.readPte ptr = 0)
    (hp : (guestPte pt s va 1).hasBit 0 = true) :
    (if guestLevel pt s va = 2 then
      setPde pt s (guestPte pt s va 1) ptr (guestWalk pt s va 1).1.inheritedAr (pt.index va 1)
    else setPte pt s (guestPte pt s va 1) ptr (guestWalk pt s va 1).1.inheritedAr) = installLeaf pt s va ptr := by
  have hargs := leafArgs s va hp
  have hassert : ∀ site, s.assert site (s.readPte ptr == 0) = s := fun site => by simp [Vcpu.assert, hz]
  have hcommon := fun h => @setPteCommon_eq (s.writePte ptr (leafBase pt (guestLevel pt s va) (guestPte pt s va 1))) ptr
    (guestGaddr pt s va) (guestRights pt s va) ((guestPte pt s va 1).hasBit 6) h
  rw [Vcpu.readPte_writePte_self] at hcommon
  have hwrite : ∀ e e' : BitVec 64, ((s.writePte ptr e').writePte ptr e).shadow = (s.writePte ptr e).shadow := by
    intro e e'
    funext p i
    simp only [Vcpu.shadow_writePte]
    split <;> rfl
  have hinst : setPteCommon (s.writePte ptr (leafBase pt (guestLevel pt s va) (guestPte pt s va 1))) ptr
      (guestGaddr pt s va) ((guestPte pt s va 1).hasBit 6) (guestRights pt s va) = installLeaf pt s va ptr := by
    rw [hcommon hargs, hwrite]
    rfl
  rw [← hinst]
  unfold guestGaddr leafBase leafGaddr guestRights setPde setPte
  rw [hassert, hassert, and_ptDirtyMask]
  dsimp only
  split <;> rfl

theorem gfnOf_congr {a b : BitVec 64} (h : ∀ i, 12 ≤ i → i < 64 → a.hasBit i = b.hasBit i) : gfnOf a = gfnOf b := by
  unfold gfnOf pageShift
  congr 1
  apply BitVec.eq_of_hasBit
  intro i hi
  rw [BitVec.hasBit_ushiftRight, BitVec.hasBit_ushiftRight]
  by_cases h64 : 12 + i < 64
  · exact h (12 + i) (by omega) h64
  · rw [BitVec.hasBit_of_ge _ (by omega), BitVec.hasBit_of_ge _ (by omega)]

theorem gpaFrame_congr {kvm : Kvm} {a b : BitVec 64} (h : gfnOf a = gfnOf b) : gpaFrame kvm a = gpaFrame kvm b := by
  unfold gpaFrame
  rw [h]

theorem gfnOf_lt_of_addrBits {a : BitVec 64} (h : AddrBits a) : gfnOf a < 2 ^ 40 := by
  unfold gfnOf pageShift
  refine Nat.lt_pow_two_of_testBit _ fun i hi => ?_
  have hbit : (a >>> 12).hasBit i = a.hasBit (12 + i) := BitVec.hasBit_ushiftRight ..
  exact hbit.trans (Bool.eq_false_iff.2 fun h12 => by have := (h _ h12).2; omega)

/-- `gva_to_gpa` and `fetch` compute the same guest page. -/
theorem gfnOf_gvaToGpa {s : Vcpu} {va : BitVec 64} (hp : (guestPte pt s va 1).hasBit 0 = true) :
    gfnOf (gvaToGpa pt s va) = gfnOf (guestGaddr pt s va) := by
  have hgva : gvaToGpa pt s va =
      if guestLevel pt s va = 2 then
        (if pt = .pt32 then ((guestPte pt s va 1 &&& pt.dirBaseAddrMask) |||
            (va &&& (pt.pageTableLevelMask ||| ~~~pageMask))) |||
            (guestPte pt s va 1 &&& pt32DirPse36Mask) <<< (32 - 13)
          else (guestPte pt s va 1 &&& pt.dirBaseAddrMask) ||| (va &&& (pt.pageTableLevelMask ||| ~~~pageMask)))
      else (guestPte pt s va 1 &&& pt.baseAddrMask) ||| (va &&& ~~~pageMask) := by
    unfold gvaToGpa
    change (if !isPresentPte (guestPte pt s va 1) then _ else _) = _
    rw [isPresentPte_eq, hp]
    rfl
  rw [hgva]
  unfold guestGaddr leafGaddr
  rw [pdeGaddr_eq]
  apply gfnOf_congr
  intro i h12 hi
  split
  · split <;> simp [h12, hi]
  · simp [h12, hi]

end LearnKvm
