import LearnKvm.ControlRegisters
import LearnKvm.Mmu.GuestPhysical

/-!
# The page-directory pointers of CR3

In PAE paging CR3 holds the address of four page-directory pointers, a multiple of 32.  The walker adds bits 5 to 11 of
CR3 to its table as a byte offset.  `pdptrs_have_reserved_bits_set` shifts them down by five and uses the result as an
index of 8-byte entries, so it looks at entries `o` to `o + 3` where the table has its pointers at `4 * o` to `4 * o + 3`;
and it maps the page without asking whether there is one.  The two agree exactly when the table starts its page and the
page lies in a slot (`pdptrsChecked_iff`).
-/

namespace LearnKvm

variable {s : Vcpu} {cr3 : BitVec 64} {i : Nat}

/-- The page-directory pointer `i` of the table at CR3. -/
def pdpteAt (s : Vcpu) (cr3 : BitVec 64) (i : Nat) : BitVec 64 :=
  ByteMem.load (guestPhys s) ((cr3 &&& ~~~31#64) + BitVec.ofNat 64 (8 * i)) 8

/-- The reserved bits of a page-directory pointer, with 36 bits of physical address. -/
def PdpteReserved (i : Nat) : Prop := i = 1 ∨ i = 2 ∨ 5 ≤ i ∧ i ≤ 8 ∨ 36 ≤ i ∧ i < 64

instance (i : Nat) : Decidable (PdpteReserved i) :=
  inferInstanceAs (Decidable (i = 1 ∨ i = 2 ∨ 5 ≤ i ∧ i ≤ 8 ∨ 36 ≤ i ∧ i < 64))

/-- A present pointer with a reserved bit. -/
def PdpteFaulty (pdpte : BitVec 64) : Prop := pdpte.hasBit 0 = true ∧ ∃ i, PdpteReserved i ∧ pdpte.hasBit i = true

/-- The vcpu with this CR3 in PAE paging. -/
def withPaeCr3 (s : Vcpu) (cr3 : BitVec 64) : Vcpu := { s with cr3 := cr3, mmu := { s.mmu with rootLevel := 3 } }

/-- The check of the pointers at CR3 is right. -/
structure PdptrsChecked (s : Vcpu) (cr3 : BitVec 64) : Prop where
  /-- There is a verdict, and it is the one on the four pointers of the table. -/
  verdict : ∃ b, pdptrsHaveReservedBitsSet s cr3 = some b ∧ (b = true ↔ ∃ i < 4, PdpteFaulty (pdpteAt s cr3 i))
  /-- They are the pointers that a walk goes through. -/
  walker : ∀ va : BitVec 64, va.toNat < 2 ^ 32 →
    guestPte .pt64 (withPaeCr3 s cr3) va 3 = pdpteAt s cr3 (va.toNat / 2 ^ 30)
  /-- Memory outside of the page that is mapped has no influence. -/
  inside : ∀ mem : ByteMem.Mem 64, (∀ a, a &&& pageMask = kmapAtomic (safeGpaToHpa s cr3) → mem a = s.mem a) →
    pdptrsHaveReservedBitsSet { s with mem := mem } cr3 = pdptrsHaveReservedBitsSet s cr3

/-- The table starts a page of a slot, and the walker, which ignores the bits of CR3 from 52 on, maps the same page. -/
structure PdptAtPageStart (s : Vcpu) (cr3 : BitVec 64) : Prop where
  slot : (gfnToMemslot s.kvm (gfnOf cr3)).isSome = true
  page : kmapAtomic (safeGpaToHpa s (cr3 &&& pt64BaseAddrMask)) = kmapAtomic (safeGpaToHpa s cr3)
  start : cr3 &&& 0xfe0#64 = 0

/-! ### Where the table lies -/

theorem hasBit_pdptOffsetMask (i : Nat) : (0xfe0#64).hasBit i = decide (5 ≤ i ∧ i < 12) := by
  have hlow : ∀ i < 64, (0xfe0#64).hasBit i = decide (5 ≤ i ∧ i < 12) := by decide
  by_cases hi : i < 64
  · exact hlow i hi
  · rw [BitVec.hasBit_of_ge _ (by omega)]
    simp
    omega

/-- The index that the check computes. -/
def pdptIndex (cr3 : BitVec 64) : Nat := ((cr3 &&& (pageSize - 1#64)) >>> 5).toNat

theorem pdptIndex_lt (cr3 : BitVec 64) : pdptIndex cr3 < 128 := by
  have h := toNat_and_pageOffset cr3
  unfold pdptIndex
  rw [BitVec.toNat_ushiftRight, h, Nat.shiftRight_eq_div_pow]
  omega

/-- The byte offset of the walker is 32 times this index. -/
theorem toNat_pdptOffset (cr3 : BitVec 64) : (cr3 &&& 0xfe0#64).toNat = 32 * pdptIndex cr3 := by
  apply Nat.eq_of_testBit_eq
  intro i
  have hl : (cr3 &&& 0xfe0#64).toNat.testBit i = (cr3 &&& 0xfe0#64).hasBit i := rfl
  have hr : (pdptIndex cr3).testBit (i - 5) = ((cr3 &&& (pageSize - 1#64)) >>> 5).hasBit (i - 5) := rfl
  rw [hl, show (32 : Nat) = 2 ^ 5 from rfl, Nat.mul_comm, Nat.testBit_mul_two_pow, hr, BitVec.hasBit_and,
    hasBit_pdptOffsetMask, BitVec.hasBit_ushiftRight, BitVec.hasBit_and, hasBit_pageOffsetMask]
  by_cases h5 : 5 ≤ i
  · simp [h5, show 5 + (i - 5) = i by omega]
  · simp [h5]

theorem aligned_and_pageMask (a : BitVec 64) : ByteMem.Aligned 4096 (a &&& pageMask) := by
  unfold ByteMem.Aligned
  rw [toNat_and_pageMask]
  omega

theorem gfnOf_and_pageMask (a : BitVec 64) : gfnOf (a &&& pageMask) = gfnOf a := by
  rw [gfnOf_eq, gfnOf_eq, toNat_and_pageMask]
  omega

theorem pdptBase_eq (cr3 : BitVec 64) :
    cr3 &&& ~~~31#64 = (cr3 &&& pageMask) + BitVec.ofNat 64 (32 * pdptIndex cr3) := by
  have h31 : ∀ i < 64, (~~~31#64).hasBit i = decide (5 ≤ i) := by decide
  have hdisj : (cr3 &&& pageMask) &&& (cr3 &&& 0xfe0#64) = 0#64 := by
    apply BitVec.eq_of_hasBit
    intro i _
    simp only [BitVec.hasBit_and, hasBit_pageMask, hasBit_pdptOffsetMask, BitVec.hasBit_zero]
    by_cases h12 : i < 12
    · simp [show ¬12 ≤ i by omega]
    · simp [h12]
  rw [← toNat_pdptOffset, BitVec.ofNat_toNat, BitVec.setWidth_eq, BitVec.add_eq_or_of_and_eq_zero _ _ hdisj]
  apply BitVec.eq_of_hasBit
  intro i hi
  rw [BitVec.hasBit_and, h31 i hi, BitVec.hasBit_or, BitVec.hasBit_and, BitVec.hasBit_and, hasBit_pageMask,
    hasBit_pdptOffsetMask, ← Bool.and_or_distrib_left, ← Bool.decide_or]
  congr 1
  exact decide_eq_decide.2 (by omega)

/-- In a page of a slot, the pointers lie at the walker's offset. -/
theorem pdpteAt_eq {f : Pfn} (hf : gpaFrame s.kvm cr3 = some f) (hi : i < 4) :
    pdpteAt s cr3 i = ByteMem.load s.mem (hpaOf f + BitVec.ofNat 64 (32 * pdptIndex cr3 + 8 * i)) 8 := by
  have hbase : gpaFrame s.kvm (cr3 &&& pageMask) = some f := by
    rw [← hf]
    unfold gpaFrame
    rw [gfnOf_and_pageMask]
  have hlt := pdptIndex_lt cr3
  unfold pdpteAt
  rw [pdptBase_eq, ByteMem.add_ofNat]
  exact load_guestPhys_of_some hbase (aligned_and_pageMask cr3) (by omega)

/-- The entry through which the walk of an address goes. -/
theorem guestPte_withPaeCr3 (s : Vcpu) (cr3 : BitVec 64) {va : BitVec 64} (hva : va.toNat < 2 ^ 32) :
    guestPte .pt64 (withPaeCr3 s cr3) va 3 =
      ByteMem.load s.mem (kmapAtomic (safeGpaToHpa s (cr3 &&& pt64BaseAddrMask)) +
        BitVec.ofNat 64 (32 * pdptIndex cr3 + 8 * (va.toNat / 2 ^ 30))) 8 := by
  have htable : (initWalker (withPaeCr3 s cr3)).table.toNat =
      (pfnOf (safeGpaToHpa s (cr3 &&& pt64BaseAddrMask))).toNat * 4096 + rootOffset (withPaeCr3 s cr3) :=
    (tableAt_initWalker (withPaeCr3 s cr3)).2
  have hroot : rootOffset (withPaeCr3 s cr3) = 32 * pdptIndex cr3 := toNat_pdptOffset cr3
  have hkmap : (kmapAtomic (safeGpaToHpa s (cr3 &&& pt64BaseAddrMask))).toNat = _ := toNat_hpaOf _
  have hstart : (initWalker (withPaeCr3 s cr3)).table =
      kmapAtomic (safeGpaToHpa s (cr3 &&& pt64BaseAddrMask)) + BitVec.ofNat 64 (32 * pdptIndex cr3) := by
    have hp := (pfnOf (safeGpaToHpa s (cr3 &&& pt64BaseAddrMask))).isLt
    apply BitVec.eq_of_toNat_eq
    rw [htable, hroot, BitVec.toNat_add, hkmap, BitVec.toNat_ofNat]
    have := pdptIndex_lt cr3
    omega
  have hindex : PtType.pt64.index va 3 = va.toNat / 2 ^ 30 := by
    change (va.toNat >>> 30) % 2 ^ 9 = _
    rw [Nat.shiftRight_eq_div_pow]
    omega
  have hent : (guestWalk .pt64 (withPaeCr3 s cr3) va 3).2 =
      entryAddr .pt64 (initWalker (withPaeCr3 s cr3)).table (PtType.pt64.index va 3) := by
    change (fetchGuestLoop .pt64 (withPaeCr3 s cr3) 3 va 3 _ _ _).2 = _
    unfold fetchGuestLoop
    simp
  unfold guestPte
  rw [hent, hstart, hindex]
  unfold readEntry entryAddr
  rw [ByteMem.add_ofNat, Nat.mul_comm _ PtType.pt64.bytes]
  rfl

/-! ### The check -/

theorem pdpteTest_iff (pdpte : BitVec 64) :
    (pdpte &&& 1#64 != 0 && pdpte &&& 0xfffffff0000001e6#64 != 0) = true ↔ PdpteFaulty pdpte := by
  have h0 : ∀ i < 64, (1#64).hasBit i = decide (i = 0) := by decide
  have hmask : ∀ i < 64, (0xfffffff0000001e6#64).hasBit i = decide (PdpteReserved i) := by decide
  rw [Bool.and_eq_true, bne_iff_ne, bne_iff_ne]
  refine and_congr ?_ ?_
  · have hbit := Bits.and_one_shiftLeft_bne_zero (n := 0) (by decide) pdpte
    rw [← bne_iff_ne]
    exact Bool.eq_iff_iff.1 hbit
  · rw [show (0 : BitVec 64) = 0#64 from rfl, BitVec.ne_zero_iff_hasBit]
    refine exists_congr fun i => ?_
    rw [BitVec.hasBit_and, Bool.and_eq_true, and_comm]
    by_cases hi : i < 64
    · rw [hmask i hi, decide_eq_true_eq]
    · simp [BitVec.hasBit_of_ge pdpte (show 64 ≤ i by omega)]

/-- The entries that the check looks at. -/
theorem pdptrsHaveReservedBitsSet_of_some {f : Pfn} (hf : gpaFrame s.kvm cr3 = some f) :
    ∃ b, pdptrsHaveReservedBitsSet s cr3 = some b ∧ (b = true ↔ ∃ i < 4, PdpteFaulty
      (ByteMem.load s.mem (hpaOf f + BitVec.ofNat 64 (8 * (pdptIndex cr3 + i))) 8)) := by
  obtain ⟨slot, hslot, rfl⟩ := Option.map_eq_some_iff.1 hf
  unfold pdptrsHaveReservedBitsSet
  dsimp only
  rw [hslot]
  refine ⟨_, rfl, ?_⟩
  rw [List.any_eq_true]
  refine exists_congr fun i => ?_
  rw [List.mem_range]
  refine and_congr Iff.rfl ?_
  rw [pdpteTest_iff]
  unfold readEntry entryAddr
  rw [Nat.mul_comm]
  rfl

theorem hpaOf_add_and_pageMask (p : Pfn) {off : Nat} (h : off < 4096) :
    (hpaOf p + BitVec.ofNat 64 off) &&& pageMask = hpaOf p :=
  (and_pageMask_eq_iff (toNat_hpaOf_add p h)).2 h

/-- The entries that are read lie in the page. -/
theorem pdptrsHaveReservedBitsSet_inside {f : Pfn} (hf : gpaFrame s.kvm cr3 = some f) {mem : ByteMem.Mem 64}
    (hmem : ∀ a, a &&& pageMask = hpaOf f → mem a = s.mem a) :
    pdptrsHaveReservedBitsSet { s with mem := mem } cr3 = pdptrsHaveReservedBitsSet s cr3 := by
  obtain ⟨b, hb, hiff⟩ := pdptrsHaveReservedBitsSet_of_some hf
  obtain ⟨b', hb', hiff'⟩ := pdptrsHaveReservedBitsSet_of_some (s := { s with mem := mem }) hf
  have hload : ∀ i < 4, ByteMem.load mem (hpaOf f + BitVec.ofNat 64 (8 * (pdptIndex cr3 + i))) 8 =
      ByteMem.load s.mem (hpaOf f + BitVec.ofNat 64 (8 * (pdptIndex cr3 + i))) 8 := by
    intro i hi
    refine ByteMem.load_congr fun j hj => hmem _ ?_
    have := pdptIndex_lt cr3
    rw [ByteMem.add_ofNat]
    exact hpaOf_add_and_pageMask f (by omega)
  have hsame : b' = true ↔ b = true := by
    rw [hiff, hiff']
    refine exists_congr fun i => and_congr_right fun hi => ?_
    rw [← hload i hi]
  rw [hb, hb', Bool.eq_iff_iff.2 hsame]

/-- Where the table starts its page, the check is right. -/
theorem PdptAtPageStart.pdptrsChecked (h : PdptAtPageStart s cr3) : PdptrsChecked s cr3 := by
  obtain ⟨slot, hslot⟩ := Option.isSome_iff_exists.1 h.slot
  have hf : gpaFrame s.kvm cr3 = some (gfnToPage s.kvm slot (gfnOf cr3)) := by
    unfold gpaFrame
    rw [hslot, Option.map_some]
  have hpage : kmapAtomic (safeGpaToHpa s cr3) = hpaOf (gfnToPage s.kvm slot (gfnOf cr3)) := by
    rw [kmapAtomic_safeGpaToHpa, hf, Option.getD_some]
  have hzero : pdptIndex cr3 = 0 := by
    have h32 := toNat_pdptOffset cr3
    rw [h.start] at h32
    have : (0 : BitVec 64).toNat = 0 := rfl
    omega
  constructor
  · obtain ⟨b, hb, hiff⟩ := pdptrsHaveReservedBitsSet_of_some hf
    refine ⟨b, hb, hiff.trans ?_⟩
    refine exists_congr fun i => and_congr_right fun hi => ?_
    rw [pdpteAt_eq hf hi, hzero, Nat.mul_zero, Nat.zero_add, Nat.zero_add]
  · intro va hva
    rw [guestPte_withPaeCr3 s cr3 hva, h.page, hpage, pdpteAt_eq hf (by omega)]
  · intro mem hmem
    rw [hpage] at hmem
    exact pdptrsHaveReservedBitsSet_inside hf hmem

/-! ### When it goes wrong -/

/-- A walker that maps another page reads another table. -/
theorem page_of_pdptrsChecked {f : Pfn} (hf : gpaFrame s.kvm cr3 = some f)
    (hall : ∀ mem, PdptrsChecked { s with mem := mem } cr3) :
    kmapAtomic (safeGpaToHpa s (cr3 &&& pt64BaseAddrMask)) = hpaOf f := by
  by_contra hne
  -- all ones, except in the page of the table
  let mem : ByteMem.Mem 64 := fun a => if a &&& pageMask = hpaOf f then 0 else 255#8
  have hwalk := (hall mem).walker 0#64 (by decide)
  rw [guestPte_withPaeCr3 _ cr3 (by decide), pdpteAt_eq (s := { s with mem := mem }) hf (by decide)] at hwalk
  have hlt := pdptIndex_lt cr3
  have hzero : ByteMem.load mem (hpaOf f + BitVec.ofNat 64 (32 * pdptIndex cr3 + 8 * ((0#64).toNat / 2 ^ 30))) 8 = 0 := by
    refine ByteMem.load_eq_zero fun j hj => if_pos ?_
    rw [ByteMem.add_ofNat]
    exact hpaOf_add_and_pageMask f (by simp; omega)
  have hone : (ByteMem.load mem (kmapAtomic (safeGpaToHpa s (cr3 &&& pt64BaseAddrMask)) +
      BitVec.ofNat 64 (32 * pdptIndex cr3 + 8 * ((0#64).toNat / 2 ^ 30))) 8).hasBit 0 = true := by
    have hff : mem (kmapAtomic (safeGpaToHpa s (cr3 &&& pt64BaseAddrMask)) +
        BitVec.ofNat 64 (32 * pdptIndex cr3 + 8 * ((0#64).toNat / 2 ^ 30) + 0 / 8)) = 255#8 := by
      refine if_neg fun heq => hne (Eq.trans ?_ heq)
      exact (hpaOf_add_and_pageMask _ (by simp; omega)).symm
    rw [ByteMem.hasBit_load, ByteMem.add_ofNat, hff]
    decide
  have hbit := congrArg (BitVec.hasBit · 0) (hwalk.trans hzero)
  exact Bool.noConfusion (hone.symm.trans hbit)

/-- The last pointer of a table that does not start its page is not looked at. -/
theorem start_of_pdptrsChecked {f : Pfn} (hf : gpaFrame s.kvm cr3 = some f)
    (hall : ∀ mem, PdptrsChecked { s with mem := mem } cr3) : cr3 &&& 0xfe0#64 = 0 := by
  by_contra hne
  have hlt := pdptIndex_lt cr3
  have hpos : 1 ≤ pdptIndex cr3 := by
    by_contra h0
    refine hne (BitVec.eq_of_toNat_eq ?_)
    rw [toNat_pdptOffset]
    simp
    omega
  -- only the last pointer of the table is present, and it has reserved bit 1
  let mem : ByteMem.Mem 64 := fun a => if a = hpaOf f + BitVec.ofNat 64 (32 * pdptIndex cr3 + 24) then 3#8 else 0
  obtain ⟨b, hb, hspec⟩ := (hall mem).verdict
  obtain ⟨b', hb', hcode⟩ := pdptrsHaveReservedBitsSet_of_some (s := { s with mem := mem }) hf
  obtain rfl : b = b' := Option.some.inj (hb.symm.trans hb')
  have hbit : ∀ i < 8, (ByteMem.load mem (hpaOf f + BitVec.ofNat 64 (32 * pdptIndex cr3 + 8 * 3)) 8).hasBit i =
      (3#8).hasBit i := by
    intro i hi
    rw [ByteMem.hasBit_load, ByteMem.add_ofNat, Nat.div_eq_of_lt hi, Nat.add_zero, Nat.mod_eq_of_lt hi]
    simp only [mem, Nat.reduceMul, if_true, show i < 64 by omega, decide_true, Bool.true_and]
  have htrue : b = true := by
    refine hspec.2 ⟨3, by decide, ?_, 1, by decide, ?_⟩
    · rw [pdpteAt_eq (s := { s with mem := mem }) hf (by decide), hbit 0 (by decide)]
      rfl
    · rw [pdpteAt_eq (s := { s with mem := mem }) hf (by decide), hbit 1 (by decide)]
      rfl
  obtain ⟨i, hi, hpresent, -⟩ := hcode.1 htrue
  have hzero : ByteMem.load mem (hpaOf f + BitVec.ofNat 64 (8 * (pdptIndex cr3 + i))) 8 = 0 := by
    refine ByteMem.load_eq_zero fun j hj => if_neg fun heq => ?_
    rw [ByteMem.add_ofNat] at heq
    have hval := congrArg BitVec.toNat ((BitVec.add_right_inj _).1 heq)
    rw [BitVec.toNat_ofNat, BitVec.toNat_ofNat, Nat.mod_eq_of_lt (by omega), Nat.mod_eq_of_lt (by omega)] at hval
    omega
  change (ByteMem.load mem _ 8).hasBit 0 = true at hpresent
  rw [hzero] at hpresent
  cases hpresent

/-- The check is right, whatever the guest has in its memory, exactly when the table starts a page of a slot. -/
theorem pdptrsChecked_iff (s : Vcpu) (cr3 : BitVec 64) :
    (∀ mem, PdptrsChecked { s with mem := mem } cr3) ↔ PdptAtPageStart s cr3 := by
  constructor
  · intro hall
    obtain ⟨b, hb, -⟩ := (hall s.mem).verdict
    cases hslot : gfnToMemslot s.kvm (gfnOf cr3) with
    | none =>
      unfold pdptrsHaveReservedBitsSet at hb
      dsimp only at hb
      rw [hslot] at hb
      cases hb
    | some slot =>
      have hf : gpaFrame s.kvm cr3 = some (gfnToPage s.kvm slot (gfnOf cr3)) := by
        unfold gpaFrame
        rw [hslot, Option.map_some]
      refine ⟨by rw [hslot]; rfl, ?_, start_of_pdptrsChecked hf hall⟩
      rw [page_of_pdptrsChecked hf hall, kmapAtomic_safeGpaToHpa, hf, Option.getD_some]
  · exact fun h mem => PdptAtPageStart.pdptrsChecked ⟨h.slot, h.page, h.start⟩

/-- A guest with one page, which holds the pointers 0, 0, 0 and 3 at address 32. -/
def pdptGuest : Vcpu :=
  { (default : Vcpu) with
    kvm := { (default : Kvm) with
      nmemslots := 1
      memslots := fun _ => { baseGfn := 0, npages := 1, flags := 0, physMem := 0, dirtyBitmap := 0 } }
    mem := fun a => if a = 0x38#64 then 3#8 else 0
    badPage := 1 }

theorem pdptGuest_not_checked : ¬PdptrsChecked pdptGuest 0x20#64 := by
  intro h
  obtain ⟨b, hb, hiff⟩ := h.verdict
  obtain rfl : b = false := Option.some.inj (hb.symm.trans (by decide))
  have hspec : PdpteFaulty (pdpteAt pdptGuest 0x20#64 3) := ⟨by decide, 1, by decide, by decide⟩
  exact Bool.noConfusion (hiff.2 ⟨3, by decide, hspec⟩)

end LearnKvm
