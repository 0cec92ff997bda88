import LearnKvm.GuestMemory
import LearnKvm.Mmu.GuestPhysical

/-!
# Address translation (`mmu.c`)

`gva_to_hpa` fails in two ways, when the guest does not map the address and when no slot has its page.  `gvaFrame` joins
both: the frame of the host behind a guest-virtual address, if there is one.  It depends on the page of the address only
(`gvaFrame_congr`), and writes to memory change it only through the guest's paging entries (`mmuGvaToGpa_setMem`).
-/

namespace LearnKvm

variable {pt : PtType} {s : Vcpu} {a b : BitVec 64}

/-- The frame of the host that backs the page of a guest-virtual address. -/
def gvaFrame (s : Vcpu) (gva : BitVec 64) : Option Pfn :=
  if mmuGvaToGpa s gva = unmappedGva then none else gpaFrame s.kvm (mmuGvaToGpa s gva)

/-- No slot has the last page of the address space. -/
def LastPageUnbacked (kvm : Kvm) : Prop := ∀ i, (kvm.memslots i).contains (gfnOf unmappedGva) = false

/-- The addresses lie in one page. -/
def SamePage (a b : BitVec 64) : Prop := ∀ i, 12 ≤ i → a.hasBit i = b.hasBit i

/-! ### Addresses of one page -/

theorem restOfPage_eq (addr : BitVec 64) : restOfPage addr = 4096 - addr.toNat % 4096 := by
  have hmask : ~~~pageMask = pageSize - 1#64 := BitVec.not_not
  unfold restOfPage
  rw [hmask, toNat_and_pageOffset]
  rfl

theorem samePage_of_toNat (h : a.toNat / 4096 = b.toNat / 4096) : SamePage a b := by
  intro i hi
  have hbit : ∀ x : BitVec 64, x.hasBit i = (x.toNat / 2 ^ 12).testBit (i - 12) := fun x => by
    rw [Nat.testBit_div_two_pow, Nat.sub_add_cancel hi]
    rfl
  rw [hbit, hbit]
  exact congrArg (Nat.testBit · (i - 12)) h

theorem toNat_add_of_lt_restOfPage {j : Nat} (h : j < restOfPage a) : (a + BitVec.ofNat 64 j).toNat = a.toNat + j := by
  have ha := a.isLt
  rw [restOfPage_eq] at h
  rw [BitVec.toNat_add, BitVec.toNat_ofNat]
  omega

theorem samePage_add {j : Nat} (h : j < restOfPage a) : SamePage a (a + BitVec.ofNat 64 j) := by
  have hsum := toNat_add_of_lt_restOfPage h
  rw [restOfPage_eq] at h
  exact samePage_of_toNat (by omega)

theorem SamePage.gfnOf_eq (h : SamePage a b) : gfnOf a = gfnOf b := gfnOf_congr fun i hi _ => h i hi

theorem SamePage.index_eq (h : SamePage a b) (level : Nat) : pt.index a level = pt.index b level := by
  cases pt
  · have h32 : pt32Index a level = pt32Index b level := by
      unfold pt32Index pt32LevelShift
      rw [Bits.field_congr fun i hi _ => h i (by omega)]
    exact congrArg Fin.val h32
  · have h64 : pt64Index a level = pt64Index b level := by
      unfold pt64Index pt64LevelShift
      rw [Bits.field_congr fun i hi _ => h i (by omega)]
    exact congrArg Fin.val h64

theorem SamePage.guestWalk_eq (h : SamePage a b) (s : Vcpu) : guestWalk pt s a 1 = guestWalk pt s b 1 := by
  by_cases hroot : 1 ≤ s.mmu.rootLevel
  · exact guestWalk_congr s le_rfl hroot fun k _ _ => h.index_eq k
  · have hzero : (initWalker s).level = 0 := Nat.eq_zero_of_not_pos hroot
    unfold guestWalk fetchGuest
    rw [hzero]
    rfl

theorem SamePage.gfnOf_guestGaddr (h : SamePage a b) (s : Vcpu) :
    gfnOf (guestGaddr pt s a) = gfnOf (guestGaddr pt s b) := by
  have hwalk : guestWalk pt s a 1 = guestWalk pt s b 1 := h.guestWalk_eq s
  unfold guestGaddr leafGaddr guestLevel guestPte
  rw [hwalk]
  split
  · rw [h.index_eq 1]
  · rfl

/-! ### The frame of an address -/

theorem gvaToGpa_of_not_present (h : (guestPte pt s a 1).hasBit 0 = false) : gvaToGpa pt s a = unmappedGva := by
  unfold gvaToGpa
  change (if !isPresentPte (guestPte pt s a 1) then _ else _) = _
  rw [isPresentPte_eq, h]
  rfl

/-- A mapped address lies below the last page. -/
theorem gvaToGpa_of_present (h : (guestPte pt s a 1).hasBit 0 = true) : gvaToGpa pt s a ≠ unmappedGva := by
  intro hun
  have hlt := gfnOf_lt_of_addrBits (leafArgs s a h).addr
  rw [← gfnOf_gvaToGpa h, hun] at hlt
  exact absurd hlt (by decide)

theorem gvaToGpa_offset (h : (guestPte pt s a 1).hasBit 0 = true) :
    gvaToGpa pt s a &&& (pageSize - 1#64) = a &&& (pageSize - 1#64) := by
  unfold gvaToGpa
  change (if !isPresentPte (guestPte pt s a 1) then _ else _) &&& _ = _
  rw [isPresentPte_eq, h]
  change (if guestLevel pt s a = 2 then _ else _) &&& _ = _
  apply BitVec.eq_of_hasBit
  intro i _
  rw [BitVec.hasBit_and, BitVec.hasBit_and, hasBit_pageOffsetMask]
  by_cases hi : i < 12
  · cases pt <;> split <;>
      simp [hi, PtType.dirBaseAddrMask, PtType.baseAddrMask, PtType.pageTableLevelMask, show i < 64 by omega,
        show ¬12 ≤ i by omega, show ¬21 ≤ i by omega, show ¬22 ≤ i by omega, show i < 19 by omega]
  · simp [hi]

theorem present_of_gvaToGpa (h : gvaToGpa pt s a ≠ unmappedGva) : (guestPte pt s a 1).hasBit 0 = true := by
  by_contra hp
  exact h (gvaToGpa_of_not_present (Bool.eq_false_iff.2 hp))

/-- The offset in the page is not translated. -/
theorem mmuGvaToGpa_offset (h : mmuGvaToGpa s a ≠ unmappedGva) :
    mmuGvaToGpa s a &&& (pageSize - 1#64) = a &&& (pageSize - 1#64) := by
  unfold mmuGvaToGpa at h ⊢
  cases hops : s.mmu.ops with
  | nonpaging => rfl
  | paging64 =>
    rw [hops] at h
    exact gvaToGpa_offset (present_of_gvaToGpa h)
  | paging32 =>
    rw [hops] at h
    exact gvaToGpa_offset (present_of_gvaToGpa h)

theorem isErrorHpa_gvaToHpa (s : Vcpu) (gva : BitVec 64) : isErrorHpa (gvaToHpa s gva) = (gvaFrame s gva).isNone := by
  unfold gvaToHpa gvaFrame
  dsimp only
  split
  · rfl
  · exact isErrorHpa_gpaToHpa ..

theorem gvaMapped_iff : GvaMapped s a ↔ ∃ f, gvaFrame s a = some f := by
  unfold GvaMapped
  rw [isErrorHpa_gvaToHpa]
  cases gvaFrame s a <;> simp

theorem gvaToHpa_of_some {f : Pfn} (h : gvaFrame s a = some f) : gvaToHpa s a = hpaOf f ||| (a &&& (pageSize - 1#64)) := by
  unfold gvaFrame at h
  unfold gvaToHpa
  dsimp only
  split at h
  · cases h
  · rename_i hmapped
    rw [if_neg hmapped, gpaToHpa_of_some h, mmuGvaToGpa_offset hmapped]

theorem gvaFrame_paging (hgva : ∀ x, mmuGvaToGpa s x = gvaToGpa pt s x) (h : SamePage a b) :
    gvaFrame s a = gvaFrame s b := by
  have hwalk : guestWalk pt s a 1 = guestWalk pt s b 1 := h.guestWalk_eq s
  have hpte : guestPte pt s a 1 = guestPte pt s b 1 := by
    unfold guestPte
    rw [hwalk]
  unfold gvaFrame
  rw [hgva, hgva]
  cases hp : (guestPte pt s a 1).hasBit 0 with
  | false => rw [gvaToGpa_of_not_present hp, gvaToGpa_of_not_present (hpte ▸ hp)]
  | true =>
    have hpb : (guestPte pt s b 1).hasBit 0 = true := hpte ▸ hp
    rw [if_neg (gvaToGpa_of_present hp), if_neg (gvaToGpa_of_present hpb)]
    refine gpaFrame_congr ?_
    rw [gfnOf_gvaToGpa hp, gfnOf_gvaToGpa hpb, h.gfnOf_guestGaddr]

theorem LastPageUnbacked.gpaFrame {kvm : Kvm} (h : LastPageUnbacked kvm) : gpaFrame kvm unmappedGva = none := by
  have hnone : gfnToMemslot kvm (gfnOf unmappedGva) = none := List.find?_eq_none.2 fun i _ => by simp [h i]
  unfold LearnKvm.gpaFrame
  rw [hnone]
  rfl

/-- The frame depends on the page of the address only. -/
theorem gvaFrame_congr (hlast : LastPageUnbacked s.kvm) (h : SamePage a b) : gvaFrame s a = gvaFrame s b := by
  cases hops : s.mmu.ops with
  | paging64 =>
    have hgva : ∀ x, mmuGvaToGpa s x = gvaToGpa .pt64 s x := fun x => by
      unfold mmuGvaToGpa
      rw [hops]
    exact gvaFrame_paging hgva h
  | paging32 =>
    have hgva : ∀ x, mmuGvaToGpa s x = gvaToGpa .pt32 s x := fun x => by
      unfold mmuGvaToGpa
      rw [hops]
    exact gvaFrame_paging hgva h
  | nonpaging =>
    -- the address that looks unmapped lies in the last page, which has no frame anyway
    have hframe : ∀ x, gvaFrame s x = gpaFrame s.kvm x := fun x => by
      have hgva : mmuGvaToGpa s x = x := by
        unfold mmuGvaToGpa
        rw [hops]
      unfold gvaFrame
      rw [hgva]
      split
      · rename_i hx
        rw [hx, hlast.gpaFrame]
      · rfl
    rw [hframe, hframe, gpaFrame_congr h.gfnOf_eq]

/-! ### Addresses of the host -/

theorem hpaOf_or_offset (f : Pfn) (a : BitVec 64) :
    hpaOf f ||| (a &&& (pageSize - 1#64)) = hpaOf f + (a &&& (pageSize - 1#64)) := by
  refine (BitVec.add_eq_or_of_and_eq_zero _ _ (BitVec.eq_of_hasBit fun i _ => ?_)).symm
  rw [BitVec.hasBit_and, hasBit_hpaOf, BitVec.hasBit_and, hasBit_pageOffsetMask, BitVec.hasBit_zero]
  by_cases hi : i < 12
  · simp [show ¬12 ≤ i by omega]
  · simp [hi]

theorem pfnOf_gvaToHpa {f : Pfn} (h : gvaFrame s a = some f) : pfnOf (gvaToHpa s a) = f := by
  rw [gvaToHpa_of_some h, pfnOf_hpaOf_or]

/-- The byte that is reached through the mapping of the page is the one that the address translates to. -/
theorem guestBuf_gvaToHpa {f : Pfn} (h : gvaFrame s a = some f) : guestBuf (gvaToHpa s a) a = gvaToHpa s a := by
  have hmask : ~~~pageMask = pageSize - 1#64 := BitVec.not_not
  unfold guestBuf
  rw [pfnOf_gvaToHpa h, hmask, gvaToHpa_of_some h]

/-- Within a page, addresses translate to consecutive bytes. -/
theorem gvaToHpa_add (hlast : LastPageUnbacked s.kvm) {f : Pfn} (h : gvaFrame s a = some f) {j : Nat}
    (hj : j < restOfPage a) : gvaToHpa s (a + BitVec.ofNat 64 j) = gvaToHpa s a + BitVec.ofNat 64 j := by
  have hframe : gvaFrame s (a + BitVec.ofNat 64 j) = some f := (gvaFrame_congr hlast (samePage_add hj)).symm.trans h
  have hsum := toNat_add_of_lt_restOfPage hj
  rw [restOfPage_eq] at hj
  have hoff : (a + BitVec.ofNat 64 j) &&& (pageSize - 1#64) = (a &&& (pageSize - 1#64)) + BitVec.ofNat 64 j := by
    apply BitVec.eq_of_toNat_eq
    rw [toNat_and_pageOffset, hsum, BitVec.toNat_add, toNat_and_pageOffset, BitVec.toNat_ofNat]
    omega
  rw [gvaToHpa_of_some hframe, gvaToHpa_of_some h, hpaOf_or_offset, hpaOf_or_offset, hoff, BitVec.add_assoc]

/-! ### Writes to memory -/

variable (pt) in
/-- The addresses of the guest entries that the walk of an address reads. -/
def walkEntries (s : Vcpu) (va : BitVec 64) : List (BitVec 64) :=
  (guestWalk pt s va 1).2 :: (guestWalk pt s va 1).1.visited.map Visit.ent

/-- The byte belongs to a guest paging entry that the translation of the address uses. -/
def PagingByte (s : Vcpu) (va x : BitVec 64) : Prop :=
  s.mmu.ops ≠ .nonpaging ∧ ∃ e ∈ walkEntries s.mmu.ops.ptType s va, ∃ k < s.mmu.ops.ptType.bytes, x = e + BitVec.ofNat 64 k

theorem gvaToGpa_setMem {mem : ByteMem.Mem 64}
    (h : ∀ e ∈ walkEntries pt s a, ∀ k < pt.bytes, mem (e + BitVec.ofNat 64 k) = s.mem (e + BitVec.ofNat 64 k)) :
    gvaToGpa pt { s with mem := mem } a = gvaToGpa pt s a := by
  have hread : ∀ e ∈ walkEntries pt s a, readEntry pt { s with mem := mem } e = readEntry pt s e := fun e he =>
    ByteMem.load_congr (h e he)
  have hwalk : guestWalk pt { s with mem := mem } a 1 = guestWalk pt s a 1 :=
    (@fetchGuestLoop_entries pt s { s with mem := mem } rfl rfl (fun _ => rfl) _ a _ _ _ _ fun v hv =>
      hread _ (List.mem_cons_of_mem _ (List.mem_map_of_mem hv))).1
  have hpte : guestPte pt { s with mem := mem } a 1 = guestPte pt s a 1 := by
    unfold guestPte
    rw [hwalk]
    exact hread _ List.mem_cons_self
  unfold guestWalk at hwalk
  unfold guestPte guestWalk at hpte
  unfold gvaToGpa
  rw [hwalk] at hpte ⊢
  dsimp only
  rw [hpte]

/-- Memory that agrees on the paging entries translates an address alike. -/
theorem mmuGvaToGpa_setMem {mem : ByteMem.Mem 64} (h : ∀ x, PagingByte s a x → mem x = s.mem x) :
    mmuGvaToGpa { s with mem := mem } a = mmuGvaToGpa s a := by
  unfold mmuGvaToGpa
  unfold PagingByte at h
  cases hops : s.mmu.ops with
  | nonpaging => rfl
  | paging64 =>
    rw [hops] at h
    exact gvaToGpa_setMem fun e he k hk => h _ ⟨by decide, e, he, k, hk, rfl⟩
  | paging32 =>
    rw [hops] at h
    exact gvaToGpa_setMem fun e he k hk => h _ ⟨by decide, e, he, k, hk, rfl⟩

theorem gvaToHpa_setMem {mem : ByteMem.Mem 64} (h : ∀ x, PagingByte s a x → mem x = s.mem x) :
    gvaToHpa { s with mem := mem } a = gvaToHpa s a := by
  unfold gvaToHpa
  rw [mmuGvaToGpa_setMem h]

end LearnKvm
