import LearnKvm.Lib.PageWalk
import LearnKvm.Pdptrs
import LearnKvm.Translation

/-!
# Guest translation and the architecture

`gva_to_gpa` walks the guest's tables through mappings of single pages, and tells the formats apart by the level at which
a walk starts and by the size of an entry.  On the memory of the guest it is the page walk of the architecture
(`walk_agrees`), up to the root table: `init_walker` or-s the bits 5 to 11 of CR3 into its pointer and takes the page from
the bits 12 to 51 in every mode, and some of these bits are not part of the address of the root table.
-/

namespace LearnKvm

open PageWalk

variable {s : Vcpu} {fmt : Format} {va e : BitVec 64} {level : Nat}

/-- The tables that the control registers select. -/
def formatOf (v : Vmcs) : Format := if isLongMode v then .long else if isPae v then .pae else .legacy (isPse v)

/-- The copy of the template that walks tables of a format. -/
def ptTypeOf : Format → PtType
  | .legacy _ => .pt32
  | .pae => .pt64
  | .long => .pt64

/-- The result of `gva_to_gpa` reports the outcome of a walk; what it does at a reserved bit is left open. -/
def Reports (r : BitVec 64) : PageWalk.Outcome → Prop
  | .mapped gpa => r = gpa ∧ gpa ≠ unmappedGva
  | .notPresent => r = unmappedGva
  | .reserved => True

/-- An address is translated as the architecture does it. -/
def TranslatesAsWalk (s : Vcpu) (va : BitVec 64) : Prop :=
  Reports (mmuGvaToGpa s va) ((formatOf s.vmcs).translate (guestPhys s) va s.cr3)

/-! ### One entry -/

theorem entrySize_eq (fmt : Format) : fmt.entrySize = (ptTypeOf fmt).bytes := by cases fmt <;> rfl

theorem baseAddrMask_eq (he : ∀ i, e.hasBit i = true → i < 8 * fmt.entrySize) :
    e &&& (ptTypeOf fmt).baseAddrMask = fmt.base e := by
  apply BitVec.eq_of_hasBit
  intro i hi
  cases fmt with
  | legacy pse =>
    have h32 : e.hasBit i = true → i < 32 := he i
    rw [ptTypeOf, PtType.baseAddrMask, Format.base, BitVec.hasBit_and, hasBit_pt32BaseAddrMask, hasBit_bits, Bool.and_comm]
    by_cases h : i < 32
    · simp [h, hi]
    · rw [Bool.eq_false_iff.2 fun hb => h (h32 hb)]
      simp
  | pae =>
    rw [ptTypeOf, PtType.baseAddrMask, Format.base, BitVec.hasBit_and, hasBit_pt64BaseAddrMask, hasBit_bits, Bool.and_comm]
  | long =>
    rw [ptTypeOf, PtType.baseAddrMask, Format.base, BitVec.hasBit_and, hasBit_pt64BaseAddrMask, hasBit_bits, Bool.and_comm]

theorem isLargePde_eq (hfmt : fmt = .legacy (isPse s.vmcs) ∨ fmt = .pae ∨ fmt = .long) (level : Nat) (e : BitVec 64) :
    isLargePde (ptTypeOf fmt) s level e = fmt.isLarge level e := by
  unfold isLargePde Format.isLarge
  rw [and_ptPageSizeMask]
  rcases hfmt with rfl | rfl | rfl
  · cases isPse s.vmcs <;> simp [ptTypeOf]
  · simp [ptTypeOf]
  · simp [ptTypeOf]

/-- What `gva_to_gpa` returns for the entry at which the walk ends. -/
def gpaOfEntry (pt : PtType) (level : Nat) (e va : BitVec 64) : BitVec 64 :=
  if level = 2 then
    let gpa := (e &&& pt.dirBaseAddrMask) ||| (va &&& (pt.pageTableLevelMask ||| ~~~pageMask))
    if pt = .pt32 then gpa ||| (e &&& pt32DirPse36Mask) <<< (32 - 13) else gpa
  else (e &&& pt.baseAddrMask) ||| (va &&& ~~~pageMask)

theorem gpaOfEntry_page (hl : level ≠ 2) (he : ∀ i, e.hasBit i = true → i < 8 * fmt.entrySize) :
    gpaOfEntry (ptTypeOf fmt) level e va = fmt.base e ||| bits 0 12 va := by
  unfold gpaOfEntry
  rw [if_neg hl, baseAddrMask_eq he]
  congr 1
  apply BitVec.eq_of_hasBit
  intro i _
  rw [BitVec.hasBit_and, hasBit_not_pageMask, hasBit_bits, Bool.and_comm]
  simp

theorem gpaOfEntry_large (he : ∀ i, e.hasBit i = true → i < 8 * fmt.entrySize) :
    gpaOfEntry (ptTypeOf fmt) 2 e va = fmt.largeAddr e va := by
  unfold gpaOfEntry
  rw [if_pos rfl]
  apply BitVec.eq_of_hasBit
  intro i hi
  cases fmt with
  | legacy pse =>
    have h32 : e.hasBit i = true → i < 32 := he i
    simp only [ptTypeOf, PtType.dirBaseAddrMask, PtType.pageTableLevelMask, Format.largeAddr, if_true, BitVec.hasBit_or,
      BitVec.hasBit_and, BitVec.hasBit_shiftLeft, hasBit_pt32DirBaseAddrMask, hasBit_pt32PageTableLevelMask,
      hasBit_not_pageMask, hasBit_pt32DirPse36Mask, hasBit_bits]
    grind
  | pae =>
    simp only [ptTypeOf, PtType.dirBaseAddrMask, PtType.pageTableLevelMask, Format.largeAddr, BitVec.hasBit_or,
      BitVec.hasBit_and, hasBit_pt64DirBaseAddrMask, hasBit_pt64PageTableLevelMask, hasBit_not_pageMask, hasBit_bits,
      reduceCtorEq, if_false]
    grind
  | long =>
    simp only [ptTypeOf, PtType.dirBaseAddrMask, PtType.pageTableLevelMask, Format.largeAddr, BitVec.hasBit_or,
      BitVec.hasBit_and, hasBit_pt64DirBaseAddrMask, hasBit_pt64PageTableLevelMask, hasBit_not_pageMask, hasBit_bits,
      reduceCtorEq, if_false]
    grind

/-! ### The walk -/

theorem index_eq (hva : fmt.Legal va) (h1 : 1 ≤ level) (hle : level ≤ fmt.levels) :
    (ptTypeOf fmt).index va level = fmt.index level va := by
  cases fmt with
  | legacy pse => rfl
  | long => rfl
  | pae =>
    by_cases h3 : level = 3
    · -- above bit 31 the address has no bits
      subst h3
      have hlt : va.toNat < 2 ^ 32 := hva
      change (va.toNat >>> 30) % 2 ^ 9 = (va.toNat >>> 30) % 2 ^ 2
      rw [Nat.shiftRight_eq_div_pow]
      omega
    · unfold Format.index
      rw [show Format.indexBits .pae level = 9 from if_neg h3]
      rfl

/-- The walker stands at a table that the guest has at an address, as far as the entry of `va` goes. -/
def StandsAt (fmt : Format) (s : Vcpu) (va : BitVec 64) (level : Nat) (table addr : BitVec 64) : Prop :=
  readEntry (ptTypeOf fmt) s (entryAddr (ptTypeOf fmt) table ((ptTypeOf fmt).index va level)) =
    fmt.entry (guestPhys s) va level addr

theorem aligned_base (fmt : Format) (e : BitVec 64) : ByteMem.Aligned 4096 (fmt.base e) := by
  have hmask : fmt.base e &&& pageMask = fmt.base e := by
    apply BitVec.eq_of_hasBit
    intro i hi
    rw [BitVec.hasBit_and, hasBit_pageMask]
    cases hb : (fmt.base e).hasBit i with
    | false => rfl
    | true => simp [(Format.lt_of_hasBit_base hb).1, hi]
  rw [← hmask]
  exact aligned_and_pageMask _

/-- The walker goes down to the table that the guest has there. -/
theorem standsAt_kmapAtomic (hbad : BadPageZero s) (hva : fmt.Legal va) (h1 : 1 ≤ level) (hle : level ≤ fmt.levels)
    (e : BitVec 64) : StandsAt fmt s va level (kmapAtomic (safeGpaToHpa s (fmt.base e))) (fmt.base e) := by
  have hlt := index_lt (ptTypeOf fmt) va level
  unfold StandsAt readEntry entryAddr Format.entry
  rw [index_eq hva h1 hle] at hlt ⊢
  rw [← entrySize_eq] at hlt ⊢
  rw [Nat.mul_comm (fmt.index level va)]
  exact load_kmapAtomic hbad (aligned_base fmt e) hlt

/-- A mapped address is not the one that stands for a failure. -/
theorem mapped_ne_unmappedGva {mem : ByteMem.Mem 64} {addr gpa : BitVec 64}
    (h : fmt.walk mem va (level + 1) addr = .mapped gpa) : gpa ≠ unmappedGva := by
  rintro rfl
  exact absurd (Format.lt_of_walk_mapped h (show unmappedGva.hasBit 63 = true by decide)) (by decide)

/-- The answer for an entry at which both walks end. -/
theorem reports_entry {mem : ByteMem.Mem 64} {addr r : BitVec 64} (hr : fmt.walk mem va (level + 1) addr = .mapped r) :
    Reports r (fmt.walk mem va (level + 1) addr) := by
  rw [hr]
  exact ⟨rfl, mapped_ne_unmappedGva hr⟩

/-- The walker ends at an entry of the level asked for, one that is not present or one of a large page. -/
theorem fetchGuestLoop_ends {pt : PtType} {n : Nat} {table ar : BitVec 64} {visited : List Visit}
    (he : readEntry pt s (entryAddr pt table (pt.index va (n + 1))) = e)
    (h : n = 0 ∨ e.hasBit 0 = false ∨ isLargePde pt s (n + 1) e = true) :
    readEntry pt s (fetchGuestLoop pt s 1 va (n + 1) table ar visited).2 = e ∧
      (fetchGuestLoop pt s 1 va (n + 1) table ar visited).1.level = n + 1 := by
  have hstop : (1 = n + 1 || !isPresentPte e || isLargePde pt s (n + 1) e) = true := by
    rcases h with rfl | h | h
    · simp
    · simp [h]
    · simp [h]
  unfold fetchGuestLoop
  dsimp only
  rw [he, if_pos hstop]
  exact ⟨he, rfl⟩

theorem fetchGuestLoop_goesDown {pt : PtType} {n : Nat} {table : BitVec 64}
    (he : readEntry pt s (entryAddr pt table (pt.index va (n + 2))) = e) (hp : e.hasBit 0 = true)
    (hl : isLargePde pt s (n + 2) e = false) (ar : BitVec 64) (visited : List Visit) :
    ∃ ar' visited', fetchGuestLoop pt s 1 va (n + 2) table ar visited =
      fetchGuestLoop pt s 1 va (n + 1) (kmapAtomic (safeGpaToHpa s (e &&& pt.baseAddrMask))) ar' visited' := by
  have hgo : ¬(1 = n + 2 || !isPresentPte e || isLargePde pt s (n + 2) e) = true := by simp [hp, hl]
  rw [fetchGuestLoop]
  dsimp only
  rw [he, if_neg hgo]
  exact ⟨_, _, rfl⟩

/-- The address that `gva_to_gpa` computes at the end of a walk. -/
def gpaOfWalk (pt : PtType) (s : Vcpu) (va : BitVec 64) (w : GuestWalker × BitVec 64) : BitVec 64 :=
  if !isPresentPte (readEntry pt s w.2) then unmappedGva else gpaOfEntry pt w.1.level (readEntry pt s w.2) va

theorem reports_of_notPresent {n : Nat} {table addr : BitVec 64} (hat : StandsAt fmt s va (n + 1) table addr)
    (hp : (fmt.entry (guestPhys s) va (n + 1) addr).hasBit 0 = false) (ar : BitVec 64) (visited : List Visit) :
    Reports (gpaOfWalk (ptTypeOf fmt) s va (fetchGuestLoop (ptTypeOf fmt) s 1 va (n + 1) table ar visited))
      (fmt.walk (guestPhys s) va (n + 1) addr) := by
  obtain ⟨hread, -⟩ := @fetchGuestLoop_ends s va _ _ n table ar visited hat (Or.inr (Or.inl hp))
  unfold gpaOfWalk
  rw [hread, isPresentPte_eq, hp, Format.walk_of_notPresent hp]
  rfl

/-- From a table on, the walk of the module is that of the architecture. -/
theorem walk_agrees (hbad : BadPageZero s) (hfmt : fmt = .legacy (isPse s.vmcs) ∨ fmt = .pae ∨ fmt = .long)
    (hva : fmt.Legal va) {n : Nat} (hn : n + 1 ≤ fmt.levels) {table addr : BitVec 64}
    (hat : StandsAt fmt s va (n + 1) table addr) (ar : BitVec 64) (visited : List Visit) :
    Reports (gpaOfWalk (ptTypeOf fmt) s va (fetchGuestLoop (ptTypeOf fmt) s 1 va (n + 1) table ar visited))
      (fmt.walk (guestPhys s) va (n + 1) addr) := by
  induction n generalizing table addr ar visited with
  | zero =>
    have hbits : ∀ i, (fmt.entry (guestPhys s) va 1 addr).hasBit i = true → i < 8 * fmt.entrySize :=
      fun i => Format.lt_of_hasBit_entry
    cases hp : (fmt.entry (guestPhys s) va 1 addr).hasBit 0 with
    | false => exact reports_of_notPresent hat hp ar visited
    | true =>
      cases hres : fmt.hasReserved 1 (fmt.entry (guestPhys s) va 1 addr) with
      | true =>
        rw [Format.walk_of_reserved hp hres]
        trivial
      | false =>
        have hwalk : fmt.walk (guestPhys s) va 1 addr =
            .mapped (fmt.base (fmt.entry (guestPhys s) va 1 addr) ||| bits 0 12 va) :=
          Format.walk_of_passes ⟨hp, hres, rfl⟩
        obtain ⟨hread, hlevel⟩ := @fetchGuestLoop_ends s va _ _ 0 table ar visited hat (Or.inl rfl)
        unfold gpaOfWalk
        rw [hread, hlevel, isPresentPte_eq, hp, gpaOfEntry_page (by decide) hbits]
        exact reports_entry hwalk
  | succ n ih =>
    have hbits : ∀ i, (fmt.entry (guestPhys s) va (n + 2) addr).hasBit i = true → i < 8 * fmt.entrySize :=
      fun i => Format.lt_of_hasBit_entry
    have hlarge := @isLargePde_eq s fmt hfmt (n + 2) (fmt.entry (guestPhys s) va (n + 2) addr)
    cases hp : (fmt.entry (guestPhys s) va (n + 2) addr).hasBit 0 with
    | false => exact reports_of_notPresent hat hp ar visited
    | true =>
      cases hres : fmt.hasReserved (n + 2) (fmt.entry (guestPhys s) va (n + 2) addr) with
      | true =>
        rw [Format.walk_of_reserved hp hres]
        trivial
      | false =>
        cases hl : fmt.isLarge (n + 2) (fmt.entry (guestPhys s) va (n + 2) addr) with
        | true =>
          obtain rfl : n = 0 := by
            have := Format.eq_two_of_isLarge hl
            omega
          obtain ⟨hread, hlevel⟩ := @fetchGuestLoop_ends s va _ _ 1 table ar visited hat
            (Or.inr (Or.inr (hlarge.trans hl)))
          unfold gpaOfWalk
          rw [hread, hlevel, isPresentPte_eq, hp, gpaOfEntry_large hbits]
          exact reports_entry (Format.walk_of_isLarge hp hres hl)
        | false =>
          obtain ⟨ar', visited', hgo⟩ := fetchGuestLoop_goesDown hat hp (hlarge.trans hl) ar visited
          rw [hgo, Format.walk_of_passes ⟨hp, hres, hl⟩, baseAddrMask_eq hbits]
          exact ih (by omega) (standsAt_kmapAtomic hbad hva (by omega) (by omega) _) ar' visited'

/-! ### The root -/

/-- The walker starts in the page of bits 12 to 51 of CR3, at the offset of bits 5 to 11. -/
theorem initWalker_table (s : Vcpu) : (initWalker s).table =
    kmapAtomic (safeGpaToHpa s (s.cr3 &&& pt64BaseAddrMask)) + BitVec.ofNat 64 (rootOffset s) := by
  obtain ⟨hoff, htable⟩ := tableAt_initWalker s
  have hkmap : (kmapAtomic (safeGpaToHpa s (s.cr3 &&& pt64BaseAddrMask))).toNat = _ := toNat_hpaOf _
  have hp := (pfnOf (safeGpaToHpa s (s.cr3 &&& pt64BaseAddrMask))).isLt
  apply BitVec.eq_of_toNat_eq
  rw [htable, BitVec.toNat_add, hkmap, BitVec.toNat_ofNat]
  omega

/-- Without the bits that the format ignores, CR3 gives the table that the walker starts at. -/
theorem root_eq {cr3 : BitVec 64} (h : fmt.RootOnly cr3) :
    fmt.root cr3 = (cr3 &&& pt64BaseAddrMask) + (cr3 &&& 0xfe0#64) := by
  have hdisj : (cr3 &&& pt64BaseAddrMask) &&& (cr3 &&& 0xfe0#64) = 0#64 := by
    apply BitVec.eq_of_hasBit
    intro i _
    simp only [BitVec.hasBit_and, hasBit_pt64BaseAddrMask, hasBit_pdptOffsetMask, BitVec.hasBit_zero]
    grind
  rw [BitVec.add_eq_or_of_and_eq_zero _ _ hdisj]
  apply BitVec.eq_of_hasBit
  intro i _
  have hi := h i
  rw [BitVec.hasBit_or, BitVec.hasBit_and, BitVec.hasBit_and, hasBit_pt64BaseAddrMask, hasBit_pdptOffsetMask]
  cases fmt with
  | legacy _ =>
    rw [Format.IsIgnored] at hi
    rw [Format.root, hasBit_bits]
    grind
  | pae =>
    rw [Format.IsIgnored] at hi
    rw [Format.root, hasBit_bits]
    grind
  | long =>
    rw [Format.IsIgnored] at hi
    rw [Format.root, hasBit_bits]
    grind

/-- The entry of an address stays in the page where the root table lies. -/
theorem rootOffset_entry {cr3 : BitVec 64} (h : fmt.RootOnly cr3) (hva : fmt.Legal va) :
    (cr3 &&& 0xfe0#64).toNat + fmt.entrySize * fmt.index fmt.levels va + fmt.entrySize ≤ 4096 := by
  have hidx := index_lt (ptTypeOf fmt) va fmt.levels
  rw [index_eq hva fmt.one_le_levels le_rfl, ← entrySize_eq, Nat.mul_succ] at hidx
  have hzero : (∀ i, 5 ≤ i → i < 12 → cr3.hasBit i = false) → (cr3 &&& 0xfe0#64).toNat = 0 := by
    intro hbits
    rw [show cr3 &&& 0xfe0#64 = 0#64 from BitVec.eq_of_hasBit fun i _ => ?_]
    · rfl
    · rw [BitVec.hasBit_and, hasBit_pdptOffsetMask, BitVec.hasBit_zero]
      by_cases hi : 5 ≤ i ∧ i < 12
      · rw [hbits i hi.1 hi.2, Bool.false_and]
      · rw [decide_eq_false hi, Bool.and_false]
  cases fmt with
  | legacy _ =>
    rw [hzero fun i h5 h12 => h i (Or.inl ⟨h5, h12⟩)]
    omega
  | long =>
    rw [hzero fun i h5 h12 => h i ⟨h5, h12⟩]
    omega
  | pae =>
    have hlt : Format.pae.index 3 va < 4 := (Bits.field 30 2 va).isLt
    have hoff := pdptIndex_lt cr3
    rw [toNat_pdptOffset]
    change 32 * pdptIndex cr3 + 8 * Format.pae.index 3 va + 8 ≤ 4096
    omega

theorem aligned_and_baseAddrMask (x : BitVec 64) : ByteMem.Aligned 4096 (x &&& pt64BaseAddrMask) := by
  have hbase : Format.long.base x = x &&& pt64BaseAddrMask := by
    apply BitVec.eq_of_hasBit
    intro i _
    rw [Format.base, hasBit_bits, BitVec.hasBit_and, hasBit_pt64BaseAddrMask, Bool.and_comm]
  exact hbase ▸ aligned_base .long x

/-- The walker starts at the root table. -/
theorem standsAt_initWalker (hbad : BadPageZero s) (hva : fmt.Legal va) (h : fmt.RootOnly s.cr3) :
    StandsAt fmt s va fmt.levels (initWalker s).table (fmt.root s.cr3) := by
  have hoff : s.cr3 &&& 0xfe0#64 = BitVec.ofNat 64 (rootOffset s) := by
    unfold rootOffset
    rw [BitVec.ofNat_toNat, BitVec.setWidth_eq]
  have hlt := rootOffset_entry h hva
  unfold StandsAt readEntry entryAddr Format.entry
  rw [index_eq hva fmt.one_le_levels le_rfl, ← entrySize_eq, initWalker_table, root_eq h, hoff, ByteMem.add_ofNat,
    ByteMem.add_ofNat, Nat.mul_comm (fmt.index fmt.levels va)]
  exact load_kmapAtomic hbad (aligned_and_baseAddrMask s.cr3) hlt

/-! ### Translation -/

theorem contextFor_format {v : Vmcs} (hp : isPaging v = true) (root : Option Pfn) :
    (contextFor v root).rootLevel = (formatOf v).levels ∧ (contextFor v root).ops ≠ .nonpaging ∧
      (contextFor v root).ops.ptType = ptTypeOf (formatOf v) := by
  unfold contextFor formatOf
  rw [hp]
  cases isLongMode v with
  | true => exact ⟨rfl, nofun, rfl⟩
  | false =>
    cases isPae v with
    | true => exact ⟨rfl, nofun, rfl⟩
    | false => exact ⟨rfl, nofun, rfl⟩

theorem mmuGvaToGpa_paging (h : s.mmu.ops ≠ .nonpaging) (va : BitVec 64) :
    mmuGvaToGpa s va = gvaToGpa s.mmu.ops.ptType s va := by
  unfold mmuGvaToGpa
  cases hops : s.mmu.ops with
  | nonpaging => exact absurd hops h
  | paging64 => rfl
  | paging32 => rfl

theorem formatOf_cases (v : Vmcs) : formatOf v = .legacy (isPse v) ∨ formatOf v = .pae ∨ formatOf v = .long := by
  unfold formatOf
  cases isLongMode v with
  | true => exact Or.inr (Or.inr rfl)
  | false =>
    cases isPae v with
    | true => exact Or.inr (Or.inl rfl)
    | false => exact Or.inl rfl

/-- With a CR3 that holds the address of the root table and nothing else, translation is that of the architecture. -/
theorem translatesAsWalk_of_rootOnly (hp : isPaging s.vmcs = true) (hctx : s.mmu = contextFor s.vmcs s.mmu.rootHpa)
    (hbad : BadPageZero s) (hva : (formatOf s.vmcs).Legal va) (h : (formatOf s.vmcs).RootOnly s.cr3) :
    TranslatesAsWalk s va := by
  obtain ⟨hroot, hops, htype⟩ := contextFor_format hp s.mmu.rootHpa
  rw [← hctx] at hroot hops htype
  have hat := standsAt_initWalker hbad hva h
  have hgpa : mmuGvaToGpa s va = gpaOfWalk (ptTypeOf (formatOf s.vmcs)) s va
      (fetchGuestLoop (ptTypeOf (formatOf s.vmcs)) s 1 va s.mmu.rootLevel (initWalker s).table (initWalker s).inheritedAr []) := by
    rw [mmuGvaToGpa_paging hops, htype]
    rfl
  obtain ⟨n, hn⟩ : ∃ n, (formatOf s.vmcs).levels = n + 1 := Nat.exists_eq_add_one.2 (formatOf s.vmcs).one_le_levels
  unfold TranslatesAsWalk Format.translate
  rw [hgpa, hroot]
  rw [hn] at hat ⊢
  exact walk_agrees hbad (formatOf_cases s.vmcs) hva hn.ge hat _ _

/-- In long mode a CR3 that `set_cr3` accepts is of this kind. -/
theorem rootOnly_of_longMode {cr3 : BitVec 64} (hlong : isLongMode s.vmcs = true)
    (h : cr3HasReservedBits s cr3 = some false) : (formatOf s.vmcs).RootOnly cr3 := by
  have hformat : formatOf s.vmcs = .long := by
    unfold formatOf
    rw [hlong]
    rfl
  rw [hformat]
  intro i hi
  change 5 ≤ i ∧ i < 12 at hi
  have hbit := congrArg (fun x : BitVec 64 => x.hasBit i) (and_cr3_of_longMode hlong h)
  simp only [BitVec.hasBit_and, hasBit_pdptOffsetMask] at hbit
  rw [decide_eq_true hi, Bool.and_true] at hbit
  exact hbit.trans (BitVec.hasBit_zero i)

/-! ### Other bits in CR3 -/

/-- The entry that points to the page of the root table. -/
def selfEntry (fmt : Format) (cr3 : BitVec 64) : BitVec 64 := bits 12 52 (fmt.root cr3) ||| 1#64

/-- The offset of the root table in its page. -/
def tableOffset (fmt : Format) (cr3 : BitVec 64) : BitVec 64 := bits 5 12 (fmt.root cr3)

/-- A guest with one page, in which the root table lies.  The first entry of the table and the first entry of the page
point to this page. -/
def oneTable (v : Vmcs) (cr3 : BitVec 64) : Vcpu :=
  { (default : Vcpu) with
    kvm := { (default : Kvm) with
      nmemslots := 1
      memslots := fun _ =>
        { baseGfn := gfnOf ((formatOf v).root cr3), npages := 1, flags := 0, physMem := 0, dirtyBitmap := 0 }
      pageArray := fun _ _ => 1 }
    vmcs := v
    cr3 := cr3
    mmu := contextFor v none
    mem := ByteMem.store
      (ByteMem.store (fun _ => 0) (hpaOf 1) (formatOf v).entrySize (selfEntry (formatOf v) cr3))
      (hpaOf 1 + tableOffset (formatOf v) cr3) (formatOf v).entrySize (selfEntry (formatOf v) cr3) }

section OneTable

variable {v : Vmcs} {cr3 : BitVec 64}

theorem gpaFrame_oneTable (v : Vmcs) (cr3 gpa : BitVec 64) :
    gpaFrame (oneTable v cr3).kvm gpa = if gfnOf gpa = gfnOf ((formatOf v).root cr3) then some 1 else none := by
  have hslot : ∀ i : Fin 4, ((oneTable v cr3).kvm.memslots i).contains (gfnOf gpa) =
      decide (gfnOf gpa = gfnOf ((formatOf v).root cr3)) := fun i => by
    change (decide (gfnOf ((formatOf v).root cr3) ≤ gfnOf gpa) &&
      decide (gfnOf gpa < gfnOf ((formatOf v).root cr3) + 1)) = _
    rw [← Bool.decide_and]
    exact decide_eq_decide.2 (by omega)
  unfold gpaFrame gfnToMemslot
  simp only [hslot]
  by_cases h : gfnOf gpa = gfnOf ((formatOf v).root cr3)
  · simp only [h, decide_true, Bool.and_true]
    rfl
  · simp [h]

theorem hasBit_selfEntry (fmt : Format) (cr3 : BitVec 64) (i : Nat) :
    (selfEntry fmt cr3).hasBit i = (decide (12 ≤ i ∧ i < 52) && (fmt.root cr3).hasBit i || decide (i = 0)) := by
  unfold selfEntry
  rw [BitVec.hasBit_or, hasBit_bits, show (1#64) = 1#64 <<< 0 from rfl, Bits.hasBit_one_shiftLeft (by decide)]

theorem lt_of_hasBit_root {i : Nat} (h : (fmt.root cr3).hasBit i = true) : 5 ≤ i ∧ i < 52 ∧ i < 8 * fmt.entrySize := by
  cases fmt with
  | legacy _ =>
    rw [Format.root, hasBit_bits, Bool.and_eq_true, decide_eq_true_eq] at h
    exact ⟨by omega, by omega, h.1.2⟩
  | pae =>
    rw [Format.root, hasBit_bits, Bool.and_eq_true, decide_eq_true_eq] at h
    exact ⟨h.1.1, by omega, h.1.2.trans (by decide)⟩
  | long =>
    rw [Format.root, hasBit_bits, Bool.and_eq_true, decide_eq_true_eq] at h
    exact ⟨by omega, h.1.2, h.1.2.trans (by decide)⟩

theorem selfEntry_and_ones (fmt : Format) (cr3 : BitVec 64) :
    selfEntry fmt cr3 &&& ByteMem.ones 64 fmt.entrySize = selfEntry fmt cr3 := by
  apply BitVec.eq_of_hasBit
  intro i hi
  rw [BitVec.hasBit_and, ByteMem.hasBit_ones, decide_eq_true hi, Bool.true_and, hasBit_selfEntry]
  by_cases hroot : (fmt.root cr3).hasBit i = true
  · simp [(lt_of_hasBit_root hroot).2.2]
  · have hpos : 0 < 8 * fmt.entrySize := Nat.mul_pos (by decide) fmt.entrySize_pos
    rw [Bool.eq_false_iff.2 hroot]
    by_cases h0 : i = 0
    · simp [h0, hpos]
    · simp [h0]

theorem toNat_tableOffset (fmt : Format) (cr3 : BitVec 64) :
    (tableOffset fmt cr3).toNat % 32 = 0 ∧ (tableOffset fmt cr3).toNat ≤ 4064 := by
  have hlt := (Bits.field 5 7 (fmt.root cr3)).isLt
  unfold tableOffset bits
  rw [BitVec.toNat_shiftLeft, BitVec.toNat_setWidth, Nat.shiftLeft_eq]
  omega

theorem aligned_add_tableOffset (v : Vmcs) (cr3 : BitVec 64) :
    ByteMem.Aligned (formatOf v).entrySize (hpaOf 1 + tableOffset (formatOf v) cr3) := by
  have h := toNat_tableOffset (formatOf v) cr3
  have hpage : (hpaOf 1).toNat = 4096 := rfl
  have h8 : (hpaOf 1 + tableOffset (formatOf v) cr3).toNat % 8 = 0 := by
    rw [BitVec.toNat_add, hpage]
    omega
  exact Nat.mod_eq_zero_of_dvd ((formatOf v).entrySize_dvd.trans (Nat.dvd_of_mod_eq_zero h8))

theorem load_oneTable {a : BitVec 64} (ha : ByteMem.Aligned (formatOf v).entrySize a) :
    ByteMem.load (oneTable v cr3).mem a (formatOf v).entrySize =
      if a = hpaOf 1 ∨ a = hpaOf 1 + tableOffset (formatOf v) cr3 then selfEntry (formatOf v) cr3 else 0 := by
  have hdvd : (formatOf v).entrySize ∣ 2 ^ 64 := by
    rw [entrySize_eq]
    exact bytes_dvd _
  have hpage : ByteMem.Aligned (formatOf v).entrySize (hpaOf 1) := by
    rw [entrySize_eq]
    exact aligned_hpaOf 1
  have hnone : ByteMem.load (fun _ => 0 : ByteMem.Mem 64) a (formatOf v).entrySize = 0 := ByteMem.load_eq_zero fun _ _ => rfl
  change ByteMem.load (ByteMem.store (ByteMem.store (fun _ => 0) _ _ _) _ _ _) a _ = _
  rw [ByteMem.load_store_aligned hdvd _ (aligned_add_tableOffset v cr3) ha, ByteMem.load_store_aligned hdvd _ hpage ha,
    selfEntry_and_ones, hnone]
  by_cases h1 : a = hpaOf 1
  · rw [if_pos (Or.inl h1), if_pos h1, ite_self]
  · rw [if_neg h1]
    by_cases h2 : a = hpaOf 1 + tableOffset (formatOf v) cr3
    · rw [if_pos h2, if_pos (Or.inr h2)]
    · rw [if_neg h2, if_neg fun hno => hno.elim h1 h2]

theorem badPageZero_oneTable (v : Vmcs) (cr3 : BitVec 64) : BadPageZero (oneTable v cr3) := by
  have h := toNat_tableOffset (formatOf v) cr3
  have hpage : (hpaOf 1).toNat = 4096 := rfl
  have hsize := Nat.le_of_dvd (by decide) (formatOf v).entrySize_dvd
  intro off hoff
  have hx : (hpaOf (oneTable v cr3).badPage + BitVec.ofNat 64 off).toNat = off := by
    have hbad : (hpaOf (oneTable v cr3).badPage).toNat = 0 := rfl
    rw [BitVec.toNat_add, hbad, BitVec.toNat_ofNat]
    omega
  -- both stores lie in the page after it
  change ByteMem.store (ByteMem.store (fun _ => 0) _ _ _) _ _ _ _ = _
  unfold ByteMem.store
  rw [if_neg, if_neg]
  · rw [BitVec.toNat_sub, hx, hpage]
    omega
  · rw [BitVec.toNat_sub, hx, BitVec.toNat_add, hpage]
    omega

theorem gfnOf_rootPage (fmt : Format) (cr3 : BitVec 64) : gfnOf (bits 12 52 (fmt.root cr3)) = gfnOf (fmt.root cr3) := by
  refine gfnOf_congr fun i h12 _ => ?_
  rw [hasBit_bits]
  cases hb : (fmt.root cr3).hasBit i with
  | false => exact Bool.and_false _
  | true => simp [h12, (lt_of_hasBit_root hb).2.1]

theorem root_eq_page_add (fmt : Format) (cr3 : BitVec 64) :
    fmt.root cr3 = bits 12 52 (fmt.root cr3) + tableOffset fmt cr3 := by
  have hdisj : bits 12 52 (fmt.root cr3) &&& tableOffset fmt cr3 = 0#64 := by
    apply BitVec.eq_of_hasBit
    intro i _
    rw [tableOffset, BitVec.hasBit_and, hasBit_bits, hasBit_bits, BitVec.hasBit_zero]
    grind
  rw [BitVec.add_eq_or_of_and_eq_zero _ _ hdisj]
  apply BitVec.eq_of_hasBit
  intro i _
  have hlt := @lt_of_hasBit_root fmt cr3 i
  rw [tableOffset, BitVec.hasBit_or, hasBit_bits, hasBit_bits]
  grind

/-- The guest has in its page what the host has in the one that backs it. -/
theorem load_guestPhys_oneTable {off : Nat} (hoff : off + (formatOf v).entrySize ≤ 4096) :
    ByteMem.load (guestPhys (oneTable v cr3)) (bits 12 52 ((formatOf v).root cr3) + BitVec.ofNat 64 off)
        (formatOf v).entrySize =
      ByteMem.load (oneTable v cr3).mem (hpaOf 1 + BitVec.ofNat 64 off) (formatOf v).entrySize := by
  refine load_guestPhys_of_some ?_ (aligned_base .long _) hoff
  rw [gpaFrame_oneTable, if_pos (gfnOf_rootPage _ cr3)]

theorem base_selfEntry (fmt : Format) (cr3 : BitVec 64) : fmt.base (selfEntry fmt cr3) = bits 12 52 (fmt.root cr3) := by
  apply BitVec.eq_of_hasBit
  intro i _
  have hlt := @lt_of_hasBit_root fmt cr3 i
  rw [hasBit_bits]
  cases fmt with
  | legacy _ =>
    rw [show Format.entrySize (.legacy _) = 4 from rfl] at hlt
    rw [Format.base, hasBit_bits, hasBit_selfEntry]
    grind
  | pae =>
    rw [Format.base, hasBit_bits, hasBit_selfEntry]
    grind
  | long =>
    rw [Format.base, hasBit_bits, hasBit_selfEntry]
    grind

theorem passes_selfEntry (fmt : Format) (cr3 : BitVec 64) (level : Nat) : fmt.Passes level (selfEntry fmt cr3) := by
  have hsmall : fmt.isLarge level (selfEntry fmt cr3) = false := by
    unfold Format.isLarge
    rw [hasBit_selfEntry]
    simp
  refine ⟨by rw [hasBit_selfEntry]; simp, ?_, hsmall⟩
  unfold Format.hasReserved
  rw [hsmall, List.any_eq_false]
  intro i _
  rw [hasBit_selfEntry]
  cases fmt with
  | legacy _ => simp [Format.isReserved]
  | pae =>
    unfold Format.isReserved
    grind
  | long =>
    unfold Format.isReserved
    grind

theorem translate_oneTable (v : Vmcs) (cr3 : BitVec 64) :
    ∃ gpa, (formatOf v).translate (guestPhys (oneTable v cr3)) 0 cr3 = .mapped gpa := by
  have hindex : ∀ level, (formatOf v).index level 0 = 0 := fun level => by
    unfold Format.index Bits.field
    simp
  have hsize := Nat.le_of_dvd (by decide) (formatOf v).entrySize_dvd
  have hoff := toNat_tableOffset (formatOf v) cr3
  have hself : ∀ level, (formatOf v).entry (guestPhys (oneTable v cr3)) 0 level
      ((formatOf v).base (selfEntry (formatOf v) cr3)) = selfEntry (formatOf v) cr3 := fun level => by
    unfold Format.entry
    rw [hindex, base_selfEntry, load_guestPhys_oneTable (by omega), Nat.mul_zero, BitVec.add_zero, load_oneTable,
      if_pos (Or.inl rfl)]
    rw [entrySize_eq]
    exact aligned_hpaOf 1
  have hroot : ∀ level, (formatOf v).entry (guestPhys (oneTable v cr3)) 0 level ((formatOf v).root cr3) =
      selfEntry (formatOf v) cr3 := fun level => by
    have hofNat : tableOffset (formatOf v) cr3 = BitVec.ofNat 64 (tableOffset (formatOf v) cr3).toNat := by
      rw [BitVec.ofNat_toNat, BitVec.setWidth_eq]
    unfold Format.entry
    rw [hindex, Nat.mul_zero, BitVec.add_zero, root_eq_page_add, hofNat, load_guestPhys_oneTable (by omega), ← hofNat,
      load_oneTable (aligned_add_tableOffset v cr3), if_pos (Or.inr rfl)]
  obtain ⟨n, hn⟩ : ∃ n, (formatOf v).levels = n + 1 := Nat.exists_eq_add_one.2 (formatOf v).one_le_levels
  unfold Format.translate
  rw [hn]
  exact ⟨_, Format.walk_of_self (passes_selfEntry _ cr3) hroot hself⟩

/-- A walker that starts in the page of the table, and at its first entry or the table, has nothing else from CR3. -/
theorem rootOnly_of_start (hpage : gfnOf (cr3 &&& pt64BaseAddrMask) = gfnOf (fmt.root cr3))
    (hoff : cr3 &&& 0xfe0#64 = 0 ∨ cr3 &&& 0xfe0#64 = tableOffset fmt cr3) : fmt.RootOnly cr3 := by
  have hsame : SamePage (cr3 &&& pt64BaseAddrMask) (fmt.root cr3) := samePage_of_toNat (by rwa [gfnOf_eq, gfnOf_eq] at hpage)
  have hbit : ∀ i, 12 ≤ i → i < 52 → cr3.hasBit i = (fmt.root cr3).hasBit i := fun i h12 h52 => by
    rw [← hsame i h12, BitVec.hasBit_and, hasBit_pt64BaseAddrMask]
    simp [h12, h52]
  have hlow : (∀ i < 12, (fmt.root cr3).hasBit i = false) → ∀ i, 5 ≤ i → i < 12 → cr3.hasBit i = false := by
    intro hroot i h5 h12
    have htable : (tableOffset fmt cr3).hasBit i = false := by
      rw [tableOffset, hasBit_bits, hroot i h12, Bool.and_false]
    have hmask : (cr3 &&& 0xfe0#64).hasBit i = cr3.hasBit i := by
      rw [BitVec.hasBit_and, hasBit_pdptOffsetMask, decide_eq_true ⟨h5, h12⟩, Bool.and_true]
    rcases hoff with hoff | hoff
    · rw [← hmask, hoff]
      exact BitVec.hasBit_zero i
    · rw [← hmask, hoff, htable]
  intro i hi
  cases fmt with
  | legacy pse =>
    have hroot : ∀ j, ¬(12 ≤ j ∧ j < 32) → (Format.root (.legacy pse) cr3).hasBit j = false := fun j hj => by
      rw [Format.root, hasBit_bits, decide_eq_false hj, Bool.false_and]
    rcases hi with hi | hi
    · exact hlow (fun j hj => hroot j (by omega)) i hi.1 hi.2
    · rw [hbit i (by omega) hi.2]
      exact hroot i (by omega)
  | pae =>
    change 32 ≤ i ∧ i < 52 at hi
    rw [hbit i (by omega) hi.2, Format.root, hasBit_bits, decide_eq_false (by omega), Bool.false_and]
  | long =>
    refine hlow (fun j hj => ?_) i hi.1 hi.2
    rw [Format.root, hasBit_bits, decide_eq_false (by omega), Bool.false_and]

/-- The walker misses the table. -/
theorem readEntry_oneTable (h : ¬(formatOf v).RootOnly cr3) :
    readEntry (ptTypeOf (formatOf v)) (oneTable v cr3) (initWalker (oneTable v cr3)).table = 0 := by
  have haligned : ByteMem.Aligned (formatOf v).entrySize (initWalker (oneTable v cr3)).table := by
    rw [entrySize_eq]
    exact (ok_initWalker (oneTable v cr3)).aligned
  have htable : (initWalker (oneTable v cr3)).table =
      hpaOf ((gpaFrame (oneTable v cr3).kvm (cr3 &&& pt64BaseAddrMask)).getD 0) + (cr3 &&& 0xfe0#64) := by
    have hoff : BitVec.ofNat 64 (rootOffset (oneTable v cr3)) = cr3 &&& 0xfe0#64 := by
      unfold rootOffset
      rw [BitVec.ofNat_toNat, BitVec.setWidth_eq]
      rfl
    rw [initWalker_table, kmapAtomic_safeGpaToHpa, hoff]
    rfl
  unfold readEntry
  rw [← entrySize_eq, load_oneTable haligned, if_neg]
  rw [htable, gpaFrame_oneTable]
  split
  · -- in the same page, at another offset
    rename_i hpage
    rintro (hno | hno)
    · refine h (rootOnly_of_start hpage (Or.inl ?_))
      rw [Option.getD_some] at hno
      exact (BitVec.add_right_inj (hpaOf 1)).1 (hno.trans (BitVec.add_zero _).symm)
    · exact h (rootOnly_of_start hpage (Or.inr ((BitVec.add_right_inj (hpaOf 1)).1 hno)))
  · -- in the page of zeros
    have hoff := pdptIndex_lt cr3
    have hlt : (hpaOf (Option.getD none 0) + (cr3 &&& 0xfe0#64)).toNat < 4096 := by
      rw [BitVec.toNat_add, toNat_pdptOffset]
      change (0 + 32 * pdptIndex cr3) % 2 ^ 64 < 4096
      omega
    have htbl := toNat_tableOffset (formatOf v) cr3
    have hpage : (hpaOf 1).toNat = 4096 := rfl
    rintro (hno | hno)
    · rw [hno] at hlt
      omega
    · rw [hno, BitVec.toNat_add, hpage] at hlt
      omega

theorem mmuGvaToGpa_oneTable (hp : isPaging v = true) (h : ¬(formatOf v).RootOnly cr3) :
    mmuGvaToGpa (oneTable v cr3) 0 = unmappedGva := by
  obtain ⟨hroot, hops, htype⟩ := contextFor_format hp none
  obtain ⟨n, hn⟩ : ∃ n, (formatOf v).levels = n + 1 := Nat.exists_eq_add_one.2 (formatOf v).one_le_levels
  have hentry : entryAddr (ptTypeOf (formatOf v)) (initWalker (oneTable v cr3)).table
      ((ptTypeOf (formatOf v)).index 0 (n + 1)) = (initWalker (oneTable v cr3)).table := by
    have hindex : (ptTypeOf (formatOf v)).index 0 (n + 1) = 0 := by
      cases ptTypeOf (formatOf v) with
      | pt32 => simp [PtType.index, pt32Index, Bits.field]
      | pt64 => simp [PtType.index, pt64Index, Bits.field]
    unfold entryAddr
    rw [hindex, Nat.zero_mul, BitVec.add_zero]
  have hzero : readEntry (ptTypeOf (formatOf v)) (oneTable v cr3) (entryAddr (ptTypeOf (formatOf v))
      (initWalker (oneTable v cr3)).table ((ptTypeOf (formatOf v)).index 0 (n + 1))) = 0 := by
    rw [hentry, readEntry_oneTable h]
  obtain ⟨hread, -⟩ := @fetchGuestLoop_ends (oneTable v cr3) 0 0 _ n _ (initWalker (oneTable v cr3)).inheritedAr
    (initWalker (oneTable v cr3)).visited hzero (Or.inr (Or.inl (BitVec.hasBit_zero 0)))
  rw [mmuGvaToGpa_paging hops]
  refine gvaToGpa_of_not_present ?_
  change (readEntry (contextFor v none).ops.ptType (oneTable v cr3) (fetchGuestLoop (contextFor v none).ops.ptType
    (oneTable v cr3) 1 0 (contextFor v none).rootLevel _ _ _).2).hasBit 0 = false
  rw [htype, hroot, hn, hread]
  exact BitVec.hasBit_zero 0

end OneTable

/-- **Translation is that of the architecture** exactly if CR3 has none of the bits, of those that the walker looks at,
that the paging mode ignores. -/
theorem translatesAsWalk_iff (v : Vmcs) (cr3 : BitVec 64) (hp : isPaging v = true) :
    (∀ s va, s.vmcs = v → s.cr3 = cr3 → s.mmu = contextFor v s.mmu.rootHpa → BadPageZero s → (formatOf v).Legal va →
      TranslatesAsWalk s va) ↔ (formatOf v).RootOnly cr3 := by
  constructor
  · intro hall
    by_contra hno
    obtain ⟨gpa, hgpa⟩ := translate_oneTable v cr3
    have hzero : (formatOf v).Legal 0 := by
      cases formatOf v with
      | legacy _ => exact Nat.two_pow_pos 32
      | pae => exact Nat.two_pow_pos 32
      | long => exact fun i _ _ => (BitVec.hasBit_zero i).trans (BitVec.hasBit_zero 47).symm
    have hctx : (oneTable v cr3).mmu = contextFor v (oneTable v cr3).mmu.rootHpa := by
      change contextFor v none = contextFor v (contextFor v none).rootHpa
      rw [rootHpa_contextFor]
    have hwalk := hall (oneTable v cr3) 0 rfl rfl hctx (badPageZero_oneTable v cr3) hzero
    unfold TranslatesAsWalk at hwalk
    rw [show (oneTable v cr3).vmcs = v from rfl, show (oneTable v cr3).cr3 = cr3 from rfl, hgpa,
      mmuGvaToGpa_oneTable hp hno] at hwalk
    exact hwalk.2 hwalk.1.symm
  · rintro h s va rfl rfl hctx hbad hva
    exact translatesAsWalk_of_rootOnly hp hctx hbad hva h

/-- A page-aligned root table in 32-bit paging. -/
theorem translatesAsWalk_aligned : TranslatesAsWalk (oneTable vmcs32 0x1000) 0x403007 :=
  (translatesAsWalk_iff vmcs32 0x1000 (by decide)).2
    (fun i hi => by
      have hbits : ∀ j < 52, (0x1000#64).hasBit j = decide (j = 12) := by decide
      have hlt : 5 ≤ i ∧ i < 12 ∨ 32 ≤ i ∧ i < 52 := hi
      rw [show (0x1000 : BitVec 64) = 0x1000#64 from rfl, hbits i (by omega)]
      exact decide_eq_false (by omega))
    _ _ rfl rfl rfl (badPageZero_oneTable vmcs32 0x1000) (show (0x403007#64).toNat < 2 ^ 32 by decide)

/-- With CR3 = 0x1020, which is legal in 32-bit paging, the walk starts 32 bytes behind the root table. -/
theorem cr3_bit_moves_walk : ¬∀ s va, isPaging s.vmcs = true → s.mmu = contextFor s.vmcs s.mmu.rootHpa →
    cr3HasReservedBits s s.cr3 = some false → BadPageZero s → (formatOf s.vmcs).Legal va → TranslatesAsWalk s va := by
  intro hall
  have hignored : ¬(formatOf vmcs32).RootOnly 0x1020 := fun h =>
    Bool.noConfusion ((h 5 (Or.inl (by decide))).symm.trans (by decide : (0x1020#64).hasBit 5 = true))
  obtain ⟨gpa, hgpa⟩ := translate_oneTable vmcs32 0x1020
  have hwalk := hall (oneTable vmcs32 0x1020) 0 (by decide) rfl (by decide) (badPageZero_oneTable vmcs32 0x1020)
    (Nat.two_pow_pos 32)
  unfold TranslatesAsWalk at hwalk
  rw [show (oneTable vmcs32 0x1020).vmcs = vmcs32 from rfl, show (oneTable vmcs32 0x1020).cr3 = 0x1020 from rfl, hgpa,
    mmuGvaToGpa_oneTable (by decide) hignored] at hwalk
  exact hwalk.2 hwalk.1.symm

end LearnKvm
