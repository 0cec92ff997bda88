import LearnKvm.ControlRegisters
import LearnKvm.Mmu.Run

/-!
# The walker and the page it has mapped

The assertion of `fetch_guest` demands that the entry that is read lies in the page that the walker has mapped.  Below
the root the table starts at the start of the page, and every index is inside.  At the root the low bits of CR3 move the
table: `WalkerInside` holds exactly when the root entry of the address is still in the page
(`walkerInside_iff`), which the code checks in long mode only (`walkerInside_of_longMode`).
-/

namespace LearnKvm

variable {pt : PtType} {s s' t : Vcpu} {va : BitVec 64} {level : Nat}

/-- All bytes of the entry lie in the page that was mapped when it was read. -/
def Visit.Inside (pt : PtType) (v : Visit) : Prop :=
  ∀ j < pt.bytes, (v.ent + BitVec.ofNat 64 j) &&& pageMask = v.page

/-- Where memory differs between the two states, it is in an entry of the list. -/
def WritesOnly (pt : PtType) (s s' : Vcpu) (visited : List Visit) : Prop :=
  ∀ a, s'.mem a ≠ s.mem a → ∃ v ∈ visited, (a - v.ent).toNat < pt.bytes

/-- A walk that led from `s` to `s'` has read entries inside of the pages it has mapped, and written to no others. -/
structure StaysInside (pt : PtType) (s s' : Vcpu) (walker : GuestWalker) : Prop where
  reads : ∀ v ∈ walker.visited, v.Inside pt
  writes : WritesOnly pt s s' walker.visited

/-- The walks for an address stay inside: those of `fetch_guest` (and so of `gva_to_gpa`), `fetch`, and `fix_write_pf`
after it. -/
structure WalkerInside (pt : PtType) (s : Vcpu) (va : BitVec 64) : Prop where
  fetchGuest : ∀ level, 1 ≤ level → level ≤ s.mmu.rootLevel → StaysInside pt s s (guestWalk pt s va level).1
  fetch : StaysInside pt s (fetch pt s va (initWalker s)).1 (fetch pt s va (initWalker s)).2.1
  fixWritePf : ∀ t shadowEnt user, StaysInside pt t
    (fixWritePf pt t shadowEnt (LearnKvm.fetch pt s va (initWalker s)).2.1 va user).1
    (fixWritePf pt t shadowEnt (LearnKvm.fetch pt s va (initWalker s)).2.1 va user).2.1

/-! ### Addresses in a page -/

theorem toNat_hpaOf (p : Pfn) : (hpaOf p).toNat = p.toNat * 4096 := by
  unfold hpaOf pageShift
  rw [BitVec.toNat_shiftLeft, BitVec.toNat_setWidth, Nat.shiftLeft_eq, Nat.mod_eq_of_lt (p.isLt.trans (by decide))]
  have := p.isLt
  exact Nat.mod_eq_of_lt (by omega)

theorem toNat_hpaOf_add (p : Pfn) {off : Nat} (hoff : off < 4096) :
    (hpaOf p + BitVec.ofNat 64 off).toNat = p.toNat * 4096 + off := by
  have hp := p.isLt
  rw [BitVec.toNat_add, toNat_hpaOf, BitVec.toNat_ofNat]
  omega

theorem toNat_and_pageMask (a : BitVec 64) : (a &&& pageMask).toNat = a.toNat / 4096 * 4096 := by
  apply Nat.eq_of_testBit_eq
  intro i
  rw [show (4096 : Nat) = 2 ^ 12 from rfl, Nat.testBit_mul_two_pow, Nat.testBit_div_two_pow]
  have h : (a &&& pageMask).toNat.testBit i = (a &&& pageMask).hasBit i := rfl
  have h' : a.toNat.testBit i = a.hasBit i := rfl
  rw [h, BitVec.hasBit_and, hasBit_pageMask]
  by_cases h12 : 12 ≤ i
  · rw [show i - 12 + 12 = i by omega, h']
    by_cases h64 : i < 64
    · simp [h12, h64]
    · rw [BitVec.hasBit_of_ge a (by omega)]
      simp
  · simp [h12]

theorem and_pageMask_eq_iff {a : BitVec 64} {p : Pfn} {n : Nat} (h : a.toNat = p.toNat * 4096 + n) :
    a &&& pageMask = hpaOf p ↔ n < 4096 := by
  rw [← BitVec.toNat_inj, toNat_and_pageMask, toNat_hpaOf, h]
  omega

/-- The table starts `off` bytes into the page `p`. -/
def TableAt (table : BitVec 64) (p : Pfn) (off : Nat) : Prop := off < 4096 ∧ table.toNat = p.toNat * 4096 + off

theorem tableAt_kmapAtomic (paddr : BitVec 64) : TableAt (kmapAtomic paddr) (pfnOf paddr) 0 :=
  ⟨Nat.succ_pos _, by rw [kmapAtomic, toNat_hpaOf, Nat.add_zero]⟩

/-- The bits of CR3 that move the table of the root. -/
def rootOffset (s : Vcpu) : Nat := (s.cr3 &&& 0xfe0#64).toNat

theorem tableAt_initWalker (s : Vcpu) :
    TableAt (initWalker s).table (pfnOf (safeGpaToHpa s (s.cr3 &&& pt64BaseAddrMask))) (rootOffset s) := by
  have hmask : ~~~(pageMask ||| cr3FlagsMask) = 0xfe0#64 := by decide
  have hlt : (s.cr3 &&& 0xfe0#64).toNat < 2 ^ 12 := by
    rw [BitVec.toNat_and]
    exact Nat.and_lt_two_pow _ (by decide)
  refine ⟨hlt, ?_⟩
  unfold initWalker kmapAtomic rootOffset
  dsimp only
  rw [hmask, BitVec.toNat_or, toNat_hpaOf, show (4096 : Nat) = 2 ^ 12 from rfl, Nat.mul_comm,
    Nat.two_pow_add_eq_or_of_lt hlt]

theorem index_lt (pt : PtType) (va : BitVec 64) (level : Nat) : pt.bytes * (pt.index va level + 1) ≤ 4096 := by
  cases pt with
  | pt32 =>
    have := (pt32Index va level).isLt
    show 4 * ((pt32Index va level).val + 1) ≤ 4096
    omega
  | pt64 =>
    have := (pt64Index va level).isLt
    show 8 * ((pt64Index va level).val + 1) ≤ 4096
    omega

/-- The entry of `va` in a table at this level. -/
def entryVisit (pt : PtType) (va : BitVec 64) (level : Nat) (table : BitVec 64) : Visit :=
  { level := level, page := table &&& pageMask, ent := entryAddr pt table (pt.index va level) }

theorem entryVisit_inside_iff {table : BitVec 64} {p : Pfn} {off : Nat} (h : TableAt table p off) :
    (entryVisit pt va level table).Inside pt ↔ off + pt.bytes * (pt.index va level + 1) ≤ 4096 := by
  obtain ⟨hoff, htable⟩ := h
  have hidx := index_lt pt va level
  have hp := p.isLt
  have hpos : 0 < pt.bytes ∧ pt.bytes ≤ 8 := by cases pt <;> decide
  have hent : ∀ j < pt.bytes, (entryAddr pt table (pt.index va level) + BitVec.ofNat 64 j).toNat =
      p.toNat * 4096 + (off + pt.bytes * pt.index va level + j) := by
    intro j hj
    rw [Nat.mul_add] at hidx
    unfold entryAddr
    rw [BitVec.toNat_add, BitVec.toNat_add, BitVec.toNat_ofNat, BitVec.toNat_ofNat, htable, Nat.mul_comm _ pt.bytes]
    omega
  have hpage : table &&& pageMask = hpaOf p := (and_pageMask_eq_iff htable).2 hoff
  unfold entryVisit Visit.Inside
  dsimp only
  rw [hpage, Nat.mul_add]
  constructor
  · intro hall
    have := (and_pageMask_eq_iff (hent (pt.bytes - 1) (by omega))).1 (hall (pt.bytes - 1) (by omega))
    omega
  · intro hle j hj
    exact (and_pageMask_eq_iff (hent j hj)).2 (by omega)

/-! ### Walks -/

/-- The walker has stayed inside, and the next entry it reads is inside. -/
def GuestWalker.Inside (pt : PtType) (va : BitVec 64) (w : GuestWalker) : Prop :=
  (∀ v ∈ w.visited, v.Inside pt) ∧ (entryVisit pt va w.level w.table).Inside pt

/-- Below the root every entry is inside. -/
theorem entryVisit_kmapAtomic (paddr : BitVec 64) : (entryVisit pt va level (kmapAtomic paddr)).Inside pt := by
  rw [entryVisit_inside_iff (tableAt_kmapAtomic paddr), Nat.zero_add]
  exact index_lt pt va level

/-- A walk from a walker that is inside stays inside; it has read the entry at which it stops. -/
structure WalkSpec (pt : PtType) (va : BitVec 64) (w : GuestWalker) (r : GuestWalker × BitVec 64) : Prop where
  inside : r.1.Inside pt va
  visited : ∀ v ∈ w.visited, v ∈ r.1.visited
  last : ∃ v ∈ r.1.visited, v.ent = r.2

private theorem fetchGuestLoop_inside (s : Vcpu) (hpos : 1 ≤ level) (n : Nat) (hn : level ≤ n) (table ar : BitVec 64)
    (visited : List Visit) (hv : ∀ v ∈ visited, v.Inside pt) (he : (entryVisit pt va n table).Inside pt) :
    WalkSpec pt va ⟨n, table, ar, visited⟩ (fetchGuestLoop pt s level va n table ar visited) := by
  induction n generalizing table ar visited with
  | zero => omega
  | succ n ih =>
    have hv' : ∀ v ∈ visited ++ [entryVisit pt va (n + 1) table], v.Inside pt := by
      intro v hmem
      rcases List.mem_append.1 hmem with hmem | hmem
      · exact hv v hmem
      · rw [List.mem_singleton.1 hmem]
        exact he
    unfold fetchGuestLoop
    dsimp only
    split
    · exact ⟨⟨hv', he⟩, fun v hmem => List.mem_append_left _ hmem, _, List.mem_append_right _ (List.mem_singleton_self _), rfl⟩
    · rename_i hstop
      simp only [Bool.or_eq_true, decide_eq_true_eq, not_or] at hstop
      obtain ⟨h1, h2, h3⟩ := ih (by omega) _ _ (visited ++ [entryVisit pt va (n + 1) table]) hv' (entryVisit_kmapAtomic _)
      exact ⟨h1, fun v hmem => h2 v (List.mem_append_left _ hmem), h3⟩

theorem GuestWalker.Inside.fetchGuest {w : GuestWalker} (h : w.Inside pt va) (s : Vcpu) (hpos : 1 ≤ level)
    (hle : level ≤ w.level) : WalkSpec pt va w (fetchGuest pt s w level va) :=
  fetchGuestLoop_inside s hpos w.level hle w.table w.inheritedAr w.visited h.1 h.2

theorem inside_initWalker_iff (pt : PtType) (s : Vcpu) (va : BitVec 64) :
    (initWalker s).Inside pt va ↔ rootOffset s + pt.bytes * (pt.index va s.mmu.rootLevel + 1) ≤ 4096 := by
  rw [← entryVisit_inside_iff (tableAt_initWalker s)]
  exact ⟨fun h => h.2, fun h => ⟨fun v hv => (List.not_mem_nil hv).elim, h⟩⟩

/-! ### Writes -/

namespace WritesOnly

variable {l l' : List Visit}

theorem of_mem_eq (h : s'.mem = s.mem) : WritesOnly pt s s' l := fun a ha => absurd (by rw [h]) ha

theorem trans (h : WritesOnly pt s s' l) (h' : WritesOnly pt s' t l') (hl : ∀ v ∈ l, v ∈ l') : WritesOnly pt s t l' := by
  intro a ha
  by_cases hs : s'.mem a = s.mem a
  · exact h' a (hs ▸ ha)
  · obtain ⟨v, hv, hlt⟩ := h a hs
    exact ⟨v, hl v hv, hlt⟩

theorem orEntry {a : BitVec 64} (h : ∃ v ∈ l, v.ent = a) (s : Vcpu) (mask : BitVec 64) :
    WritesOnly pt s (orEntry pt s a mask) l := by
  obtain ⟨v, hv, rfl⟩ := h
  intro x hx
  refine ⟨v, hv, ?_⟩
  by_contra hge
  refine hx ?_
  unfold LearnKvm.orEntry ByteMem.orAt ByteMem.store
  dsimp only
  rw [if_neg hge]

end WritesOnly

theorem mem_assert (s : Vcpu) (site : AssertSite) (x : Bool) : (s.assert site x).mem = s.mem := by
  unfold Vcpu.assert
  split <;> rfl

theorem mem_kvmMmuAllocPage (s : Vcpu) (ptr : Option PtePtr) : (kvmMmuAllocPage s ptr).1.mem = s.mem := by
  unfold kvmMmuAllocPage
  split
  · rfl
  · dsimp only
    rw [mem_assert]

theorem mem_writePte (s : Vcpu) (ptr : PtePtr) (e : BitVec 64) : (s.writePte ptr e).mem = s.mem := rfl

theorem mem_pageHeaderUpdateSlot (s : Vcpu) (p : Pfn) (gpa : BitVec 64) : (pageHeaderUpdateSlot s p gpa).mem = s.mem := by
  unfold pageHeaderUpdateSlot
  split <;> rfl

theorem mem_setPteCommon (s : Vcpu) (ptr : PtePtr) (gaddr : BitVec 64) (dirty : Bool) (ar : BitVec 64) :
    (setPteCommon s ptr gaddr dirty ar).mem = s.mem := by
  unfold setPteCommon markPagetableNonglobal
  dsimp only
  simp only [apply_ite Vcpu.mem, mem_writePte, mem_pageHeaderUpdateSlot, ite_self]

theorem mem_setPte (s : Vcpu) (gent : BitVec 64) (ptr : PtePtr) (ar : BitVec 64) : (setPte pt s gent ptr ar).mem = s.mem :=
  (mem_setPteCommon _ _ _ _ _).trans (mem_assert _ _ _)

theorem mem_setPde (s : Vcpu) (gent : BitVec 64) (ptr : PtePtr) (ar : BitVec 64) (index : Nat) :
    (setPde pt s gent ptr ar index).mem = s.mem :=
  (mem_setPteCommon _ _ _ _ _).trans (mem_assert _ _ _)

/-! ### The fault handler's walks -/

theorem guestLevelFor_pos (pt : PtType) (n : Nat) : 1 ≤ guestLevelFor pt (n + 1) := by
  unfold guestLevelFor
  split <;> omega

/-- What `fetch` leaves of the walker with which it was called in the state `s`. -/
structure FetchInside (pt : PtType) (va : BitVec 64) (s : Vcpu) (w : GuestWalker) (r : Vcpu × GuestWalker × FetchResult) :
    Prop where
  inside : r.2.1.Inside pt va
  level : 1 ≤ r.2.1.level
  visited : ∀ v ∈ w.visited, v ∈ r.2.1.visited
  writes : WritesOnly pt s r.1 r.2.1.visited

private theorem fetchLoop_inside (n : Nat) (s : Vcpu) (w : GuestWalker) (p : Pfn) (prev : Option PtePtr)
    (hw : w.Inside pt va) (hpos : 1 ≤ w.level) (hlev : guestLevelFor pt n ≤ w.level) :
    FetchInside pt va s w (fetchLoop pt va n s w p prev) := by
  induction n generalizing s w p prev with
  | zero => exact ⟨hw, hpos, fun _ hv => hv, .of_mem_eq rfl⟩
  | succ n ih =>
    have hmono : guestLevelFor pt n ≤ guestLevelFor pt (n + 1) := guestLevelFor_mono pt (Nat.le_succ n)
    unfold fetchLoop
    dsimp only
    split
    · split
      · exact ⟨hw, hpos, fun _ hv => hv, .of_mem_eq rfl⟩
      · exact ih _ _ _ _ hw hpos (hmono.trans hlev)
    · rw [show (if (decide (pt = .pt32) && decide (n + 1 > 2)) = true then 2 else n + 1) = guestLevelFor pt (n + 1) from rfl]
      have hg := guestLevelFor_pos pt n
      have hwalk := hw.fetchGuest s hg hlev
      have hlevel := @level_fetchGuest pt s w _ va hlev
      generalize LearnKvm.fetchGuest pt s w (guestLevelFor pt (n + 1)) va = walk at hwalk hlevel ⊢
      obtain ⟨w', gent⟩ := walk
      have hpos' : 1 ≤ w'.level := hg.trans hlevel.1
      dsimp only at hlevel ⊢
      split
      · exact ⟨hwalk.inside, hpos', hwalk.visited, .of_mem_eq rfl⟩
      · -- the accessed bit goes to the entry that has been read last
        have hset : ∀ s', s' = (if decide (s.mmu.rootLevel ≠ 3) || decide (w'.level ≠ 3) then orEntry pt s gent ptAccessedMask else s) →
            WritesOnly pt s s' w'.visited := by
          rintro s' rfl
          split
          · exact .orEntry hwalk.last s _
          · exact .of_mem_eq rfl
        have hset := hset _ rfl
        generalize (if decide (s.mmu.rootLevel ≠ 3) || decide (w'.level ≠ 3) then orEntry pt s gent ptAccessedMask else s) = s1 at hset ⊢
        split
        · split
          · refine ⟨hwalk.inside, hpos', hwalk.visited, hset.trans (.of_mem_eq ?_) fun _ hv => hv⟩
            rw [mem_setPde]
            cases prev <;> rfl
          · exact ⟨hwalk.inside, hpos', hwalk.visited, hset.trans (.of_mem_eq (mem_setPte _ _ _ _)) fun _ hv => hv⟩
        · have halloc := mem_kvmMmuAllocPage s1 (some ⟨p, pt64Index va (n + 1)⟩)
          split
          · rename_i heq
            rw [heq] at halloc
            exact ⟨hwalk.inside, hpos', hwalk.visited, hset.trans (.of_mem_eq halloc) fun _ hv => hv⟩
          · rename_i s2 q heq
            rw [heq] at halloc
            have hnext := ih (s2.writePte ⟨p, pt64Index va (n + 1)⟩ (hpaOf q ||| linkFlags pt s2 (n + 1) (readEntry pt s1 gent)))
              w' q (some ⟨p, pt64Index va (n + 1)⟩) hwalk.inside hpos' (hmono.trans hlevel.1)
            refine ⟨hnext.inside, hnext.level, fun v hv => hnext.visited v (hwalk.visited v hv), ?_⟩
            have hto : WritesOnly pt s (s2.writePte ⟨p, pt64Index va (n + 1)⟩
                (hpaOf q ||| linkFlags pt s2 (n + 1) (readEntry pt s1 gent))) w'.visited :=
              hset.trans (.of_mem_eq halloc) fun _ hv => hv
            exact hto.trans hnext.writes hnext.visited

theorem fetch_inside (hfor : s.mmu.IsFor pt) (hw : (initWalker s).Inside pt va) :
    FetchInside pt va s (initWalker s) (fetch pt s va (initWalker s)) := by
  have hroot := hfor.one_le_rootLevel
  have hpos : 1 ≤ s.mmu.shadowRootLevel := by
    cases pt
    · have := hfor.2
      omega
    · have := hfor.2
      omega
  exact fetchLoop_inside _ s _ _ none hw hroot (hfor.guestLevelFor_le hpos le_rfl).2

theorem GuestWalker.Inside.fixWritePf {w : GuestWalker} (hw : w.Inside pt va) (hpos : 1 ≤ w.level) (t : Vcpu)
    (shadowEnt : PtePtr) (user : Bool) :
    StaysInside pt t (fixWritePf pt t shadowEnt w va user).1 (fixWritePf pt t shadowEnt w va user).2.1 := by
  have hskip : StaysInside pt t t w := ⟨hw.1, .of_mem_eq rfl⟩
  have hdirty : ∀ t' : Vcpu, t'.mem = t.mem →
      StaysInside pt t (fixWritePfDirty pt t' shadowEnt w va).1 (fixWritePfDirty pt t' shadowEnt w va).2.1 := by
    intro t' hmem
    have hwalk := hw.fetchGuest t' le_rfl hpos
    unfold fixWritePfDirty
    generalize LearnKvm.fetchGuest pt t' w 1 va = walk at hwalk ⊢
    obtain ⟨w', gent⟩ := walk
    dsimp only
    split
    · exact ⟨hwalk.inside.1, .of_mem_eq hmem⟩
    · refine ⟨hwalk.inside.1, ?_⟩
      exact (WritesOnly.of_mem_eq (l := []) hmem).trans (.orEntry hwalk.last _ _) fun v hv => (List.not_mem_nil hv).elim
  unfold LearnKvm.fixWritePf
  dsimp only
  split
  · exact hskip
  · split
    · split
      · exact hskip
      · exact hdirty t rfl
    · split
      · split
        · exact hskip
        · exact hdirty _ rfl
      · exact hdirty t rfl

/-! ### The bound -/

/-- An entry at a multiple of its size is inside as a whole where it starts inside. -/
theorem rootOffset_bound (pt : PtType) (s : Vcpu) (index : Nat) :
    rootOffset s + pt.bytes * (index + 1) ≤ 4096 ↔ rootOffset s + pt.bytes * index < 4096 := by
  have hmod : rootOffset s % 8 = 0 := by
    have hmask : (s.cr3 &&& 0xfe0#64) &&& 7#64 = 0 := by
      rw [BitVec.and_assoc, show 0xfe0#64 &&& 7#64 = 0#64 by decide, BitVec.and_zero]
      rfl
    have := congrArg BitVec.toNat hmask
    rw [BitVec.toNat_and, show (7#64).toNat = 2 ^ 3 - 1 from rfl, Nat.and_two_pow_sub_one_eq_mod] at this
    exact this
  cases pt with
  | pt32 =>
    show rootOffset s + 4 * (index + 1) ≤ 4096 ↔ rootOffset s + 4 * index < 4096
    omega
  | pt64 =>
    show rootOffset s + 8 * (index + 1) ≤ 4096 ↔ rootOffset s + 8 * index < 4096
    omega

theorem WalkerInside.initWalker (h : WalkerInside pt s va) (hroot : 1 ≤ s.mmu.rootLevel) :
    (LearnKvm.initWalker s).Inside pt va := by
  have hreads := (h.fetchGuest s.mmu.rootLevel hroot le_rfl).reads
  refine ⟨fun v hv => (List.not_mem_nil hv).elim, hreads _ ?_⟩
  -- a walk down to the root level reads the root entry and stops
  obtain ⟨n, hn⟩ : ∃ n, s.mmu.rootLevel = n + 1 := ⟨s.mmu.rootLevel - 1, by omega⟩
  unfold guestWalk LearnKvm.fetchGuest LearnKvm.initWalker
  rw [hn]
  unfold fetchGuestLoop
  dsimp only
  rw [if_pos (by simp)]
  exact List.mem_singleton_self _

theorem walkerInside_of_initWalker (hfor : s.mmu.IsFor pt) (h : (initWalker s).Inside pt va) : WalkerInside pt s va := by
  have hfetch := fetch_inside hfor h
  exact ⟨fun level h1 hl => ⟨(h.fetchGuest s h1 hl).inside.1, .of_mem_eq rfl⟩, ⟨hfetch.inside.1, hfetch.writes⟩,
    fun t shadowEnt user => hfetch.inside.fixWritePf hfetch.level t shadowEnt user⟩

/-- In long mode `set_cr3` loads only values that keep the walker inside. -/
theorem walkerInside_of_longMode {cr3 : BitVec 64} (hlong : isLongMode t.vmcs = true)
    (h : cr3HasReservedBits t cr3 = some false) (hfor : s.mmu.IsFor pt) (hcr3 : s.cr3 = cr3) (va : BitVec 64) :
    WalkerInside pt s va := by
  refine walkerInside_of_initWalker hfor ((inside_initWalker_iff pt s va).2 ?_)
  unfold rootOffset
  rw [hcr3, and_cr3_of_longMode hlong h]
  have := index_lt pt va s.mmu.rootLevel
  simpa using this

/-- In PAE mode the directory has four entries, enough for addresses below 4G. -/
theorem walkerInside_of_pae (hfor : s.mmu.IsFor .pt64) (hroot : s.mmu.rootLevel = 3) (hva : va.toNat < 2 ^ 32) :
    WalkerInside .pt64 s va := by
  refine walkerInside_of_initWalker hfor ((inside_initWalker_iff _ s va).2 ((rootOffset_bound _ s _).2 ?_))
  have hoff : rootOffset s ≤ 0xfe0 := by
    unfold rootOffset
    rw [BitVec.toNat_and]
    exact Nat.and_le_right
  have hidx : (pt64Index va 3).val < 4 := by
    show (BitVec.extractLsb' 30 9 va).toNat < 4
    rw [BitVec.extractLsb'_toNat, Nat.shiftRight_eq_div_pow]
    omega
  show rootOffset s + 8 * (pt64Index va s.mmu.rootLevel).val < 4096
  rw [hroot]
  have hmod : rootOffset s % 32 = 0 := by
    have hmask : (s.cr3 &&& 0xfe0#64) &&& 31#64 = 0 := by
      rw [BitVec.and_assoc, show 0xfe0#64 &&& 31#64 = 0#64 by decide, BitVec.and_zero]
      rfl
    have := congrArg BitVec.toNat hmask
    rw [BitVec.toNat_and, show (31#64).toNat = 2 ^ 5 - 1 from rfl, Nat.and_two_pow_sub_one_eq_mod] at this
    exact this
  omega

/-- **The walker stays inside of the pages it maps** exactly for the addresses whose root entry, behind the bits 5 to 11
of CR3, is still in the page of the root table. -/
theorem walkerInside_iff (hfor : s.mmu.IsFor pt) (va : BitVec 64) :
    WalkerInside pt s va ↔ (s.cr3 &&& 0xfe0#64).toNat + pt.bytes * pt.index va s.mmu.rootLevel < 4096 := by
  rw [show (s.cr3 &&& 0xfe0#64).toNat = rootOffset s from rfl, ← rootOffset_bound, ← inside_initWalker_iff]
  exact ⟨fun h => h.initWalker hfor.one_le_rootLevel, walkerInside_of_initWalker hfor⟩

/-- A guest with 32-bit paging, to be given a CR3. -/
def vcpu32 : Vcpu := { smallVcpu vmcs32 0 fun _ => 0 with mmu := contextFor vmcs32 (some 1) }

/-- With CR3 = 0x1000 the walk of any address is inside. -/
theorem walkerInside_iff_aligned : WalkerInside .pt32 { vcpu32 with cr3 := 0x1000 } 0xffc00000 :=
  (@walkerInside_iff .pt32 { vcpu32 with cr3 := 0x1000 } ⟨rfl, rfl⟩ 0xffc00000).2 (by decide)

/-- With CR3 = 0x20 the entry of 0xffc00000 is behind the page. -/
theorem cr3_moves_table : ¬∀ s cr3 va s', isPaging s.vmcs = true → s.mmu = contextFor s.vmcs s.mmu.rootHpa →
    cr3HasReservedBits s cr3 = some false → setCr3 s cr3 = some s' → WalkerInside s.mmu.ops.ptType s' va := by
  intro h
  have hin := (h vcpu32 0x20 0xffc00000 { vcpu32 with cr3 := 0x20 } (by decide) rfl (by decide) rfl).initWalker (by decide)
  rw [inside_initWalker_iff] at hin
  exact absurd hin (by decide)

end LearnKvm
