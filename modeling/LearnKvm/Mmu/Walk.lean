import LearnKvm.Mmu.Paging

/-!
# The guest walk

`fetch_guest` continues a walk from the level where the walker stands, and the fault handler calls it several times on
one walker while it sets accessed and dirty bits in the entries it meets.  Two facts make the walk a function of the
address alone: a walk down to a level goes on from there as a fresh walk would (`fetchGuest_fetchGuest`), and setting
accessed and dirty bits changes no walk (`SameGuest.fetchGuest_eq`).  `SameGuest` relates two states with the same
guest paging configuration whose tables differ at most in that way.
-/

namespace LearnKvm

variable {pt : PtType}

/-- A walker up to the list of entries it has read. -/
def GuestWalker.forget (w : GuestWalker) : GuestWalker := { w with visited := [] }

private theorem fetchGuestLoop_visited (s : Vcpu) (level : Nat) (addr : BitVec 64) (n : Nat) (table ar : BitVec 64)
    (visited : List Visit) :
    fetchGuestLoop pt s level addr n table ar visited =
      ({ (fetchGuestLoop pt s level addr n table ar []).1 with
          visited := visited ++ (fetchGuestLoop pt s level addr n table ar []).1.visited },
        (fetchGuestLoop pt s level addr n table ar []).2) := by
  induction n generalizing table ar visited with
  | zero => simp [fetchGuestLoop]
  | succ n ih =>
    unfold fetchGuestLoop
    dsimp only
    split
    · simp
    · rw [ih, ih _ _ ([] ++ _)]
      simp

/-- A walk does not depend on what the walker has read before. -/
theorem fetchGuest_forget (s : Vcpu) {w w' : GuestWalker} (h : w.forget = w'.forget) (level : Nat)
    (addr : BitVec 64) :
    (fetchGuest pt s w level addr).1.forget = (fetchGuest pt s w' level addr).1.forget ∧
      (fetchGuest pt s w level addr).2 = (fetchGuest pt s w' level addr).2 := by
  obtain ⟨l, t, ar, v⟩ := w
  obtain ⟨l', t', ar', v'⟩ := w'
  simp only [GuestWalker.forget, GuestWalker.mk.injEq, and_true] at h
  obtain ⟨rfl, rfl, rfl⟩ := h
  unfold fetchGuest
  dsimp only
  rw [fetchGuestLoop_visited, fetchGuestLoop_visited _ _ _ _ _ _ v']
  exact ⟨rfl, rfl⟩

/-- A walk stops at the level asked for or above it. -/
theorem level_fetchGuest (s : Vcpu) (w : GuestWalker) {level : Nat} (addr : BitVec 64) (h : level ≤ w.level) :
    level ≤ (fetchGuest pt s w level addr).1.level ∧ (fetchGuest pt s w level addr).1.level ≤ w.level := by
  obtain ⟨n, table, ar, visited⟩ := w
  unfold fetchGuest
  dsimp only at h ⊢
  induction n generalizing table ar visited with
  | zero => simpa [fetchGuestLoop] using h
  | succ n ih =>
    unfold fetchGuestLoop
    dsimp only
    split
    · exact ⟨h, le_rfl⟩
    · rename_i hstop
      simp only [Bool.or_eq_true, decide_eq_true_eq, not_or] at hstop
      obtain ⟨h1, h2⟩ := ih _ _ _ (by omega)
      exact ⟨h1, h2.trans (Nat.le_succ n)⟩

private theorem fetchGuestLoop_again (s : Vcpu) {level level' : Nat} (addr : BitVec 64) (hle : level' ≤ level) (n : Nat)
    (hn : level ≤ n) (table ar : BitVec 64) (visited : List Visit) :
    (fetchGuest pt s (fetchGuestLoop pt s level addr n table ar visited).1 level' addr).1.forget =
        (fetchGuestLoop pt s level' addr n table ar visited).1.forget ∧
      (fetchGuest pt s (fetchGuestLoop pt s level addr n table ar visited).1 level' addr).2 =
        (fetchGuestLoop pt s level' addr n table ar visited).2 := by
  induction n generalizing table ar visited with
  | zero => exact ⟨rfl, rfl⟩
  | succ n ih =>
    by_cases hstop : (level = n + 1 || !isPresentPte (readEntry pt s (entryAddr pt table (pt.index addr (n + 1)))) ||
        isLargePde pt s (n + 1) (readEntry pt s (entryAddr pt table (pt.index addr (n + 1))))) = true
    · -- the first walk has stopped here, so the second one starts here
      have h1 : (fetchGuestLoop pt s level addr (n + 1) table ar visited).1.forget =
          (GuestWalker.mk (n + 1) table ar visited).forget := by
        rw [fetchGuestLoop]
        dsimp only
        rw [if_pos hstop]
        rfl
      exact fetchGuest_forget s h1 level' addr
    · have hstop' : ¬(level' = n + 1 || !isPresentPte (readEntry pt s (entryAddr pt table (pt.index addr (n + 1)))) ||
          isLargePde pt s (n + 1) (readEntry pt s (entryAddr pt table (pt.index addr (n + 1))))) = true := by
        simp only [Bool.or_eq_true, decide_eq_true_eq, not_or] at hstop ⊢
        exact ⟨⟨by omega, hstop.1.2⟩, hstop.2⟩
      have hlev : level ≤ n := by
        simp only [Bool.or_eq_true, decide_eq_true_eq, not_or] at hstop
        omega
      rw [fetchGuestLoop, fetchGuestLoop]
      dsimp only
      rw [if_neg hstop, if_neg hstop']
      exact ih hlev ..

/-- A walk down to `level` continues to a lower level as a walk from the start would. -/
theorem fetchGuest_fetchGuest (s : Vcpu) (w : GuestWalker) {level level' : Nat} (addr : BitVec 64)
    (hle : level' ≤ level) (hw : level ≤ w.level) :
    (fetchGuest pt s (fetchGuest pt s w level addr).1 level' addr).1.forget =
        (fetchGuest pt s w level' addr).1.forget ∧
      (fetchGuest pt s (fetchGuest pt s w level addr).1 level' addr).2 = (fetchGuest pt s w level' addr).2 :=
  fetchGuestLoop_again s addr hle w.level hw w.table w.inheritedAr w.visited

/-! ### Aligned tables -/

/-- The table pointer is aligned to entries, and the inherited rights are the user and the write bit. -/
structure GuestWalker.Ok (pt : PtType) (w : GuestWalker) : Prop where
  aligned : ByteMem.Aligned pt.bytes w.table
  rights : ∀ i, w.inheritedAr.hasBit i = true → i = 1 ∨ i = 2

theorem bytes_dvd (pt : PtType) : pt.bytes ∣ 2 ^ 64 := by cases pt <;> decide

private theorem aligned_of_bits {a : BitVec 64} (h : ∀ i, i < 3 → a.hasBit i = false) : ByteMem.Aligned pt.bytes a := by
  have h8 : a.toNat % 8 = 0 := by
    have h3 : a.toNat % 2 ^ 3 = 0 := by
      apply Nat.eq_of_testBit_eq
      intro i
      rw [Nat.testBit_mod_two_pow, Nat.zero_testBit]
      by_cases hi : i < 3
      · have := h i hi
        simp only [BitVec.hasBit, ← BitVec.testBit_toNat] at this
        simp [this]
      · simp [hi]
    simpa using h3
  unfold ByteMem.Aligned
  cases pt
  · show a.toNat % 4 = 0
    omega
  · exact h8

theorem aligned_hpaOf (p : Pfn) : ByteMem.Aligned pt.bytes (hpaOf p) :=
  aligned_of_bits fun i hi => by
    rw [hasBit_hpaOf]
    simp [show ¬12 ≤ i by omega]

theorem aligned_entryAddr {table : BitVec 64} (h : ByteMem.Aligned pt.bytes table) (index : Nat) :
    ByteMem.Aligned pt.bytes (entryAddr pt table index) := by
  unfold ByteMem.Aligned entryAddr at *
  rw [BitVec.toNat_add, BitVec.toNat_ofNat, Nat.add_mod_mod, Nat.mod_mod_of_dvd _ (bytes_dvd pt), Nat.add_mod, h]
  simp

theorem ok_initWalker (s : Vcpu) : (initWalker s).Ok pt where
  aligned := aligned_of_bits fun i hi => by
    unfold initWalker kmapAtomic
    dsimp only
    rw [BitVec.hasBit_or, hasBit_hpaOf, BitVec.hasBit_and, BitVec.hasBit_not, BitVec.hasBit_or]
    have : cr3FlagsMask.hasBit i = true := by
      unfold cr3FlagsMask
      rw [Bits.hasBit_lowMask (by decide)]
      simp
      omega
    simp [this, show ¬12 ≤ i by omega]
  rights i hi := by
    simp only [initWalker, BitVec.hasBit_or, hasBit_ptUserMask, hasBit_ptWritableMask, Bool.or_eq_true,
      decide_eq_true_eq] at hi
    omega

private theorem ok_fetchGuestLoop (s : Vcpu) (level : Nat) (addr : BitVec 64) (n : Nat) {table ar : BitVec 64}
    (visited : List Visit) (ht : ByteMem.Aligned pt.bytes table) (har : ∀ i, ar.hasBit i = true → i = 1 ∨ i = 2) :
    (fetchGuestLoop pt s level addr n table ar visited).1.Ok pt ∧
      ByteMem.Aligned pt.bytes (fetchGuestLoop pt s level addr n table ar visited).2 := by
  induction n generalizing table ar visited with
  | zero => exact ⟨⟨ht, har⟩, ht⟩
  | succ n ih =>
    unfold fetchGuestLoop
    dsimp only
    split
    · exact ⟨⟨ht, har⟩, aligned_entryAddr ht _⟩
    · refine ih _ (aligned_hpaOf _) fun i hi => ?_
      split at hi
      · rw [BitVec.hasBit_and, Bool.and_eq_true] at hi
        exact har i hi.1
      · exact har i hi

theorem ok_fetchGuest (s : Vcpu) {w : GuestWalker} (h : w.Ok pt) (level : Nat) (addr : BitVec 64) :
    (fetchGuest pt s w level addr).1.Ok pt ∧ ByteMem.Aligned pt.bytes (fetchGuest pt s w level addr).2 :=
  ok_fetchGuestLoop s level addr w.level w.visited h.aligned h.rights

/-! ### Accessed and dirty bits -/

/-- `e'` is `e` with some accessed and dirty bits added. -/
structure EntryLe (e e' : BitVec 64) : Prop where
  eq : ∀ i, i ≠ 5 → i ≠ 6 → e'.hasBit i = e.hasBit i
  le : ∀ i, e.hasBit i = true → e'.hasBit i = true

theorem EntryLe.refl (e : BitVec 64) : EntryLe e e := ⟨fun _ _ _ => rfl, fun _ h => h⟩

theorem EntryLe.trans {e e' e'' : BitVec 64} (h : EntryLe e e') (h' : EntryLe e' e'') : EntryLe e e'' :=
  ⟨fun i h5 h6 => (h'.eq i h5 h6).trans (h.eq i h5 h6), fun i hi => h'.le i (h.le i hi)⟩

/-- Masks without the accessed and dirty bits do not tell the two entries apart. -/
theorem EntryLe.and_eq {e e' mask : BitVec 64} (h : EntryLe e e') (h5 : mask.hasBit 5 = false)
    (h6 : mask.hasBit 6 = false) : e' &&& mask = e &&& mask := by
  apply BitVec.eq_of_hasBit
  intro i _
  rw [BitVec.hasBit_and, BitVec.hasBit_and]
  by_cases hi5 : i = 5
  · rw [hi5, h5, Bool.and_false, Bool.and_false]
  · by_cases hi6 : i = 6
    · rw [hi6, h6, Bool.and_false, Bool.and_false]
    · rw [h.eq i hi5 hi6]

/-- Two states with the same paging mode, control registers and memory slots, whose guest tables differ at most in
accessed and dirty bits that are set in the second. -/
structure SameGuest (pt : PtType) (s s' : Vcpu) : Prop where
  rootLevel : s'.mmu.rootLevel = s.mmu.rootLevel
  cr3 : s'.cr3 = s.cr3
  longMode : isLongMode s'.vmcs = isLongMode s.vmcs
  pse : isPse s'.vmcs = isPse s.vmcs
  writeProtection : isWriteProtection s'.vmcs = isWriteProtection s.vmcs
  badPage : s'.badPage = s.badPage
  gpaToHpa : ∀ gpa, gpaToHpa s'.kvm gpa = gpaToHpa s.kvm gpa
  entries : ∀ a, ByteMem.Aligned pt.bytes a → EntryLe (readEntry pt s a) (readEntry pt s' a)

namespace SameGuest

theorem refl (s : Vcpu) : SameGuest pt s s :=
  ⟨rfl, rfl, rfl, rfl, rfl, rfl, fun _ => rfl, fun _ _ => EntryLe.refl _⟩

theorem trans {s s' s'' : Vcpu} (h : SameGuest pt s s') (h' : SameGuest pt s' s'') : SameGuest pt s s'' :=
  ⟨h'.rootLevel.trans h.rootLevel, h'.cr3.trans h.cr3, h'.longMode.trans h.longMode, h'.pse.trans h.pse,
    h'.writeProtection.trans h.writeProtection, h'.badPage.trans h.badPage,
    fun gpa => (h'.gpaToHpa gpa).trans (h.gpaToHpa gpa), fun a ha => (h.entries a ha).trans (h'.entries a ha)⟩

variable {s s' : Vcpu}

theorem safeGpaToHpa_eq (h : SameGuest pt s s') (gpa : BitVec 64) : safeGpaToHpa s' gpa = safeGpaToHpa s gpa := by
  unfold safeGpaToHpa
  rw [h.gpaToHpa, h.badPage]

theorem initWalker_eq (h : SameGuest pt s s') : initWalker s' = initWalker s := by
  unfold initWalker
  rw [h.safeGpaToHpa_eq, h.cr3, h.rootLevel]

theorem isLargePde_eq (h : SameGuest pt s s') (level : Nat) {e e' : BitVec 64} (he : EntryLe e e') :
    isLargePde pt s' level e' = isLargePde pt s level e := by
  unfold isLargePde
  rw [and_ptPageSizeMask, and_ptPageSizeMask, he.eq 7 (by decide) (by decide), h.pse]

private theorem fetchGuestLoop_eq (h : SameGuest pt s s') (level : Nat) (addr : BitVec 64) (n : Nat)
    {table ar : BitVec 64} (visited : List Visit) (ht : ByteMem.Aligned pt.bytes table)
    (har : ∀ i, ar.hasBit i = true → i = 1 ∨ i = 2) :
    fetchGuestLoop pt s' level addr n table ar visited = fetchGuestLoop pt s level addr n table ar visited := by
  induction n generalizing table ar visited with
  | zero => rfl
  | succ n ih =>
    have he := h.entries (entryAddr pt table (pt.index addr (n + 1))) (aligned_entryAddr ht _)
    have hbase : readEntry pt s' (entryAddr pt table (pt.index addr (n + 1))) &&& pt.baseAddrMask =
        readEntry pt s (entryAddr pt table (pt.index addr (n + 1))) &&& pt.baseAddrMask := by
      cases pt
      · exact he.and_eq (by simp [PtType.baseAddrMask]) (by simp [PtType.baseAddrMask])
      · exact he.and_eq (by simp [PtType.baseAddrMask]) (by simp [PtType.baseAddrMask])
    have har' : ar &&& readEntry pt s' (entryAddr pt table (pt.index addr (n + 1))) =
        ar &&& readEntry pt s (entryAddr pt table (pt.index addr (n + 1))) := by
      rw [BitVec.and_comm, BitVec.and_comm ar]
      refine he.and_eq ?_ ?_
      · exact Bool.eq_false_iff.2 fun h5 => by have := har 5 h5; omega
      · exact Bool.eq_false_iff.2 fun h6 => by have := har 6 h6; omega
    unfold fetchGuestLoop
    dsimp only
    rw [h.isLargePde_eq _ he, isPresentPte_eq, isPresentPte_eq, he.eq 0 (by decide) (by decide), hbase, har',
      h.longMode, h.safeGpaToHpa_eq]
    split
    · rfl
    · refine ih _ (aligned_hpaOf _) fun i hi => ?_
      split at hi
      · rw [BitVec.hasBit_and, Bool.and_eq_true] at hi
        exact har i hi.1
      · exact har i hi

/-- Accessed and dirty bits change no walk. -/
theorem fetchGuest_eq (h : SameGuest pt s s') {w : GuestWalker} (hw : w.Ok pt) (level : Nat) (addr : BitVec 64) :
    fetchGuest pt s' w level addr = fetchGuest pt s w level addr :=
  h.fetchGuestLoop_eq level addr w.level w.visited hw.aligned hw.rights

/-- Or-ing the accessed or the dirty bit into an entry. -/
theorem orEntry {a mask : BitVec 64} (ha : ByteMem.Aligned pt.bytes a)
    (hmask : ∀ i, mask.hasBit i = true → i = 5 ∨ i = 6) : SameGuest pt s (orEntry pt s a mask) := by
  refine ⟨rfl, rfl, rfl, rfl, rfl, rfl, fun _ => rfl, fun b hb => ?_⟩
  have hsize : ∀ i, mask.hasBit i = true → i < 8 * pt.bytes := by
    intro i hi
    have := hmask i hi
    cases pt <;> simp only [PtType.bytes] <;> omega
  have hload : readEntry pt (LearnKvm.orEntry pt s a mask) b =
      if b = a then readEntry pt s a ||| mask else readEntry pt s b :=
    ByteMem.load_orAt_aligned (bytes_dvd pt) s.mem ha hb hsize
  rw [hload]
  split
  · rename_i heq
    subst heq
    refine ⟨fun i h5 h6 => ?_, fun i hi => ?_⟩
    · rw [BitVec.hasBit_or]
      have : mask.hasBit i = false := Bool.eq_false_iff.2 fun h => by have := hmask i h; omega
      rw [this, Bool.or_false]
    · rw [BitVec.hasBit_or, hi, Bool.true_or]
  · exact EntryLe.refl _

end SameGuest

theorem readEntry_orEntry_self {s : Vcpu} {a mask : BitVec 64} (ha : ByteMem.Aligned pt.bytes a)
    (hmask : ∀ i, mask.hasBit i = true → i = 5 ∨ i = 6) :
    readEntry pt (orEntry pt s a mask) a = readEntry pt s a ||| mask := by
  have hsize : ∀ i, mask.hasBit i = true → i < 8 * pt.bytes := by
    intro i hi
    have := hmask i hi
    cases pt <;> simp only [PtType.bytes] <;> omega
  have := ByteMem.load_orAt_aligned (bytes_dvd pt) s.mem ha ha hsize
  rwa [if_pos rfl] at this

/-! ### The walk of an address -/

variable (pt) in
/-- The walk of `va` in the guest tables down to a level. -/
def guestWalk (s : Vcpu) (va : BitVec 64) (level : Nat) : GuestWalker × BitVec 64 :=
  fetchGuest pt s (initWalker s) level va

variable (pt) in
/-- The guest entry at which the walk of `va` down to a level stops. -/
def guestPte (s : Vcpu) (va : BitVec 64) (level : Nat) : BitVec 64 := readEntry pt s (guestWalk pt s va level).2

variable (pt) in
/-- The level at which the walk of `va` ends. -/
def guestLevel (s : Vcpu) (va : BitVec 64) : Nat := (guestWalk pt s va 1).1.level

variable {s s' : Vcpu} {va : BitVec 64}

theorem aligned_guestWalk (s : Vcpu) (va : BitVec 64) (level : Nat) :
    ByteMem.Aligned pt.bytes (guestWalk pt s va level).2 := (ok_fetchGuest s (ok_initWalker s) level va).2

theorem SameGuest.guestWalk_eq (h : SameGuest pt s s') (va : BitVec 64) (level : Nat) :
    guestWalk pt s' va level = guestWalk pt s va level := by
  unfold guestWalk
  rw [h.initWalker_eq, h.fetchGuest_eq (ok_initWalker s)]

theorem SameGuest.guestPte_le (h : SameGuest pt s s') (va : BitVec 64) (level : Nat) :
    EntryLe (guestPte pt s va level) (guestPte pt s' va level) := by
  unfold guestPte
  rw [h.guestWalk_eq]
  exact h.entries _ (aligned_guestWalk s va level)

theorem SameGuest.guestLevel_eq (h : SameGuest pt s s') (va : BitVec 64) :
    guestLevel pt s' va = guestLevel pt s va := by
  unfold guestLevel
  rw [h.guestWalk_eq]

/-- The walks of the guest tables meet the same entries, up to accessed and dirty bits that are set in the second. -/
structure SameWalks (pt : PtType) (s s' : Vcpu) : Prop where
  rootLevel : s'.mmu.rootLevel = s.mmu.rootLevel
  longMode : isLongMode s'.vmcs = isLongMode s.vmcs
  writeProtection : isWriteProtection s'.vmcs = isWriteProtection s.vmcs
  gpaToHpa : ∀ gpa, gpaToHpa s'.kvm gpa = gpaToHpa s.kvm gpa
  guestWalk_eq : ∀ va level, guestWalk pt s' va level = guestWalk pt s va level
  guestPte_le : ∀ va level, 1 ≤ level → level ≤ s.mmu.rootLevel →
    EntryLe (guestPte pt s va level) (guestPte pt s' va level)

theorem SameGuest.sameWalks (h : SameGuest pt s s') : SameWalks pt s s' :=
  ⟨h.rootLevel, h.longMode, h.writeProtection, h.gpaToHpa, h.guestWalk_eq, fun va level _ _ => h.guestPte_le va level⟩

theorem SameWalks.trans {s s' s'' : Vcpu} (h : SameWalks pt s s') (h' : SameWalks pt s' s'') : SameWalks pt s s'' :=
  ⟨h'.rootLevel.trans h.rootLevel, h'.longMode.trans h.longMode, h'.writeProtection.trans h.writeProtection,
    fun gpa => (h'.gpaToHpa gpa).trans (h.gpaToHpa gpa), fun va l => (h'.guestWalk_eq va l).trans (h.guestWalk_eq va l),
    fun va l h1 hl => (h.guestPte_le va l h1 hl).trans (h'.guestPte_le va l h1 (h.rootLevel ▸ hl))⟩

theorem SameWalks.guestLevel_eq (h : SameWalks pt s s') (va : BitVec 64) :
    guestLevel pt s' va = guestLevel pt s va := by
  unfold guestLevel
  rw [h.guestWalk_eq]

/-- A walk whose entries are unchanged is unchanged. -/
theorem fetchGuestLoop_entries (hlong : isLongMode s'.vmcs = isLongMode s.vmcs) (hpse : isPse s'.vmcs = isPse s.vmcs)
    (hhpa : ∀ gpa, safeGpaToHpa s' gpa = safeGpaToHpa s gpa) {level : Nat} (addr : BitVec 64) (n : Nat)
    (table ar : BitVec 64) (visited : List Visit)
    (hv : ∀ v ∈ (fetchGuestLoop pt s level addr n table ar visited).1.visited,
      readEntry pt s' v.ent = readEntry pt s v.ent) :
    fetchGuestLoop pt s' level addr n table ar visited = fetchGuestLoop pt s level addr n table ar visited ∧
      (1 ≤ level → level ≤ n → readEntry pt s' (fetchGuestLoop pt s level addr n table ar visited).2 =
        readEntry pt s (fetchGuestLoop pt s level addr n table ar visited).2) := by
  induction n generalizing table ar visited with
  | zero => exact ⟨rfl, fun h1 h0 => absurd (h1.trans h0) (by decide)⟩
  | succ n ih =>
    have hent : readEntry pt s' (entryAddr pt table (pt.index addr (n + 1))) =
        readEntry pt s (entryAddr pt table (pt.index addr (n + 1))) := by
      refine hv { level := n + 1, page := table &&& pageMask, ent := entryAddr pt table (pt.index addr (n + 1)) } ?_
      unfold fetchGuestLoop
      dsimp only
      split
      · simp
      · rw [fetchGuestLoop_visited]
        simp
    have hlarge : ∀ pte, isLargePde pt s' (n + 1) pte = isLargePde pt s (n + 1) pte := fun pte => by
      unfold isLargePde
      rw [hpse]
    unfold fetchGuestLoop at hv ⊢
    dsimp only at hv ⊢
    rw [hent, hlarge, hlong, hhpa]
    split
    · exact ⟨rfl, fun _ _ => hent⟩
    · rename_i hstop
      rw [if_neg hstop] at hv
      simp only [Bool.or_eq_true, decide_eq_true_eq, not_or] at hstop
      obtain ⟨h1, h2⟩ := ih _ _ _ hv
      exact ⟨h1, fun hpos hn => h2 hpos (by omega)⟩

/-- The guest has left its control registers, and every entry that some walk reads, as they were. -/
structure SamePaging (pt : PtType) (s s' : Vcpu) : Prop where
  cr3 : s'.cr3 = s.cr3
  longMode : isLongMode s'.vmcs = isLongMode s.vmcs
  pse : isPse s'.vmcs = isPse s.vmcs
  writeProtection : isWriteProtection s'.vmcs = isWriteProtection s.vmcs
  badPage : s'.badPage = s.badPage
  gpaToHpa : ∀ gpa, gpaToHpa s'.kvm gpa = gpaToHpa s.kvm gpa
  entries : ∀ va level, ∀ v ∈ (guestWalk pt s va level).1.visited, readEntry pt s' v.ent = readEntry pt s v.ent

namespace SamePaging

theorem refl (s : Vcpu) : SamePaging pt s s := ⟨rfl, rfl, rfl, rfl, rfl, fun _ => rfl, fun _ _ _ _ => rfl⟩

theorem safeGpaToHpa_eq (h : SamePaging pt s s') (gpa : BitVec 64) : safeGpaToHpa s' gpa = safeGpaToHpa s gpa := by
  unfold safeGpaToHpa
  rw [h.gpaToHpa, h.badPage]

theorem sameWalks (h : SamePaging pt s s') (hroot : s'.mmu.rootLevel = s.mmu.rootLevel) : SameWalks pt s s' := by
  have hinit : initWalker s' = initWalker s := by
    unfold initWalker
    rw [h.safeGpaToHpa_eq, h.cr3, hroot]
  have hwalk : ∀ va level, guestWalk pt s' va level = guestWalk pt s va level := by
    intro va level
    unfold guestWalk
    rw [hinit]
    exact (fetchGuestLoop_entries h.longMode h.pse h.safeGpaToHpa_eq va _ _ _ _ (h.entries va level)).1
  refine ⟨hroot, h.longMode, h.writeProtection, h.gpaToHpa, hwalk, fun va level hpos hle => ?_⟩
  unfold guestPte
  rw [hwalk]
  have := (fetchGuestLoop_entries h.longMode h.pse h.safeGpaToHpa_eq va _ _ _ _ (h.entries va level)).2 hpos hle
  exact this ▸ EntryLe.refl _

end SamePaging

/-- The walk stops at a table whose entry is asked for, is not present or maps a large page. -/
private theorem fetchGuestLoop_stop (s : Vcpu) {level : Nat} (hpos : 1 ≤ level) (addr : BitVec 64) (n : Nat)
    (hn : level ≤ n) (table ar : BitVec 64) (visited : List Visit) :
    let w := fetchGuestLoop pt s level addr n table ar visited
    w.2 = entryAddr pt w.1.table (pt.index addr w.1.level) ∧
      (w.1.level = level ∨ (readEntry pt s w.2).hasBit 0 = false ∨
        isLargePde pt s w.1.level (readEntry pt s w.2) = true) := by
  induction n generalizing table ar visited with
  | zero => omega
  | succ n ih =>
    unfold fetchGuestLoop
    dsimp only
    split
    · rename_i hstop
      refine ⟨rfl, ?_⟩
      simp only [Bool.or_eq_true, decide_eq_true_eq, Bool.not_eq_true', isPresentPte_eq] at hstop
      rcases hstop with (h | h) | h
      · exact Or.inl h.symm
      · exact Or.inr (Or.inl h)
      · exact Or.inr (Or.inr h)
    · rename_i hstop
      simp only [Bool.or_eq_true, decide_eq_true_eq, not_or] at hstop
      exact ih (by omega) ..

theorem guestWalk_stop (s : Vcpu) (va : BitVec 64) {level : Nat} (hpos : 1 ≤ level) (hle : level ≤ s.mmu.rootLevel) :
    (guestWalk pt s va level).2 =
        entryAddr pt (guestWalk pt s va level).1.table (pt.index va (guestWalk pt s va level).1.level) ∧
      ((guestWalk pt s va level).1.level = level ∨ (guestPte pt s va level).hasBit 0 = false ∨
        isLargePde pt s (guestWalk pt s va level).1.level (guestPte pt s va level) = true) :=
  fetchGuestLoop_stop s hpos va s.mmu.rootLevel hle _ _ _

/-- The walk goes on below a level. -/
def GoesOn (pt : PtType) (s : Vcpu) (va : BitVec 64) (level : Nat) : Prop :=
  (guestWalk pt s va level).1.level = level ∧ (guestPte pt s va level).hasBit 0 = true ∧
    isLargePde pt s level (guestPte pt s va level) = false

/-- One level of the walk. -/
theorem guestWalk_succ (s : Vcpu) (va : BitVec 64) {l : Nat} (hpos : 1 ≤ l) (hle : l + 1 ≤ s.mmu.rootLevel) :
    (GoesOn pt s va (l + 1) ∧ (guestWalk pt s va l).1.level = l ∧
        (guestWalk pt s va l).1.inheritedAr =
          (if l + 1 ≠ 3 || isLongMode s.vmcs then
            (guestWalk pt s va (l + 1)).1.inheritedAr &&& guestPte pt s va (l + 1)
          else (guestWalk pt s va (l + 1)).1.inheritedAr)) ∨
      (¬GoesOn pt s va (l + 1) ∧ (guestWalk pt s va l).1.forget = (guestWalk pt s va (l + 1)).1.forget ∧
        (guestWalk pt s va l).2 = (guestWalk pt s va (l + 1)).2) := by
  obtain ⟨hfw, hfe⟩ := @fetchGuest_fetchGuest pt s (initWalker s) _ _ va (Nat.le_succ l) hle
  obtain ⟨hent, hstop⟩ := @guestWalk_stop pt s va _ (Nat.succ_pos l) hle
  have hlev := (@level_fetchGuest pt s (initWalker s) (l + 1) va hle).1
  unfold GoesOn guestPte
  unfold guestPte at hstop
  change (fetchGuest pt s (guestWalk pt s va (l + 1)).1 l va).1.forget = (guestWalk pt s va l).1.forget at hfw
  change (fetchGuest pt s (guestWalk pt s va (l + 1)).1 l va).2 = (guestWalk pt s va l).2 at hfe
  change l + 1 ≤ (guestWalk pt s va (l + 1)).1.level at hlev
  generalize guestWalk pt s va (l + 1) = w at *
  generalize guestWalk pt s va l = w' at *
  obtain ⟨⟨n, table, ar, visited⟩, e⟩ := w
  obtain ⟨⟨n', table', ar', visited'⟩, e'⟩ := w'
  obtain ⟨n, rfl⟩ : ∃ k, n = k + 1 := ⟨n - 1, by dsimp only at hlev; omega⟩
  dsimp only at *
  subst hent
  unfold fetchGuest fetchGuestLoop at hfw hfe
  dsimp only at hfw hfe
  generalize hg : readEntry pt s (entryAddr pt table (pt.index va (n + 1))) = gent at *
  by_cases hgo : gent.hasBit 0 = true ∧ isLargePde pt s (n + 1) gent = false
  · -- the walk stopped because it had reached the level
    obtain rfl : n = l := by
      rcases hstop with h | h | h
      · omega
      · exact absurd hgo.1 (by simp [h])
      · exact absurd hgo.2 (by simp [h])
    left
    refine ⟨⟨rfl, hgo⟩, ?_⟩
    obtain ⟨m, rfl⟩ : ∃ m, n = m + 1 := ⟨n - 1, by omega⟩
    unfold fetchGuestLoop at hfw
    simp only [hgo, isPresentPte_eq, GuestWalker.forget, show ¬m + 1 = m + 1 + 1 by omega, decide_false,
      Bool.not_true, Bool.or_false, Bool.false_eq_true, if_false, decide_true, Bool.true_or, if_true,
      GuestWalker.mk.injEq] at hfw
    exact ⟨hfw.1.symm, hfw.2.2.1.symm⟩
  · right
    have hcond : (decide (l = n + 1) || !isPresentPte gent || isLargePde pt s (n + 1) gent) = true := by
      simp only [isPresentPte_eq]
      cases h0 : gent.hasBit 0 <;> cases hl : isLargePde pt s (n + 1) gent <;> simp_all
    rw [if_pos hcond] at hfw hfe
    refine ⟨fun h => hgo ⟨h.2.1, ?_⟩, hfw.symm, hfe.symm⟩
    rw [h.1]
    exact h.2.2

theorem level_guestWalk_root (s : Vcpu) (va : BitVec 64) (hpos : 1 ≤ s.mmu.rootLevel) :
    (guestWalk pt s va s.mmu.rootLevel).1.level = s.mmu.rootLevel ∧
      (guestWalk pt s va s.mmu.rootLevel).1.inheritedAr = ptUserMask ||| ptWritableMask := by
  obtain ⟨n, hn⟩ : ∃ n, s.mmu.rootLevel = n + 1 := ⟨s.mmu.rootLevel - 1, by omega⟩
  unfold guestWalk fetchGuest initWalker
  simp only [hn]
  unfold fetchGuestLoop
  simp

theorem one_le_guestLevel (s : Vcpu) (va : BitVec 64) (hpos : 1 ≤ s.mmu.rootLevel) : 1 ≤ guestLevel pt s va :=
  (level_fetchGuest s (initWalker s) va hpos).1

/-- A walk reaches the level asked for unless it ends above. -/
theorem level_guestWalk (s : Vcpu) (va : BitVec 64) {l : Nat} (hpos : 1 ≤ l) (hle : l ≤ s.mmu.rootLevel) :
    (guestWalk pt s va l).1.level = max l (guestLevel pt s va) := by
  induction l with
  | zero => omega
  | succ l ih =>
    rcases Nat.eq_zero_or_pos l with rfl | hl
    · have := @one_le_guestLevel pt s va hle
      rw [Nat.zero_add, Nat.max_eq_right this]
      rfl
    · have h := ih hl (by omega)
      rcases @guestWalk_succ pt s va _ hl hle with ⟨⟨h1, -, -⟩, h2, -⟩ | ⟨-, h2, -⟩
      · omega
      · have h3 := congrArg GuestWalker.level h2
        have h4 := (@level_fetchGuest pt s (initWalker s) (l + 1) va hle).1
        simp only [GuestWalker.forget] at h3
        change l + 1 ≤ (guestWalk pt s va (l + 1)).1.level at h4
        omega

/-- Asking for a level below the end of the walk changes nothing. -/
theorem guestWalk_of_le_guestLevel (s : Vcpu) (va : BitVec 64) {l : Nat} (hpos : 1 ≤ l) (hle : l ≤ s.mmu.rootLevel)
    (hl : l ≤ guestLevel pt s va) :
    (guestWalk pt s va l).1.forget = (guestWalk pt s va 1).1.forget ∧
      (guestWalk pt s va l).2 = (guestWalk pt s va 1).2 := by
  induction l with
  | zero => omega
  | succ l ih =>
    rcases Nat.eq_zero_or_pos l with rfl | hpos'
    · exact ⟨rfl, rfl⟩
    · obtain ⟨h1, h2⟩ := ih hpos' (by omega) (by omega)
      rcases @guestWalk_succ pt s va _ hpos' hle with ⟨-, h3, -⟩ | ⟨-, h3, h4⟩
      · have := @level_guestWalk pt s va _ hpos' (by omega)
        omega
      · exact ⟨h3.symm.trans h1, h4.symm.trans h2⟩

theorem guestPte_of_le_guestLevel (s : Vcpu) (va : BitVec 64) {l : Nat} (hpos : 1 ≤ l) (hle : l ≤ s.mmu.rootLevel)
    (hl : l ≤ guestLevel pt s va) : guestPte pt s va l = guestPte pt s va 1 := by
  unfold guestPte
  rw [(guestWalk_of_le_guestLevel s va hpos hle hl).2]

/-- A walk that ends in a present entry ends at level one or in the entry of a large page. -/
theorem guestLevel_of_present (s : Vcpu) (va : BitVec 64) (hpos : 1 ≤ s.mmu.rootLevel)
    (hp : (guestPte pt s va 1).hasBit 0 = true) :
    guestLevel pt s va = 1 ∨ guestLevel pt s va = 2 ∧ isLargePde pt s 2 (guestPte pt s va 1) = true := by
  rcases (@guestWalk_stop pt s va _ le_rfl hpos).2 with h | h | h
  · exact Or.inl h
  · rw [h] at hp
    cases hp
  · have hl : (guestWalk pt s va 1).1.level = 2 := by
      unfold isLargePde at h
      simp only [Bool.and_eq_true, decide_eq_true_eq] at h
      exact h.1.1
    exact Or.inr ⟨hl, hl ▸ h⟩

/-- A walk that meets an entry that is not present ends there. -/
theorem guestPte_not_present (s : Vcpu) (va : BitVec 64) {l : Nat} (hpos : 1 ≤ l) (hle : l ≤ s.mmu.rootLevel)
    (hl : (guestPte pt s va l).hasBit 0 = false) : guestPte pt s va 1 = guestPte pt s va l := by
  refine (guestPte_of_le_guestLevel s va hpos hle ?_).symm
  by_contra hlt
  obtain ⟨l, rfl⟩ : ∃ k, l = k + 1 := ⟨l - 1, by omega⟩
  have hpos' : 1 ≤ l := by
    have := @one_le_guestLevel pt s va (by omega)
    omega
  have h1 := @level_guestWalk pt s va _ hpos hle
  have h2 := @level_guestWalk pt s va _ hpos' (by omega)
  rcases @guestWalk_succ pt s va _ hpos' hle with ⟨⟨-, h3, -⟩, -⟩ | ⟨-, h3, -⟩
  · rw [hl] at h3
    cases h3
  · have := congrArg GuestWalker.level h3
    simp only [GuestWalker.forget] at this
    omega

/-- Every entry of the guest walk of `va`, except a page-directory pointer of the PAE format, has bit `i` set. -/
def GuestGrants (pt : PtType) (s : Vcpu) (va : BitVec 64) (i : Nat) : Prop :=
  ∀ k, guestLevel pt s va ≤ k → k ≤ s.mmu.rootLevel → (k ≠ 3 ∨ isLongMode s.vmcs = true) →
    (guestPte pt s va k).hasBit i = true

/-- The rights inherited from the levels above. -/
theorem hasBit_inheritedAr (s : Vcpu) (va : BitVec 64) {i : Nat} (hi : i = 1 ∨ i = 2) {l : Nat} (hpos : 1 ≤ l)
    (hle : l ≤ s.mmu.rootLevel) :
    (guestWalk pt s va l).1.inheritedAr.hasBit i = true ↔
      ∀ k, (guestWalk pt s va l).1.level < k → k ≤ s.mmu.rootLevel → (k ≠ 3 ∨ isLongMode s.vmcs = true) →
        (guestPte pt s va k).hasBit i = true := by
  induction hd : s.mmu.rootLevel - l generalizing l with
  | zero =>
    obtain rfl : l = s.mmu.rootLevel := by omega
    obtain ⟨h1, h2⟩ := @level_guestWalk_root pt s va hpos
    rw [h1, h2]
    refine iff_of_true ?_ fun k hk hk' => absurd hk' (by omega)
    rcases hi with rfl | rfl <;> simp
  | succ d ih =>
    have ih := ih (l := l + 1) (by omega) (by omega) (by omega)
    rcases @guestWalk_succ pt s va _ hpos (by omega) with ⟨⟨h1, -, -⟩, h2, h3⟩ | ⟨-, h2, -⟩
    · rw [h1] at ih
      rw [h2, h3]
      constructor
      · intro h k hk hk' hk3
        rcases Nat.eq_or_lt_of_le (Nat.succ_le_of_lt hk) with rfl | hk
        · rw [if_pos (by simpa using hk3), BitVec.hasBit_and, Bool.and_eq_true] at h
          exact h.2
        · refine ih.1 ?_ k hk hk' hk3
          split at h
          · rw [BitVec.hasBit_and, Bool.and_eq_true] at h
            exact h.1
          · exact h
      · intro h
        have habove := ih.2 fun k hk hk' => h k (by omega) hk'
        split
        · rename_i hc
          rw [BitVec.hasBit_and, habove, h (l + 1) (by omega) (by omega) (by simpa using hc)]
          rfl
        · exact habove
    · have hlev := congrArg GuestWalker.level h2
      have har := congrArg GuestWalker.inheritedAr h2
      simp only [GuestWalker.forget] at hlev har
      rw [hlev, har]
      exact ih

/-- The rights with which `fetch` installs an entry are those that every level grants. -/
theorem hasBit_leafRights (s : Vcpu) (va : BitVec 64) (hpos : 1 ≤ s.mmu.rootLevel) {i : Nat} (hi : i = 1 ∨ i = 2)
    (hp : (guestPte pt s va 1).hasBit 0 = true) :
    ((guestWalk pt s va 1).1.inheritedAr &&& guestPte pt s va 1).hasBit i = true ↔ GuestGrants pt s va i := by
  have hgl : guestLevel pt s va ≤ s.mmu.rootLevel := (level_fetchGuest s (initWalker s) va hpos).2
  have h1 := @one_le_guestLevel pt s va hpos
  have hleaf := @guestPte_of_le_guestLevel pt s va _ h1 hgl le_rfl
  have hle := guestLevel_of_present s va hpos hp
  rw [BitVec.hasBit_and, Bool.and_eq_true, hasBit_inheritedAr s va hi le_rfl hpos]
  constructor
  · rintro ⟨ha, hb⟩ k hk hk' hk3
    rcases Nat.eq_or_lt_of_le hk with rfl | hk
    · rw [hleaf]
      exact hb
    · exact ha k hk hk' hk3
  · intro h
    refine ⟨fun k hk => h k (Nat.le_of_lt hk), ?_⟩
    rw [← hleaf]
    exact h _ le_rfl hgl (Or.inl (by omega))

/-! ### Addresses with the same indices -/

private theorem fetchGuestLoop_congr (s : Vcpu) {level : Nat} (hpos : 1 ≤ level) {va va' : BitVec 64} (n : Nat)
    (hn : level ≤ n) (hidx : ∀ k, level ≤ k → k ≤ n → pt.index va k = pt.index va' k) (table ar : BitVec 64)
    (visited : List Visit) :
    fetchGuestLoop pt s level va n table ar visited = fetchGuestLoop pt s level va' n table ar visited := by
  induction n generalizing table ar visited with
  | zero => omega
  | succ n ih =>
    unfold fetchGuestLoop
    dsimp only
    rw [hidx (n + 1) hn le_rfl]
    split
    · rfl
    · rename_i hstop
      simp only [Bool.or_eq_true, decide_eq_true_eq, not_or] at hstop
      exact ih (by omega) (fun k hk hk' => hidx k hk (by omega)) ..

theorem guestWalk_congr (s : Vcpu) {level : Nat} (hpos : 1 ≤ level) (hle : level ≤ s.mmu.rootLevel)
    {va va' : BitVec 64} (hidx : ∀ k, level ≤ k → k ≤ s.mmu.rootLevel → pt.index va k = pt.index va' k) :
    guestWalk pt s va level = guestWalk pt s va' level :=
  fetchGuestLoop_congr s hpos s.mmu.rootLevel hle hidx _ _ _

end LearnKvm
