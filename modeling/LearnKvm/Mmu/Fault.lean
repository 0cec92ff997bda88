import Mathlib.Logic.Relation
import LearnKvm.Mmu.Conserve

/-!
# The steps of the fault handler

`FaultStep pt va` lists what the fault handler of a paging context can do to the state while it handles a fault at
`va`: set the accessed bit of an entry of the guest walk, link a new page, mark a directory entry, install the entry of
`va`, exchange the root, make the entry writable and the guest entry dirty, remove the entry, give the entry back to
user accesses, inject a fault.  `pageFault_steps` says that a call of `page_fault` is a sequence of such steps, so that
an invariant of the shadow tables has to be checked for each step only.
-/

namespace LearnKvm

variable {pool : List Pfn} {lvl : Pfn → Nat} {r : Pfn} {s s' : Vcpu} {pt : PtType} {va : BitVec 64}

/-- The levels of a context that uses the format `pt`. -/
def KvmMmu.IsFor (m : KvmMmu) (pt : PtType) : Prop :=
  match pt with
  | .pt64 => m.rootLevel = m.shadowRootLevel ∧ (m.shadowRootLevel = 3 ∨ m.shadowRootLevel = 4)
  | .pt32 => m.rootLevel = 2 ∧ m.shadowRootLevel = 3

theorem KvmMmu.LevelsOk.isFor {m : KvmMmu} (h : m.LevelsOk) (hops : m.ops ≠ .nonpaging) : m.IsFor m.ops.ptType := by
  obtain ⟨ops, root, rl, srl⟩ := m
  cases ops
  · exact absurd rfl hops
  · exact h
  · exact h

/-- The guest level at which `fetch` looks for the entry of a shadow level. -/
def guestLevelFor (pt : PtType) (level : Nat) : Nat := if pt = .pt32 && decide (level > 2) then 2 else level

theorem guestLevelFor_one (pt : PtType) : guestLevelFor pt 1 = 1 := by simp [guestLevelFor]

theorem guestLevelFor_mono (pt : PtType) {l l' : Nat} (h : l ≤ l') : guestLevelFor pt l ≤ guestLevelFor pt l' := by
  unfold guestLevelFor
  cases pt
  · simp
    grind
  · simpa using h

theorem KvmMmu.IsFor.guestLevelFor_le {m : KvmMmu} (h : m.IsFor pt) {l : Nat} (hpos : 1 ≤ l)
    (hl : l ≤ m.shadowRootLevel) : 1 ≤ guestLevelFor pt l ∧ guestLevelFor pt l ≤ m.rootLevel := by
  unfold guestLevelFor
  cases pt
  · obtain ⟨h1, h2⟩ := h
    rw [h1]
    by_cases hl2 : l > 2
    · simp [hl2]
    · simp [hl2]
      omega
  · obtain ⟨h1, h2⟩ := h
    simp
    omega

theorem KvmMmu.IsFor.one_le_rootLevel {m : KvmMmu} (h : m.IsFor pt) : 1 ≤ m.rootLevel := by
  cases pt
  · rw [h.1]
    decide
  · obtain ⟨h1, h2⟩ := h
    omega

/-! ### The walker of `fetch` -/

/-- Down from level `n` on, the walker walks as a new one would. -/
structure WalkerAt (pt : PtType) (s : Vcpu) (walker : GuestWalker) (va : BitVec 64) (n : Nat) : Prop where
  level : n ≤ walker.level
  ok : walker.Ok pt
  agree : ∀ l ≤ n, (fetchGuest pt s walker l va).1.forget = (guestWalk pt s va l).1.forget ∧
    (fetchGuest pt s walker l va).2 = (guestWalk pt s va l).2

namespace WalkerAt

variable {walker : GuestWalker} {n : Nat}

theorem init (s : Vcpu) (va : BitVec 64) (h : n ≤ s.mmu.rootLevel) : WalkerAt pt s (initWalker s) va n :=
  ⟨h, ok_initWalker s, fun _ _ => ⟨rfl, rfl⟩⟩

theorem mono (h : WalkerAt pt s walker va n) {m : Nat} (hm : m ≤ n) : WalkerAt pt s walker va m :=
  ⟨hm.trans h.level, h.ok, fun l hl => h.agree l (hl.trans hm)⟩

theorem fetch (h : WalkerAt pt s walker va n) : WalkerAt pt s (fetchGuest pt s walker n va).1 va n where
  level := (level_fetchGuest s walker va h.level).1
  ok := (ok_fetchGuest s h.ok n va).1
  agree l hl := by
    obtain ⟨h1, h2⟩ := @fetchGuest_fetchGuest pt s walker _ _ va hl h.level
    obtain ⟨h3, h4⟩ := h.agree l hl
    exact ⟨h1.trans h3, h2.trans h4⟩

theorem sameGuest (h : WalkerAt pt s walker va n) (hs : SameGuest pt s s') : WalkerAt pt s' walker va n :=
  ⟨h.level, h.ok, fun l hl => by rw [hs.fetchGuest_eq h.ok, hs.guestWalk_eq]; exact h.agree l hl⟩

end WalkerAt

/-! ### The steps -/

/-- The state after a new page has been linked at an empty entry. -/
def Vcpu.linkPage (s : Vcpu) (ptr : PtePtr) (q : Pfn) (rest : List Pfn) (flags : BitVec 64) : Vcpu :=
  (s.activate q rest (some ptr)).writePte ptr (hpaOf q ||| flags)

/-- A writable entry; for a supervisor write to a page that is read-only in the guest, not for user accesses. -/
def dirtyPte (e : BitVec 64) : BitVec 64 := (if e.hasBit 10 then e else e &&& ~~~ptUserMask) ||| ptWritableMask

variable (pt) in
/-- The state after `fix_write_pf` has made an entry writable. -/
def dirtyLeaf (s : Vcpu) (va : BitVec 64) (ptr : PtePtr) : Vcpu :=
  orEntry pt
    { s.writePte ptr (dirtyPte (s.readPte ptr)) with
      kvm := markPageDirty s.kvm (gfnOf (guestPte pt s va 1 &&& pt64BaseAddrMask)) }
    (guestWalk pt s va 1).2 ptDirtyMask

/-- The entry `fix_read_pf` leaves when it gives a page back to user accesses. -/
def userPte (e : BitVec 64) : BitVec 64 := (e ||| ptUserMask) &&& ~~~ptWritableMask

/-- The directory entry on the path of `va` has the mark of large pages. -/
def PsMarked (s : Vcpu) (va : BitVec 64) : Prop :=
  ∃ p, OnPath s va 2 p ∧ (s.shadow p (pt64Index va 2)).hasBit 9 = true

variable (pt) in
/-- The guest entry at which the walk down to a level stops has been accessed, or it is a page-directory pointer of the
PAE format, where the bit is reserved. -/
def AccessedAt (s : Vcpu) (va : BitVec 64) (level : Nat) : Prop :=
  (guestPte pt s va level).hasBit 5 = true ∨ s.mmu.rootLevel = 3 ∧ (guestWalk pt s va level).1.level = 3

theorem AccessedAt.sameGuest {level : Nat} (h : AccessedAt pt s va level) (hs : SameGuest pt s s') :
    AccessedAt pt s' va level := by
  unfold AccessedAt
  rw [hs.rootLevel, hs.guestWalk_eq]
  exact h.imp_left ((hs.guestPte_le va level).le 5)

inductive FaultStep (pt : PtType) (va : BitVec 64) : Vcpu → Vcpu → Prop
  | accessed {s : Vcpu} {level : Nat} (hpos : 1 ≤ level) (hle : level ≤ s.mmu.rootLevel)
      (hg : (guestPte pt s va level).hasBit 0 = true) :
      FaultStep pt va s (orEntry pt s (guestWalk pt s va level).2 ptAccessedMask)
  | link {s : Vcpu} {l : Nat} {p q : Pfn} {rest : List Pfn} (hp : OnPath s va (l + 2) p)
      (hz : s.shadow p (pt64Index va (l + 2)) = 0) (hf : s.freePages = q :: rest)
      (hg : (guestPte pt s va (guestLevelFor pt (l + 2))).hasBit 0 = true)
      (ha : AccessedAt pt s va (guestLevelFor pt (l + 2))) :
      FaultStep pt va s (s.linkPage ⟨p, pt64Index va (l + 2)⟩ q rest
        (linkFlags pt s (l + 2) (guestPte pt s va (guestLevelFor pt (l + 2)))))
  | mark {s : Vcpu} {p : Pfn} (hp : OnPath s va 2 p) (he : (s.shadow p (pt64Index va 2)).hasBit 0 = true)
      (hl : guestLevel pt s va = 2) :
      FaultStep pt va s (s.writePte ⟨p, pt64Index va 2⟩ (s.shadow p (pt64Index va 2) ||| ptShadowPsMark))
  | leaf {s : Vcpu} {p : Pfn} (hp : OnPath s va 1 p) (hz : s.shadow p (pt64Index va 1) = 0)
      (hg : (guestPte pt s va 1).hasBit 0 = true) (hmark : guestLevel pt s va = 2 → PsMarked s va)
      (ha : AccessedAt pt s va 1) : FaultStep pt va s (installLeaf pt s va ⟨p, pt64Index va 1⟩)
  | flush {s : Vcpu} : FaultStep pt va s (nonpagingFlush s)
  | dirty {s : Vcpu} {p : Pfn} (hp : OnPath s va 1 p) (he : LeafEntry (s.shadow p (pt64Index va 1)))
      (hne : s.shadow p (pt64Index va 1) ≠ 0) (hw : (s.shadow p (pt64Index va 1)).hasBit 1 = false)
      (hperm : (s.shadow p (pt64Index va 1)).hasBit 10 = true ∨ isWriteProtection s.vmcs = false)
      (hg : (guestPte pt s va 1).hasBit 0 = true) : FaultStep pt va s (dirtyLeaf pt s va ⟨p, pt64Index va 1⟩)
  | zap {s : Vcpu} {p : Pfn} (hp : OnPath s va 1 p) (hg : (guestPte pt s va 1).hasBit 0 = false) :
      FaultStep pt va s (s.writePte ⟨p, pt64Index va 1⟩ 0)
  | user {s : Vcpu} {p : Pfn} (hp : OnPath s va 1 p) (he : LeafEntry (s.shadow p (pt64Index va 1)))
      (h11 : (s.shadow p (pt64Index va 1)).hasBit 11 = true)
      (h2 : (s.shadow p (pt64Index va 1)).hasBit 2 = false) :
      FaultStep pt va s (s.writePte ⟨p, pt64Index va 1⟩ (userPte (s.shadow p (pt64Index va 1))))
  | inject {s : Vcpu} (errCode : BitVec 32) : FaultStep pt va s (injectPageFault s va errCode)

/-! ### The bits of the entries -/

@[simp] theorem hasBit_dirtyPte (e : BitVec 64) (i : Nat) :
    (dirtyPte e).hasBit i =
      if i = 1 then true else if i = 2 then e.hasBit 10 && e.hasBit 2 else e.hasBit i := by
  unfold dirtyPte
  rw [BitVec.hasBit_or, hasBit_ptWritableMask]
  split <;> rename_i h10
  · by_cases h1 : i = 1
    · simp [h1]
    · by_cases h2 : i = 2 <;> simp [h1, h2, h10]
  · by_cases h1 : i = 1
    · simp [h1]
    · by_cases h2 : i = 2
      · simp [h2, h10]
      · simp only [BitVec.hasBit_and, BitVec.hasBit_not, hasBit_ptUserMask, h1, h2]
        by_cases hi : i < 64
        · simp [hi]
        · simp [BitVec.hasBit_of_ge e (Nat.le_of_not_lt hi)]

@[simp] theorem hasBit_userPte (e : BitVec 64) (i : Nat) :
    (userPte e).hasBit i = if i = 1 then false else if i = 2 then true else e.hasBit i := by
  unfold userPte
  rw [BitVec.hasBit_and, BitVec.hasBit_not, BitVec.hasBit_or, hasBit_ptUserMask, hasBit_ptWritableMask]
  by_cases hi : i < 64
  · by_cases h1 : i = 1
    · simp [h1]
    · by_cases h2 : i = 2 <;> simp [h1, h2, hi]
  · have h1 : i ≠ 1 := by omega
    have h2 : i ≠ 2 := by omega
    simp [h1, h2, BitVec.hasBit_of_ge e (Nat.le_of_not_lt hi)]

theorem frameOf_dirtyPte (e : BitVec 64) : frameOf (dirtyPte e) = frameOf e :=
  frameOf_congr fun i h12 _ => by simp [show i ≠ 1 by omega, show i ≠ 2 by omega]

theorem frameOf_userPte (e : BitVec 64) : frameOf (userPte e) = frameOf e :=
  frameOf_congr fun i h12 _ => by simp [show i ≠ 1 by omega, show i ≠ 2 by omega]

theorem leafEntry_dirtyPte {e : BitVec 64} (h : LeafEntry e) (hne : e ≠ 0) : LeafEntry (dirtyPte e) :=
  Or.inr (by simpa using h.resolve_left hne)

theorem leafEntry_userPte {e : BitVec 64} (h : LeafEntry e) (hne : e ≠ 0) : LeafEntry (userPte e) :=
  Or.inr (by simpa using h.resolve_left hne)

/-- The flags of a link outside of the address field. -/
theorem hasBit_linkFlags (s : Vcpu) (level : Nat) (gent : BitVec 64) (hg : gent.hasBit 0 = true) :
    (linkFlags pt s level gent).hasBit 0 = true ∧
      (∀ i, 12 ≤ i → i < 52 → (linkFlags pt s level gent).hasBit i = false) ∧
      (linkFlags pt s level gent).hasBit 63 =
        (decide (pt = .pt64) && (decide (level ≠ 3) || isLongMode s.vmcs) && gent.hasBit 63) ∧
      (level ≠ 3 ∨ isLongMode s.vmcs = true → (linkFlags pt s level gent).hasBit 1 = true ∧
        (linkFlags pt s level gent).hasBit 2 = true) := by
  unfold linkFlags
  cases hl : isLongMode s.vmcs <;> by_cases h3 : level = 3 <;> cases pt <;>
    simp [h3, hg, PtType.nonPteCopyMask, pt32NonPteCopyMask, pt64NonPteCopyMask] <;> omega

/-! ### The steps keep the invariant -/

theorem MmuInv.congr (h : MmuInv pool lvl r s) (hfree : s'.freePages = s.freePages)
    (hact : s'.kvm.activeMmuPages = s.kvm.activeMmuPages) (hshadow : s'.shadow = s.shadow)
    (hparent : ∀ p, (s'.header p).parentPte = (s.header p).parentPte)
    (hglobal : ∀ p ∈ s.kvm.activeMmuPages, (s'.header p).global = false → (s.header p).global = false ∨ lvl p = 1)
    (hmmu : s'.mmu = s.mmu) (hfailed : s'.failed = s.failed) : MmuInv pool lvl r s' :=
  ⟨hmmu ▸ h.tables.congr hfree hact hshadow hparent hglobal, hmmu ▸ h.root, hmmu ▸ h.level_root, hmmu ▸ h.levels,
    hfailed.trans h.failed⟩

theorem MmuInv.writeLeaf (h : MmuInv pool lvl r s) {p : Pfn} (hp : OnPath s va 1 p) (i : Fin 512) {e : BitVec 64}
    (he : LeafEntry e) : MmuInv pool lvl r (s.writePte ⟨p, i⟩ e) := by
  obtain ⟨hact, hlev⟩ := h.active_of_onPath hp
  exact ⟨h.tables.writeLeaf hact hlev i he, h.root, h.level_root, h.levels, h.failed⟩

theorem MmuInv.linkPage (h : MmuInv pool lvl r s) {l : Nat} {p q : Pfn} {rest : List Pfn} {flags : BitVec 64}
    (hp : OnPath s va (l + 2) p) (hz : s.shadow p (pt64Index va (l + 2)) = 0) (hf : s.freePages = q :: rest)
    (h0 : flags.hasBit 0 = true) (haddr : ∀ i, 12 ≤ i → i < 52 → flags.hasBit i = false) :
    MmuInv pool (Function.update lvl q (l + 1)) r (s.linkPage ⟨p, pt64Index va (l + 2)⟩ q rest flags) := by
  obtain ⟨hact, hlev⟩ := h.active_of_onPath hp
  have hle := hp.level_le
  have hne : ∀ x ∈ s.kvm.activeMmuPages, x ≠ q := by
    rintro x hx rfl
    exact h.tables.not_free_of_active hx (hf ▸ List.mem_cons_self)
  have h1 := h.tables.activate hf (Nat.succ_pos l) (by omega) (some ⟨p, pt64Index va (l + 2)⟩)
  have h2 := h1.link (p := p) (q := q) (i := pt64Index va (l + 2)) (e := hpaOf q ||| flags)
    (List.mem_cons_of_mem q hact) (Set.mem_insert q _) (by simp [hne p hact, hlev]) hz (by simp [Vcpu.activate])
    (by simp [h0]) (frameOf_eq fun i h12 h52 => by simp [haddr i h12 h52])
  rw [Set.insert_sdiff_self_of_notMem (by simpa using (hne r h.root_active).symm)] at h2
  refine ⟨h2, h.root, ?_, h.levels, h.failed⟩
  rw [Function.update_of_ne (hne r h.root_active)]
  exact h.level_root

theorem injectPageFault_frame (s : Vcpu) (addr : BitVec 64) (errCode : BitVec 32) :
    injectPageFault s addr errCode =
      { s with cr2 := (injectPageFault s addr errCode).cr2, vmcs := (injectPageFault s addr errCode).vmcs } := by
  unfold injectPageFault
  split <;> rfl

theorem FaultStep.inv (h : MmuInv pool lvl r s) (hpool : pool ≠ []) (hs : FaultStep pt va s s') :
    ∃ lvl' r', MmuInv pool lvl' r' s' := by
  cases hs with
  | accessed => exact ⟨lvl, r, h.congr rfl rfl rfl (fun _ => rfl) (fun _ _ => Or.inl) rfl rfl⟩
  | link hp hz hf hg =>
    obtain ⟨h0, haddr, -⟩ := hasBit_linkFlags s _ _ hg
    exact ⟨_, r, h.linkPage hp hz hf h0 haddr⟩
  | @mark p hp he =>
    obtain ⟨hact, hlev⟩ := h.active_of_onPath hp
    refine ⟨lvl, r, h.tables.writeUpper hact (by omega) he (by simp [he]) ?_, h.root, h.level_root, h.levels, h.failed⟩
    exact frameOf_congr fun i h12 _ => by simp [show i ≠ 9 by omega]
  | @leaf p hp hz hg =>
    have h1 := h.writeLeaf hp (pt64Index va 1)
      (@LeafArgs.leafEntry_commonPte s.kvm _ _ _ (leafArgs s va hg) ((guestPte pt s va 1).hasBit 6))
    refine ⟨lvl, r, h1.congr rfl ?_ rfl (fun q => ?_) (fun q hq hgl => ?_) rfl rfl⟩
    · unfold installLeaf
      dsimp only
      split
      · rw [markPageDirty_frame]
        rfl
      · rfl
    · unfold installLeaf leafHeader
      dsimp only
      split <;> rfl
    · unfold installLeaf at hgl
      dsimp only at hgl
      split at hgl
      · rename_i heq
        exact Or.inr (heq ▸ (h.active_of_onPath hp).2)
      · exact Or.inl hgl
  | flush =>
    obtain ⟨lvl', q, h1, -, -⟩ := nonpagingFlush_spec h hpool
    exact ⟨lvl', q, h1⟩
  | @dirty p hp he hne hw hperm hg =>
    have h1 := h.writeLeaf hp (pt64Index va 1) (leafEntry_dirtyPte he hne)
    refine ⟨lvl, r, h1.congr rfl ?_ rfl (fun _ => rfl) (fun _ _ => Or.inl) rfl rfl⟩
    unfold dirtyLeaf orEntry
    rw [markPageDirty_frame]
    rfl
  | zap hp hg => exact ⟨lvl, r, h.writeLeaf hp _ (Or.inl rfl)⟩
  | user hp he h11 h2 =>
    exact ⟨lvl, r, h.writeLeaf hp _ (leafEntry_userPte he (BitVec.ne_zero_of_hasBit h11))⟩
  | inject errCode =>
    rw [injectPageFault_frame]
    exact ⟨lvl, r, h.congr rfl rfl rfl (fun _ => rfl) (fun _ _ => Or.inl) rfl rfl⟩

/-! ### The steps keep the guest paging configuration -/

theorem SameGuest.of_eq (hroot : s'.mmu.rootLevel = s.mmu.rootLevel) (hcr3 : s'.cr3 = s.cr3)
    (hbad : s'.badPage = s.badPage) (hgpa : ∀ gpa, LearnKvm.gpaToHpa s'.kvm gpa = LearnKvm.gpaToHpa s.kvm gpa)
    (hmem : s'.mem = s.mem)
    (hvmcs : ∀ f ∈ [VmcsField.vmEntryControls, .cr0ReadShadow, .guestCr0, .cr4ReadShadow, .guestCr4],
      s'.vmcs f = s.vmcs f) : SameGuest pt s s' where
  rootLevel := hroot
  cr3 := hcr3
  longMode := by
    unfold isLongMode vmcsRead32 vmcsReadl
    rw [hvmcs _ (by simp)]
  pse := by
    unfold isPse LearnKvm.guestCr4 vmcsReadl
    rw [hvmcs .cr4ReadShadow (by simp), hvmcs .guestCr4 (by simp)]
  writeProtection := by
    unfold isWriteProtection LearnKvm.guestCr0 vmcsReadl
    rw [hvmcs .cr0ReadShadow (by simp), hvmcs .guestCr0 (by simp)]
  badPage := hbad
  gpaToHpa := hgpa
  entries a _ := by
    unfold readEntry
    rw [hmem]
    exact EntryLe.refl _

theorem vmcs_injectPageFault (s : Vcpu) (addr : BitVec 64) (errCode : BitVec 32) {f : VmcsField}
    (h1 : f ≠ .vmEntryExceptionErrorCode) (h2 : f ≠ .vmEntryIntrInfoField) :
    (injectPageFault s addr errCode).vmcs f = s.vmcs f := by
  unfold injectPageFault
  split
  · show vmcsWrite32 (vmcsWrite32 s.vmcs _ _) _ _ f = _
    exact (vmcsReadl_vmcsWritel_of_ne h2).trans (vmcsReadl_vmcsWritel_of_ne h1)
  · show vmcsWrite32 (vmcsWrite32 s.vmcs _ _) _ _ f = _
    exact (vmcsReadl_vmcsWritel_of_ne h2).trans (vmcsReadl_vmcsWritel_of_ne h1)

theorem sameGuest_nonpagingFlush (h : MmuInv pool lvl r s) (hpool : pool ≠ []) : SameGuest pt s (nonpagingFlush s) := by
  obtain ⟨lvl', q, -, h1, h2⟩ := nonpagingFlush_spec h hpool
  refine .of_eq (by rw [h2]) h1.cr3 h1.badPage (fun gpa => ?_) h1.mem fun f hf => h1.vmcs f ?_
  · rw [h1.kvm]
    exact gpaToHpa_congr rfl rfl rfl gpa
  · rintro rfl
    simp at hf

theorem FaultStep.sameGuest (h : MmuInv pool lvl r s) (hpool : pool ≠ []) (hs : FaultStep pt va s s') :
    SameGuest pt s s' := by
  cases hs with
  | accessed => exact .orEntry (aligned_guestWalk s va _) fun i hi => Or.inl (by simpa using hi)
  | link => exact .of_eq rfl rfl rfl (fun gpa => gpaToHpa_congr rfl rfl rfl gpa) rfl fun _ _ => rfl
  | mark => exact .of_eq rfl rfl rfl (fun _ => rfl) rfl fun _ _ => rfl
  | leaf =>
    refine .of_eq rfl rfl rfl (fun gpa => ?_) rfl fun _ _ => rfl
    unfold installLeaf
    dsimp only
    split
    · exact gpaToHpa_markPageDirty ..
    · rfl
  | flush => exact sameGuest_nonpagingFlush h hpool
  | @dirty p =>
    have h1 : SameGuest pt s { s.writePte ⟨p, pt64Index va 1⟩ (dirtyPte (s.readPte ⟨p, pt64Index va 1⟩)) with
        kvm := markPageDirty s.kvm (gfnOf (guestPte pt s va 1 &&& pt64BaseAddrMask)) } :=
      .of_eq rfl rfl rfl (fun gpa => gpaToHpa_markPageDirty ..) rfl fun _ _ => rfl
    exact h1.trans (.orEntry (aligned_guestWalk s va 1) fun i hi => Or.inr (by simpa using hi))
  | zap => exact .of_eq rfl rfl rfl (fun _ => rfl) rfl fun _ _ => rfl
  | user => exact .of_eq rfl rfl rfl (fun _ => rfl) rfl fun _ _ => rfl
  | inject errCode =>
    refine .of_eq ?_ ?_ ?_ ?_ ?_ fun f hf => vmcs_injectPageFault s va errCode ?_ ?_
    · rw [injectPageFault_frame]
    · rw [injectPageFault_frame]
    · rw [injectPageFault_frame]
    · rw [injectPageFault_frame]
      exact fun _ => rfl
    · rw [injectPageFault_frame]
    · rintro rfl
      simp at hf
    · rintro rfl
      simp at hf

/-- The steps do not change the context but for its root. -/
theorem FaultStep.context (h : MmuInv pool lvl r s) (hpool : pool ≠ []) (hs : FaultStep pt va s s') :
    s'.mmu = { s.mmu with rootHpa := s'.mmu.rootHpa } := by
  cases hs with
  | flush =>
    obtain ⟨lvl', q, -, -, h1⟩ := nonpagingFlush_spec h hpool
    rw [h1]
  | inject errCode => rw [injectPageFault_frame]
  | _ => rfl

theorem FaultStep.isFor (h : MmuInv pool lvl r s) (hpool : pool ≠ []) (hs : FaultStep pt va s s')
    (hfor : s.mmu.IsFor pt) : s'.mmu.IsFor pt := by
  rw [hs.context h hpool]
  cases pt <;> exact hfor

end LearnKvm
