import LearnKvm.Mmu.InvalPage

/-!
# Accessed bits

`fetch` sets the accessed bit of a guest entry when it makes the shadow entry of its level, and passes shadow entries
that are there without a look at the guest's.  A guest that takes accessed bits away and flushes the TLB therefore sees
the bit return only where the flush has removed the shadow entry.  `UpperAccessed` is the invariant that the bits are
complete under: an upper shadow entry is there only while the guest entry has been accessed.  The fault handler keeps it;
a load of CR3 or an `INVLPG` keeps it if it does not leave an upper entry whose guest entry the guest has cleared.
-/

namespace LearnKvm

open Relation

variable {pool : List Pfn} {lvl : Pfn → Nat} {r : Pfn} {s s' : Vcpu} {pt : PtType} {va va' addr : BitVec 64}
  {level : Nat} {p : Pfn}

/-! ### Guest entries above the end of a walk -/

variable (pt) in
/-- The walk of a mapped address goes on from its entry at this level. -/
structure GuestUpper (s : Vcpu) (va : BitVec 64) (level : Nat) : Prop where
  mapped : (guestPte pt s va 1).hasBit 0 = true
  above : guestLevel pt s va < level
  le : level ≤ s.mmu.rootLevel

theorem GuestUpper.of_sameGuest (h : GuestUpper pt s' va level) (hs : SameGuest pt s s') : GuestUpper pt s va level where
  mapped := ((hs.guestPte_le va 1).eq 0 (by decide) (by decide)).symm.trans h.mapped
  above := hs.guestLevel_eq va ▸ h.above
  le := hs.rootLevel ▸ h.le

variable (pt) in
/-- Every guest entry that the walk of an address uses has been accessed, page-directory pointers of the PAE format
apart. -/
def WalkAccessed (s : Vcpu) (va : BitVec 64) : Prop :=
  ∀ n, 1 ≤ n → n ≤ s.mmu.rootLevel → ¬(s.mmu.rootLevel = 3 ∧ n = 3) → (guestPte pt s va n).hasBit 5 = true

theorem WalkAccessed.sameGuest (h : WalkAccessed pt s va) (hs : SameGuest pt s s') : WalkAccessed pt s' va := by
  intro n h1 hn h3
  rw [hs.rootLevel] at hn h3
  exact (hs.guestPte_le va n).le 5 (h n h1 hn h3)

/-- The entries below the end of a walk are the one at its end. -/
theorem walkAccessed_of_levels (hroot : 1 ≤ s.mmu.rootLevel) (hmapped : (guestPte pt s va 1).hasBit 0 = true)
    (hone : AccessedAt pt s va 1) (hupper : ∀ n, GuestUpper pt s va n → AccessedAt pt s va n) : WalkAccessed pt s va := by
  intro n h1 hn h3
  have hlevel := guestLevel_of_present s va hroot hmapped
  rcases Nat.lt_or_ge (guestLevel pt s va) n with hlt | hge
  · rcases hupper n ⟨hmapped, hlt, hn⟩ with hbit | ⟨hr, hl⟩
    · exact hbit
    · rw [level_guestWalk s va h1 hn] at hl
      omega
  · rw [guestPte_of_le_guestLevel s va h1 hn hge]
    rcases hone with hbit | ⟨hr, hl⟩
    · exact hbit
    · have : guestLevel pt s va = 3 := hl
      omega

/-- Addresses that share a shadow entry share the guest entry. -/
theorem AccessedAt.congr (h : AccessedAt pt s va level) (hfor : s.mmu.IsFor pt) (hpos : 1 ≤ level)
    (hle : level ≤ s.mmu.rootLevel)
    (hidx : ∀ k, level ≤ k → k ≤ s.mmu.shadowRootLevel → pt64Index va k = pt64Index va' k) : AccessedAt pt s va' level := by
  unfold AccessedAt guestPte at *
  rwa [← guestWalk_congr s hpos hle (hfor.index_congr hpos hidx)]

/-! ### Upper entries of the shadow tables -/

/-- The entry of an address in a table of a level above one. -/
structure UpperEntry (s : Vcpu) (va : BitVec 64) (level : Nat) (p : Pfn) : Prop where
  upper : 2 ≤ level
  path : OnPath s va level p
  present : (s.shadow p (pt64Index va level)).hasBit 0 = true

theorem UpperEntry.of_same (h : UpperEntry s' va level p) (hmmu : s'.mmu = s.mmu) (hshadow : s'.shadow = s.shadow) :
    UpperEntry s va level p where
  upper := h.upper
  path := (OnPath.congr (by rw [hmmu]) (by rw [hmmu]) hshadow).1 h.path
  present := hshadow ▸ h.present

/-- A write to a page of level one leaves the tables above. -/
theorem upper_of_writeLeaf (hinv : MmuInv pool lvl r s) {q : Pfn} (hq : OnPath s va 1 q) {i : Fin 512} {e : BitVec 64}
    (hmmu : s'.mmu = s.mmu) (hshadow : s'.shadow = (s.writePte ⟨q, i⟩ e).shadow) (hp : OnPath s' va' level p)
    (hlevel : 2 ≤ level) : OnPath s va' level p ∧ ∀ j, s'.shadow p j = s.shadow p j := by
  have hlev := (hinv.active_of_onPath hq).2
  have hpath : OnPath s va' level p :=
    (hinv.onPath_writeLeaf hlev i e).1 ((OnPath.congr (by rw [hmmu]; rfl) (by rw [hmmu]; rfl) hshadow).1 hp)
  have hlev' := (hinv.active_of_onPath hpath).2
  refine ⟨hpath, fun j => ?_⟩
  rw [hshadow, Vcpu.shadow_writePte_of_page_ne _ (show p ≠ q by rintro rfl; omega)]

theorem UpperEntry.of_writeLeaf (h : UpperEntry s' va' level p) (hinv : MmuInv pool lvl r s) {q : Pfn}
    (hq : OnPath s va 1 q) {i : Fin 512} {e : BitVec 64} (hmmu : s'.mmu = s.mmu)
    (hshadow : s'.shadow = (s.writePte ⟨q, i⟩ e).shadow) : UpperEntry s va' level p := by
  obtain ⟨hupper, hpath, hpres⟩ := h
  obtain ⟨hpath, hkeep⟩ := upper_of_writeLeaf hinv hq hmmu hshadow hpath hupper
  exact ⟨hupper, hpath, hkeep _ ▸ hpres⟩

theorem UpperEntry.of_released (h : UpperEntry s' va level p) (hrel : Released s s') :
    UpperEntry s va level p ∧ s'.shadow p (pt64Index va level) = s.shadow p (pt64Index va level) := by
  rcases hrel.shadow p (pt64Index va level) with heq | hz
  · exact ⟨⟨h.upper, .of_released hrel h.path, heq ▸ h.present⟩, heq⟩
  · have := h.present
    rw [hz] at this
    exact absurd this (by simp)

/-- After a page has been linked the entry on a path is as it was, or it is the one that links the page, or it lies in the
new page and is empty. -/
theorem linkPage_cases {l : Nat} {q x : Pfn} {rest : List Pfn} {flags : BitVec 64} (hinv : MmuInv pool lvl r s)
    (hp : OnPath s va (l + 2) p) (hf : s.freePages = q :: rest) (h0 : flags.hasBit 0 = true)
    (haddr : ∀ i, 12 ≤ i → i < 52 → flags.hasBit i = false)
    (hx : OnPath (s.linkPage ⟨p, pt64Index va (l + 2)⟩ q rest flags) va' level x) :
    OnPath s va' level x ∧ (s.linkPage ⟨p, pt64Index va (l + 2)⟩ q rest flags).shadow x (pt64Index va' level) =
        s.shadow x (pt64Index va' level) ∨
      OnPath s va' level x ∧ x = p ∧ level = l + 2 ∧ pt64Index va' level = pt64Index va (l + 2) ∨
      (s.linkPage ⟨p, pt64Index va (l + 2)⟩ q rest flags).shadow x (pt64Index va' level) = 0 := by
  have hact := (hinv.active_of_onPath hp).1
  rcases onPath_of_linkPage hinv hp hf h0 haddr hx with hx' | rfl
  · by_cases heq : (x, pt64Index va' level) = (p, pt64Index va (l + 2))
    · obtain ⟨rfl, hidx⟩ := Prod.mk.inj heq
      exact Or.inr (Or.inl ⟨hx', rfl, (hinv.active_of_onPath hx').2.symm.trans (hinv.active_of_onPath hp).2, hidx⟩)
    · exact Or.inl ⟨hx', Vcpu.shadow_writePte_of_ne heq⟩
  · have hxp : x ≠ p := by
      rintro rfl
      exact hinv.tables.not_free_of_active hact (hf ▸ List.mem_cons_self)
    exact Or.inr (Or.inr ((Vcpu.shadow_writePte_of_page_ne _ hxp).trans
      (hinv.tables.free_zero x (hf ▸ List.mem_cons_self) _)))

/-- After a page has been linked the upper entries are those there were and the one that links it. -/
theorem UpperEntry.of_linkPage {l : Nat} {q x : Pfn} {rest : List Pfn} {flags : BitVec 64} (hinv : MmuInv pool lvl r s)
    (hp : OnPath s va (l + 2) p) (hf : s.freePages = q :: rest) (h0 : flags.hasBit 0 = true)
    (haddr : ∀ i, 12 ≤ i → i < 52 → flags.hasBit i = false)
    (h : UpperEntry (s.linkPage ⟨p, pt64Index va (l + 2)⟩ q rest flags) va' level x) :
    UpperEntry s va' level x ∨
      level = l + 2 ∧ ∀ k, l + 2 ≤ k → k ≤ s.mmu.shadowRootLevel → pt64Index va k = pt64Index va' k := by
  obtain ⟨hupper, hx, hpres⟩ := h
  rcases linkPage_cases hinv hp hf h0 haddr hx with ⟨hx', hkeep⟩ | ⟨hx', rfl, rfl, hidx⟩ | hempty
  · exact Or.inl ⟨hupper, hx', hkeep ▸ hpres⟩
  · refine Or.inr ⟨rfl, fun k hk hk' => ?_⟩
    rcases Nat.eq_or_lt_of_le hk with rfl | hlt
    · exact hidx.symm
    · exact hinv.unique hp hx' k hlt hk'
  · rw [hempty] at hpres
    exact absurd hpres (by simp)

variable (pt) in
/-- The guest entries of the upper entries in a set have been accessed. -/
def AccessedFor (s : Vcpu) (E : BitVec 64 → Nat → Pfn → Prop) : Prop :=
  ∀ va level p, E va level p → GuestUpper pt s va level → AccessedAt pt s va level

variable (pt) in
/-- An upper entry is there only while the guest entry has been accessed. -/
def UpperAccessed (s : Vcpu) : Prop := AccessedFor pt s (UpperEntry s)

theorem AccessedFor.mono {E E' : BitVec 64 → Nat → Pfn → Prop} (h : AccessedFor pt s E) (hs : SameGuest pt s s')
    (hE : ∀ va level p, E' va level p → E va level p) : AccessedFor pt s' E' := fun va level p hp hg =>
  (h va level p (hE va level p hp) (hg.of_sameGuest hs)).sameGuest hs

theorem UpperAccessed.of_newRoot {q : Pfn} (h : NewRoot pool q s s') : UpperAccessed pt s' := by
  rintro va level p ⟨-, hp, hpres⟩
  obtain ⟨-, rfl⟩ := h.onPath hp
  rw [h.empty] at hpres
  exact absurd hpres (by simp)

theorem guestLevelFor_of_le {m : KvmMmu} (hfor : m.IsFor pt) {l : Nat} (hl : l ≤ m.rootLevel) : guestLevelFor pt l = l := by
  unfold guestLevelFor
  cases pt with
  | pt32 =>
    have := hfor.1
    rw [if_neg (by simp; omega)]
  | pt64 => rfl

/-! ### The steps of the fault handler -/

theorem FaultStep.upperAccessed (h : MmuInv pool lvl r s) (hpool : pool ≠ []) (hfor : s.mmu.IsFor pt)
    (hu : UpperAccessed pt s) (hstep : FaultStep pt va s s') : UpperAccessed pt s' := by
  have hsame := hstep.sameGuest h hpool
  cases hstep with
  | accessed => exact hu.mono hsame fun _ _ _ hx => hx.of_same rfl rfl
  | @link l p q rest hp hz hf hg ha =>
    intro va' level x hx hg'
    have hg' := hg'.of_sameGuest hsame
    obtain ⟨h0, haddr, -⟩ := @hasBit_linkFlags pt s (l + 2) _ hg
    rcases hx.of_linkPage h hp hf h0 haddr with hx | ⟨rfl, hidx⟩
    · exact (hu va' level x hx hg').sameGuest hsame
    · rw [guestLevelFor_of_le hfor hg'.le] at ha
      exact (ha.congr hfor (by omega) hg'.le hidx).sameGuest hsame
  | @mark p hp he hl =>
    refine hu.mono hsame fun va' level x hx => ⟨hx.upper, onPath_of_markLarge hx.path, ?_⟩
    have hpres := hx.present
    rwa [show s.shadow p (pt64Index va 2) = s.readPte ⟨p, pt64Index va 2⟩ from rfl,
      hasBit_markLarge s ⟨p, pt64Index va 2⟩ _ _ (by decide)] at hpres
  | @leaf p hp => exact hu.mono hsame fun _ _ _ hx => hx.of_writeLeaf h hp (e := leafPte pt s va) rfl rfl
  | flush =>
    obtain ⟨lvl', q, -, h1, -⟩ := nonpagingFlush_spec h hpool
    exact .of_newRoot h1
  | @dirty p hp =>
    exact hu.mono hsame fun _ _ _ hx => hx.of_writeLeaf h hp (e := dirtyPte (s.shadow p (pt64Index va 1))) rfl rfl
  | @zap p hp => exact hu.mono hsame fun _ _ _ hx => hx.of_writeLeaf h hp (e := 0) rfl rfl
  | @user p hp =>
    exact hu.mono hsame fun _ _ _ hx => hx.of_writeLeaf h hp (e := userPte (s.shadow p (pt64Index va 1))) rfl rfl
  | inject errCode =>
    refine hu.mono hsame fun _ _ _ hx => hx.of_same ?_ ?_
    · rw [injectPageFault_frame]
    · rw [injectPageFault_frame]

/-- The shadow tables map the address. -/
def ShadowMaps (s : Vcpu) (va : BitVec 64) : Prop :=
  ∃ p, OnPath s va 1 p ∧ (s.shadow p (pt64Index va 1)).hasBit 0 = true

theorem ShadowMaps.of_same (h : ShadowMaps s' va) (hmmu : s'.mmu = s.mmu) (hshadow : s'.shadow = s.shadow) :
    ShadowMaps s va := by
  obtain ⟨p, hp, hpres⟩ := h
  exact ⟨p, (OnPath.congr (by rw [hmmu]) (by rw [hmmu]) hshadow).1 hp, hshadow ▸ hpres⟩

/-- The entry of level one is written and stays present only if it was. -/
theorem ShadowMaps.of_writeLeaf (h : ShadowMaps s' va) (hinv : MmuInv pool lvl r s) (hp : OnPath s va 1 p) {e : BitVec 64}
    (hmmu : s'.mmu = s.mmu) (hshadow : s'.shadow = (s.writePte ⟨p, pt64Index va 1⟩ e).shadow)
    (he : e.hasBit 0 = true → (s.shadow p (pt64Index va 1)).hasBit 0 = true) : ShadowMaps s va := by
  obtain ⟨q, hq, hpres⟩ := h
  have hq : OnPath s va 1 q := (hinv.onPath_writeLeaf (hinv.active_of_onPath hp).2 _ e).1
    ((OnPath.congr (by rw [hmmu]; rfl) (by rw [hmmu]; rfl) hshadow).1 hq)
  obtain rfl := hq.page_unique hp
  rw [hshadow, Vcpu.shadow_writePte, if_pos ⟨rfl, rfl⟩] at hpres
  exact ⟨q, hp, he hpres⟩

/-- The step that makes an address mapped is the installation of its entry, under tables of all levels. -/
theorem FaultStep.shadowMaps (h : MmuInv pool lvl r s) (hpool : pool ≠ []) (hstep : FaultStep pt va s s')
    (hmaps : ShadowMaps s' va) : ShadowMaps s va ∨
      (guestPte pt s va 1).hasBit 0 = true ∧ AccessedAt pt s va 1 ∧ ∃ p, OnPath s va 1 p := by
  cases hstep with
  | accessed => exact Or.inl (hmaps.of_same rfl rfl)
  | @link l p q rest hp hz hf hg ha =>
    obtain ⟨x, hx, hpres⟩ := hmaps
    obtain ⟨h0, haddr, -⟩ := @hasBit_linkFlags pt s (l + 2) _ hg
    rcases linkPage_cases h hp hf h0 haddr hx with ⟨hx', hkeep⟩ | ⟨-, -, hlev, -⟩ | hempty
    · exact Or.inl ⟨x, hx', hkeep ▸ hpres⟩
    · omega
    · rw [hempty] at hpres
      exact absurd hpres (by simp)
  | @mark p hp he hl =>
    obtain ⟨q, hq, hpres⟩ := hmaps
    rw [show s.shadow p (pt64Index va 2) = s.readPte ⟨p, pt64Index va 2⟩ from rfl,
      hasBit_markLarge s ⟨p, pt64Index va 2⟩ _ _ (by decide)] at hpres
    exact Or.inl ⟨q, onPath_of_markLarge hq, hpres⟩
  | leaf hp hz hg hmark ha => exact Or.inr ⟨hg, ha, _, hp⟩
  | flush =>
    obtain ⟨lvl', q, h1, h2, -⟩ := nonpagingFlush_spec h hpool
    obtain ⟨p, hp, -⟩ := hmaps
    have := (h2.onPath hp).1
    have := h1.levels.shadowRootLevel
    omega
  | @dirty p hp he hne =>
    exact Or.inl (hmaps.of_writeLeaf h hp (e := dirtyPte (s.shadow p (pt64Index va 1))) rfl rfl fun h0 => by simpa using h0)
  | @zap p hp => exact Or.inl (hmaps.of_writeLeaf h hp (e := 0) rfl rfl fun h0 => absurd h0 (by simp))
  | @user p hp =>
    exact Or.inl (hmaps.of_writeLeaf h hp (e := userPte (s.shadow p (pt64Index va 1))) rfl rfl fun h0 => by simpa using h0)
  | inject errCode =>
    refine Or.inl (hmaps.of_same ?_ ?_)
    · rw [injectPageFault_frame]
    · rw [injectPageFault_frame]

theorem KvmMmu.IsFor.rootLevel_le {m : KvmMmu} (h : m.IsFor pt) : m.rootLevel ≤ m.shadowRootLevel := by
  cases pt with
  | pt32 =>
    obtain ⟨h1, h2⟩ := h
    omega
  | pt64 => exact h.1.le

/-- Under the tables of all levels the walk has been accessed above its end. -/
theorem UpperAccessed.walkAccessed (hu : UpperAccessed pt s) (hfor : s.mmu.IsFor pt) (hp : OnPath s va 1 p)
    (hmapped : (guestPte pt s va 1).hasBit 0 = true) (hone : AccessedAt pt s va 1) : WalkAccessed pt s va := by
  refine walkAccessed_of_levels hfor.one_le_rootLevel hmapped hone fun n hn => ?_
  have h1 : 1 < n := (one_le_guestLevel s va hfor.one_le_rootLevel).trans_lt hn.above
  obtain ⟨q, hq, hpres⟩ := hp.above n h1.le (hn.le.trans hfor.rootLevel_le)
  exact hu va n q ⟨h1, hq, hpres h1⟩ hn

/-- A whole call of the fault handler. -/
theorem UpperAccessed.faultSteps (hu : UpperAccessed pt s) (hpool : pool ≠ []) (h : MmuInv pool lvl r s)
    (hfor : s.mmu.IsFor pt) (hrun : ReflTransGen (FaultStep pt va) s s') :
    UpperAccessed pt s' ∧ (¬ShadowMaps s va → ShadowMaps s' va → WalkAccessed pt s' va) := by
  refine (FaultStep.run (P := fun t => t.mmu.IsFor pt ∧ UpperAccessed pt t ∧
    (¬ShadowMaps s va → ShadowMaps t va → WalkAccessed pt t va))
    hpool (fun h' hP hstep => ?_) h ⟨hfor, hu, fun hnot hmaps => absurd hmaps hnot⟩ hrun).2.2
  obtain ⟨hfor, hu, hwalk⟩ := hP
  refine ⟨hstep.isFor h' hpool hfor, hstep.upperAccessed h' hpool hfor hu, fun hnot hmaps => ?_⟩
  refine WalkAccessed.sameGuest ?_ (hstep.sameGuest h' hpool)
  rcases hstep.shadowMaps h' hpool hmaps with hmaps | ⟨hg, ha, p, hp⟩
  · exact hwalk hnot hmaps
  · exact hu.walkAccessed hfor hp hg ha

/-! ### The mark of large pages -/

theorem hasBit_link_ps (q : Pfn) (l : Nat) (gent : BitVec 64) : (hpaOf q ||| linkFlags pt s l gent).hasBit 9 = false := by
  rw [BitVec.hasBit_or, hasBit_hpaOf]
  unfold linkFlags
  split <;> cases pt <;>
    simp [PtType.nonPteCopyMask, pt32NonPteCopyMask, pt64NonPteCopyMask]

theorem PsMarked.of_same (h : PsMarked s' va) (hmmu : s'.mmu = s.mmu) (hshadow : s'.shadow = s.shadow) : PsMarked s va := by
  obtain ⟨p, hp, hm⟩ := h
  exact ⟨p, (OnPath.congr (by rw [hmmu]) (by rw [hmmu]) hshadow).1 hp, hshadow ▸ hm⟩

theorem PsMarked.of_writeLeaf (h : PsMarked s' va) (hinv : MmuInv pool lvl r s) (hp : OnPath s va 1 p) {i : Fin 512}
    {e : BitVec 64} (hmmu : s'.mmu = s.mmu) (hshadow : s'.shadow = (s.writePte ⟨p, i⟩ e).shadow) : PsMarked s va := by
  obtain ⟨q, hq, hm⟩ := h
  obtain ⟨hq, hkeep⟩ := upper_of_writeLeaf hinv hp hmmu hshadow hq le_rfl
  exact ⟨q, hq, hkeep _ ▸ hm⟩

/-- A tree with an empty root has no directory entries. -/
theorem NewRoot.not_psMarked {q : Pfn} (hnew : NewRoot pool q s s') (h : MmuInv pool lvl r s') : ¬PsMarked s' va := by
  rintro ⟨p, hp, -⟩
  have := (hnew.onPath hp).1
  have := h.levels.shadowRootLevel
  omega

/-- Only a fault in a large page marks the directory entry. -/
theorem FaultStep.psMarked (h : MmuInv pool lvl r s) (hpool : pool ≠ []) (hl : guestLevel pt s va ≠ 2)
    (hstep : FaultStep pt va s s') (hm : PsMarked s' va) : PsMarked s va := by
  cases hstep with
  | accessed => exact hm.of_same rfl rfl
  | @link l p q rest hp hz hf hg ha =>
    obtain ⟨x, hx, hbit⟩ := hm
    obtain ⟨h0, haddr, -⟩ := @hasBit_linkFlags pt s (l + 2) _ hg
    rcases linkPage_cases h hp hf h0 haddr hx with ⟨hx', hkeep⟩ | ⟨-, rfl, -, hidx⟩ | hempty
    · exact ⟨x, hx', hkeep ▸ hbit⟩
    · rw [hidx] at hbit
      exact absurd ((congrArg (BitVec.hasBit · 9) (Vcpu.readPte_writePte_self ..)).symm.trans hbit) (by
        rw [hasBit_link_ps]
        decide)
    · rw [hempty] at hbit
      exact absurd hbit (by simp)
  | mark _ _ hlarge => exact absurd hlarge hl
  | @leaf p hp => exact hm.of_writeLeaf h hp (e := leafPte pt s va) rfl rfl
  | flush =>
    obtain ⟨lvl', q, h1, h2, -⟩ := nonpagingFlush_spec h hpool
    exact absurd hm (h2.not_psMarked h1)
  | @dirty p hp => exact hm.of_writeLeaf h hp (e := dirtyPte (s.shadow p (pt64Index va 1))) rfl rfl
  | @zap p hp => exact hm.of_writeLeaf h hp (e := 0) rfl rfl
  | @user p hp => exact hm.of_writeLeaf h hp (e := userPte (s.shadow p (pt64Index va 1))) rfl rfl
  | inject errCode =>
    refine hm.of_same ?_ ?_
    · rw [injectPageFault_frame]
    · rw [injectPageFault_frame]

theorem FaultStep.run_psMarked (hpool : pool ≠ []) (h : MmuInv pool lvl r s) (hl : guestLevel pt s va ≠ 2)
    (hm : ¬PsMarked s va) (hrun : ReflTransGen (FaultStep pt va) s s') : ¬PsMarked s' va := by
  refine (FaultStep.run (P := fun t => guestLevel pt t va ≠ 2 ∧ ¬PsMarked t va) hpool (fun h' hP hstep => ?_) h
    ⟨hl, hm⟩ hrun).2.2
  obtain ⟨hl, hm⟩ := hP
  exact ⟨by rwa [(hstep.sameGuest h' hpool).guestLevel_eq], fun hm' => hm (hstep.psMarked h' hpool hl hm')⟩

/-! ### A fault under tables that are there -/

theorem fetchLoop_above (hp : OnPath s va 1 p) {walker : GuestWalker} {q : Pfn}
    {prev : Option PtePtr} (hq : OnPath s va level q) (hlevel : 2 ≤ level) : ∃ p', OnPath s va 2 p' ∧
      fetchLoop pt va level s walker q prev = fetchLoop pt va 1 s walker p (some ⟨p', pt64Index va 2⟩) := by
  induction level, hlevel using Nat.le_induction generalizing q prev with
  | base =>
    obtain ⟨x, hx, hpres⟩ := hp.above 2 (by decide) hq.level_le
    obtain rfl := hx.page_unique hq
    refine ⟨x, hx, ?_⟩
    rw [@fetchLoop_down s pt va 0 walker x prev (hpres (by decide)), hp.page_unique (.down hx (hpres (by decide)))]
  | succ n hn ih =>
    obtain ⟨k, rfl⟩ : ∃ k, n = k + 1 := ⟨n - 1, by omega⟩
    obtain ⟨x, hx, hpres⟩ := hp.above (k + 2) (by omega) hq.level_le
    obtain rfl := hx.page_unique hq
    rw [fetchLoop_down (hpres (by omega))]
    exact ih (.down hx (hpres (by omega)))

/-- At an empty entry of level one, under tables of all levels, `fetch` sets one accessed bit and installs the entry of
the page. -/
theorem fetch_leaf (h : MmuInv pool lvl r s) (hfor : s.mmu.IsFor pt) (hp : OnPath s va 1 p)
    (hz : s.shadow p (pt64Index va 1) = 0) (hg : (guestPte pt s va 1).hasBit 0 = true) (hl : guestLevel pt s va ≠ 2) :
    ∃ walker, fetch pt s va (initWalker s) =
      (installLeaf pt (setAccessed pt s va 1) va ⟨p, pt64Index va 1⟩, walker, .pte ⟨p, pt64Index va 1⟩) := by
  have hlevel := h.levels.shadowRootLevel
  obtain ⟨p', -, hdown⟩ := @fetchLoop_above s pt va s.mmu.shadowRootLevel p hp (initWalker s) r none
    (.root h.root) (by omega)
  have hw : WalkerAt pt s (initWalker s) va (guestLevelFor pt (0 + 1)) := by
    rw [guestLevelFor_one]
    exact .init s va hfor.one_le_rootLevel
  have hsame := @setAccessed_sameGuest pt s va 1
  have hz1 : (setAccessed pt s va 1).readPte ⟨p, pt64Index va 1⟩ = 0 := by
    rw [setAccessed_frame]
    exact hz
  have hleaf := set_eq_installLeaf hz1 ((hsame.guestPte_le va 1).le 0 hg)
  rw [if_neg (by rwa [hsame.guestLevel_eq])] at hleaf
  unfold fetch
  rw [h.rootPage_eq, hdown, @fetchLoop_empty s pt va 0 _ p _ hw hz]
  dsimp only
  rw [guestLevelFor_one, if_neg (by rw [hg]; decide), if_pos rfl, hsame.guestWalk_eq, if_neg (show ¬(guestWalk pt s va 1).1.level = 2 from hl)]
  unfold guestPte at hleaf
  rw [hsame.guestWalk_eq] at hleaf
  exact ⟨_, by rw [hleaf]⟩

/-- The rest of a read fault keeps the guest's memory and the presence of the entry. -/
theorem pageFaultFix_read (h : MmuInv pool lvl r s) (hp : OnPath s va 1 p) {walker : GuestWalker}
    (hw : WalkerAt pt s walker va 1) {errorCode : BitVec 32} (hread : errorCode.hasBit 1 = false) :
    (pageFaultFix pt s walker (some ⟨p, pt64Index va 1⟩) va errorCode).1.mem = s.mem ∧
      ((s.shadow p (pt64Index va 1)).hasBit 0 = true →
        ShadowMaps (pageFaultFix pt s walker (some ⟨p, pt64Index va 1⟩) va errorCode).1 va) := by
  have hfix : ∃ e : BitVec 64, e.hasBit 0 = (s.shadow p (pt64Index va 1)).hasBit 0 ∧
      (fixPf pt s va ⟨p, pt64Index va 1⟩ false (errorCode.hasBit 2)).1.mem = s.mem ∧
      (fixPf pt s va ⟨p, pt64Index va 1⟩ false (errorCode.hasBit 2)).1.mmu = s.mmu ∧
      (fixPf pt s va ⟨p, pt64Index va 1⟩ false (errorCode.hasBit 2)).1.shadow =
        (s.writePte ⟨p, pt64Index va 1⟩ e).shadow := by
    unfold fixPf
    rw [if_neg (by decide)]
    split
    · exact ⟨userPte (s.shadow p (pt64Index va 1)), by simp, rfl, rfl, rfl⟩
    · exact ⟨s.shadow p (pt64Index va 1), rfl, rfl, rfl, (shadow_writePte_readPte s _).symm⟩
  obtain ⟨e, he, hmem, hmmu, hshadow⟩ := hfix
  have hpath := (h.onPath_writeLeaf (h.active_of_onPath hp).2 (pt64Index va 1) e).2 hp
  have hout : ∀ t : Vcpu, t.mem = s.mem → t.mmu = s.mmu → t.shadow = (s.writePte ⟨p, pt64Index va 1⟩ e).shadow →
      t.mem = s.mem ∧ ((s.shadow p (pt64Index va 1)).hasBit 0 = true → ShadowMaps t va) := by
    intro t htmem htmmu htshadow
    refine ⟨htmem, fun h0 => ⟨p, (OnPath.congr (by rw [htmmu]; rfl) (by rw [htmmu]; rfl) htshadow).2 hpath, ?_⟩⟩
    rw [htshadow, Vcpu.shadow_writePte, if_pos ⟨rfl, rfl⟩, he]
    exact h0
  rw [pageFaultFix_eq hw, hread]
  dsimp only
  generalize fixPf pt s va ⟨p, pt64Index va 1⟩ false (errorCode.hasBit 2) = fix at *
  have hinject : ∀ errCode, (injectPageFault fix.1 va errCode).mem = s.mem ∧
      ((s.shadow p (pt64Index va 1)).hasBit 0 = true → ShadowMaps (injectPageFault fix.1 va errCode) va) := fun errCode => by
    rw [injectPageFault_frame]
    exact hout _ hmem hmmu hshadow
  split
  · split
    · exact hout _ hmem hmmu hshadow
    · exact hinject _
  · split
    · exact hinject _
    · exact hout _ hmem hmmu hshadow

/-- So a read fault there touches one guest entry only, the one at which the walk ends, and maps the address if there is
memory at it. -/
theorem pageFault_leaf (hpool : pool ≠ []) (h : MmuInv pool lvl r s) (hfor : s.mmu.IsFor pt) (hp : OnPath s va 1 p)
    (hz : s.shadow p (pt64Index va 1) = 0) (hg : (guestPte pt s va 1).hasBit 0 = true) (hl : guestLevel pt s va ≠ 2)
    {errorCode : BitVec 32} (hread : errorCode.hasBit 1 = false) {fuel : Nat} {out : Vcpu × Bool}
    (hs : pageFault pt s va errorCode fuel = some out) :
    out.1.mem = (setAccessed pt s va 1).mem ∧
      ((gpaFrame s.kvm (guestGaddr pt s va)).isSome = true → ShadowMaps out.1 va) := by
  obtain ⟨walker, hfetch⟩ := fetch_leaf h hfor hp hz hg hl
  cases fuel with
  | zero => cases hs
  | succ fuel =>
    have hspec := (@fetch_spec pool lvl r s pt va hpool h hfor).1
    have hsame := @setAccessed_sameGuest pt s va 1
    have hkvm : (setAccessed pt s va 1).kvm = s.kvm := by rw [setAccessed_frame]
    unfold pageFault fetchRetry at hs
    rw [hfetch] at hs hspec
    obtain rfl := Option.some.inj hs
    obtain ⟨lvl', hinv⟩ := hspec.inv
    obtain ⟨hpath, -, -, hw⟩ := hspec.ok
    obtain ⟨hmem, hmaps⟩ := pageFaultFix_read hinv hpath hw hread
    refine ⟨hmem, fun hframe => hmaps ?_⟩
    rw [show (installLeaf pt (setAccessed pt s va 1) va ⟨p, pt64Index va 1⟩).shadow p (pt64Index va 1) =
      leafPte pt (setAccessed pt s va 1) va from Vcpu.readPte_writePte_self _ ⟨p, pt64Index va 1⟩ _,
      (leafSound_leafPte ((hsame.guestPte_le va 1).le 0 hg)).mapped, hkvm,
      hsame.sameWalks.guestGaddr_eq hfor.one_le_rootLevel]
    exact hframe

/-- A guest entry that the walk only passes stays as it is. -/
theorem pageFault_leaf_guestPte (hpool : pool ≠ []) (h : MmuInv pool lvl r s) (hfor : s.mmu.IsFor pt)
    (hp : OnPath s va 1 p) (hz : s.shadow p (pt64Index va 1) = 0) (hg : (guestPte pt s va 1).hasBit 0 = true)
    (hl : guestLevel pt s va ≠ 2) {errorCode : BitVec 32} (hread : errorCode.hasBit 1 = false) {fuel : Nat}
    {out : Vcpu × Bool} (hs : pageFault pt s va errorCode fuel = some out) {n : Nat}
    (hne : (guestWalk pt s va n).2 ≠ (guestWalk pt s va 1).2) : guestPte pt out.1 va n = guestPte pt s va n := by
  have hmem := (pageFault_leaf hpool h hfor hp hz hg hl hread hs).1
  have hsame := (FaultStep.run_sameGuest hpool h (pageFault_steps hpool h hfor hs)).2
  unfold guestPte readEntry
  rw [hsame.guestWalk_eq, hmem]
  unfold setAccessed
  split
  · refine (ByteMem.load_orAt_aligned (bytes_dvd pt) s.mem (aligned_guestWalk s va 1) (aligned_guestWalk s va n)
      fun i hi => ?_).trans (if_neg hne)
    have : i = 5 := by simpa using hi
    cases pt <;> simp only [PtType.bytes] <;> omega
  · rfl

end LearnKvm
