import LearnKvm.Mmu.Conservation

/-!
# Soundness of the shadow tables

While the guest does not change its tables, every entry of the shadow tables is explained by the guest tables.  An entry
of an upper level carries the NX bit of the guest entry of its level (`UpperSound`); an entry of level one maps the frame
of the guest page, shadows the guest's rights in its software bits, and gives no more than these rights, except that a
page the guest marks read-only may be writable for the supervisor alone when CR0.WP is clear (`LeafSound`).  Both are
stated for every address that reaches the entry, and are checked for each `FaultStep`.
-/

namespace LearnKvm

open Relation

variable {pool : List Pfn} {lvl : Pfn → Nat} {r : Pfn} {s s' : Vcpu} {pt : PtType} {va va' : BitVec 64}
  {e : BitVec 64}

/-- A shadow entry of level `l` on the path of `va`, above level one. -/
structure UpperSound (pt : PtType) (s : Vcpu) (va : BitVec 64) (l : Nat) (e : BitVec 64) : Prop where
  nx : e.hasBit 63 =
    (decide (pt = .pt64) && (decide (l ≠ 3) || isLongMode s.vmcs) && (guestPte pt s va l).hasBit 63)
  rights : l ≠ 3 ∨ isLongMode s.vmcs = true → e.hasBit 1 = true ∧ e.hasBit 2 = true

/-- A shadow entry of level one on the path of `va`. -/
structure LeafSound (pt : PtType) (s : Vcpu) (va : BitVec 64) (e : BitVec 64) : Prop where
  present : (guestPte pt s va 1).hasBit 0 = true
  mapped : e.hasBit 0 = (gpaFrame s.kvm (guestGaddr pt s va)).isSome
  io : e.hasBit 9 = (gpaFrame s.kvm (guestGaddr pt s va)).isNone
  frame : ∀ f, gpaFrame s.kvm (guestGaddr pt s va) = some f → frameOf e = f
  shadowWritable : e.hasBit 10 = (guestRights pt s va).hasBit 1
  shadowUser : e.hasBit 11 = (guestRights pt s va).hasBit 2
  user : e.hasBit 2 = true → e.hasBit 11 = true
  dirty : e.hasBit 1 = true → (guestPte pt s va 1).hasBit 6 = true
  writable : e.hasBit 1 = true → e.hasBit 10 = true ∨ isWriteProtection s.vmcs = false ∧ e.hasBit 2 = false
  supervisor : e.hasBit 2 = false → e.hasBit 11 = true → e.hasBit 10 = false ∧ isWriteProtection s.vmcs = false
  nx : e.hasBit 63 = (decide (pt = .pt64) && (guestPte pt s va 1).hasBit 63)

/-- The entries of the shadow tables are explained by the guest tables: those of the upper levels for every address
that the guest maps, those of level one for the addresses in `D`. -/
structure ShadowSound (pt : PtType) (D : Set (BitVec 64)) (s : Vcpu) : Prop where
  upper : ∀ va l p, OnPath s va (l + 2) p → (s.shadow p (pt64Index va (l + 2))).hasBit 0 = true →
    (guestPte pt s va 1).hasBit 0 = true → UpperSound pt s va (l + 2) (s.shadow p (pt64Index va (l + 2)))
  leaf : ∀ va p, va ∈ D → OnPath s va 1 p → s.shadow p (pt64Index va 1) ≠ 0 →
    LeafSound pt s va (s.shadow p (pt64Index va 1))

/-- With an address, the set has all that share its leaf entry. -/
def IndexClosed (n : Nat) (D : Set (BitVec 64)) : Prop :=
  ∀ va va' : BitVec 64, (∀ k, 1 ≤ k → k ≤ n → pt64Index va k = pt64Index va' k) → va ∈ D → va' ∈ D

theorem indexClosed_univ (n : Nat) : IndexClosed n Set.univ := fun _ _ _ _ => trivial

/-! ### Accessed and dirty bits do not matter -/

theorem gpaFrame_of_gpaToHpa {kvm kvm' : Kvm} {gpa : BitVec 64} (h : gpaToHpa kvm' gpa = gpaToHpa kvm gpa) :
    gpaFrame kvm' gpa = gpaFrame kvm gpa := by
  have h1 := isErrorHpa_gpaToHpa kvm gpa
  have h2 := isErrorHpa_gpaToHpa kvm' gpa
  rw [h, h1] at h2
  cases hf : gpaFrame kvm gpa with
  | none =>
    rw [hf] at h2
    exact Option.isNone_iff_eq_none.1 h2.symm
  | some f =>
    rw [hf] at h2
    obtain ⟨f', hf'⟩ := Option.isSome_iff_exists.1 (by simpa using h2.symm : (gpaFrame kvm' gpa).isSome = true)
    rw [hf', ← frameOf_gpaToHpa hf, ← frameOf_gpaToHpa hf', h]

namespace SameWalks

theorem guestPte_one (h : SameWalks pt s s') (hroot : 1 ≤ s.mmu.rootLevel) (va : BitVec 64) :
    EntryLe (guestPte pt s va 1) (guestPte pt s' va 1) := h.guestPte_le va 1 le_rfl hroot

theorem guestRights_eq (h : SameWalks pt s s') (hroot : 1 ≤ s.mmu.rootLevel) (va : BitVec 64) :
    guestRights pt s' va = guestRights pt s va := by
  unfold guestRights
  rw [h.guestWalk_eq, BitVec.and_comm, BitVec.and_comm _ (guestPte pt s va 1)]
  refine (h.guestPte_one hroot va).and_eq ?_ ?_
  · exact Bool.eq_false_iff.2 fun h5 => by
      have := (ok_fetchGuest s (@ok_initWalker pt s) 1 va).1.rights 5 h5
      omega
  · exact Bool.eq_false_iff.2 fun h6 => by
      have := (ok_fetchGuest s (@ok_initWalker pt s) 1 va).1.rights 6 h6
      omega

theorem guestGaddr_eq (h : SameWalks pt s s') (hroot : 1 ≤ s.mmu.rootLevel) (va : BitVec 64) :
    guestGaddr pt s' va = guestGaddr pt s va := by
  have hle := h.guestPte_one hroot va
  have hdir : guestPte pt s' va 1 &&& pt.dirBaseAddrMask = guestPte pt s va 1 &&& pt.dirBaseAddrMask := by
    cases pt
    · exact hle.and_eq (by simp [PtType.dirBaseAddrMask]) (by simp [PtType.dirBaseAddrMask])
    · exact hle.and_eq (by simp [PtType.dirBaseAddrMask]) (by simp [PtType.dirBaseAddrMask])
  have hbase : guestPte pt s' va 1 &&& pt.baseAddrMask = guestPte pt s va 1 &&& pt.baseAddrMask := by
    cases pt
    · exact hle.and_eq (by simp [PtType.baseAddrMask]) (by simp [PtType.baseAddrMask])
    · exact hle.and_eq (by simp [PtType.baseAddrMask]) (by simp [PtType.baseAddrMask])
  have hpse : guestPte pt s' va 1 &&& pt32DirPse36Mask = guestPte pt s va 1 &&& pt32DirPse36Mask :=
    hle.and_eq (by simp) (by simp)
  unfold guestGaddr leafGaddr pdeGaddr
  rw [h.guestLevel_eq, hdir, hbase, hpse]

theorem gpaFrame_eq (h : SameWalks pt s s') (gpa : BitVec 64) : gpaFrame s'.kvm gpa = gpaFrame s.kvm gpa :=
  gpaFrame_of_gpaToHpa (h.gpaToHpa gpa)

/-- Whether the walk of an address ends in a present entry does not change. -/
theorem present_iff (h : SameWalks pt s s') (hroot : 1 ≤ s.mmu.rootLevel) (va : BitVec 64) :
    (guestPte pt s' va 1).hasBit 0 = (guestPte pt s va 1).hasBit 0 :=
  (h.guestPte_one hroot va).eq 0 (by decide) (by decide)

end SameWalks

theorem KvmMmu.IsFor.le_rootLevel {m : KvmMmu} (h : m.IsFor pt) (hpt : pt = .pt64) {l : Nat}
    (hl : l ≤ m.shadowRootLevel) : l ≤ m.rootLevel := by
  subst hpt
  exact h.1 ▸ hl

theorem UpperSound.sameWalks (hfor : s.mmu.IsFor pt) {l : Nat} (hpos : 1 ≤ l) (hl : l ≤ s.mmu.shadowRootLevel)
    (h : UpperSound pt s va l e) (hs : SameWalks pt s s') : UpperSound pt s' va l e where
  nx := by
    rw [h.nx, hs.longMode]
    cases hpt : pt with
    | pt32 => simp
    | pt64 =>
      subst hpt
      rw [(hs.guestPte_le va l hpos (hfor.le_rootLevel rfl hl)).eq 63 (by decide) (by decide)]
  rights hl := h.rights (hs.longMode ▸ hl)

theorem LeafSound.sameWalks (hroot : 1 ≤ s.mmu.rootLevel) (h : LeafSound pt s va e) (hs : SameWalks pt s s') :
    LeafSound pt s' va e where
  present := (hs.guestPte_one hroot va).le 0 h.present
  mapped := by rw [hs.guestGaddr_eq hroot, hs.gpaFrame_eq]; exact h.mapped
  io := by rw [hs.guestGaddr_eq hroot, hs.gpaFrame_eq]; exact h.io
  frame f hf := h.frame f (by rwa [hs.guestGaddr_eq hroot, hs.gpaFrame_eq] at hf)
  shadowWritable := by rw [hs.guestRights_eq hroot]; exact h.shadowWritable
  shadowUser := by rw [hs.guestRights_eq hroot]; exact h.shadowUser
  user := h.user
  dirty hw := (hs.guestPte_one hroot va).le 6 (h.dirty hw)
  writable := by rw [hs.writeProtection]; exact h.writable
  supervisor := by rw [hs.writeProtection]; exact h.supervisor
  nx := by rw [h.nx, (hs.guestPte_one hroot va).eq 63 (by decide) (by decide)]

/-! ### Addresses that share an entry -/

/-- The indices of the shadow tables determine those of the guest tables. -/
theorem KvmMmu.IsFor.index_congr {m : KvmMmu} (h : m.IsFor pt) {l : Nat} (hpos : 1 ≤ l)
    (hidx : ∀ k, l ≤ k → k ≤ m.shadowRootLevel → pt64Index va k = pt64Index va' k) :
    ∀ k, l ≤ k → k ≤ m.rootLevel → pt.index va k = pt.index va' k := by
  intro k hlk hk
  cases pt with
  | pt64 =>
    rw [h.1] at hk
    exact congrArg Fin.val (hidx k hlk hk)
  | pt32 =>
    obtain ⟨hroot, hsroot⟩ := h
    have hbits : ∀ k, l ≤ k → k ≤ 3 → ∀ i, pt64LevelShift k ≤ i → i < pt64LevelShift k + 9 →
        va.hasBit i = va'.hasBit i := fun k hlk hk => pt64Index_eq_iff.1 (hidx k hlk (by omega))
    refine congrArg Fin.val (pt32Index_congr fun i hlo hhi => ?_)
    obtain rfl | rfl : k = 1 ∨ k = 2 := by omega
    · unfold pt32LevelShift at hlo hhi
      by_cases hi : i < 21
      · exact hbits 1 hlk (by omega) i (by unfold pt64LevelShift; omega) (by unfold pt64LevelShift; omega)
      · exact hbits 2 (by omega) (by omega) i (by unfold pt64LevelShift; omega) (by unfold pt64LevelShift; omega)
    · unfold pt32LevelShift at hlo hhi
      by_cases hi : i < 30
      · exact hbits 2 hlk (by omega) i (by unfold pt64LevelShift; omega) (by unfold pt64LevelShift; omega)
      · exact hbits 3 (by omega) (by omega) i (by unfold pt64LevelShift; omega) (by unfold pt64LevelShift; omega)

theorem UpperSound.congr (hfor : s.mmu.IsFor pt) {l : Nat} (hpos : 1 ≤ l) (hle : l ≤ s.mmu.shadowRootLevel)
    (hidx : ∀ k, l ≤ k → k ≤ s.mmu.shadowRootLevel → pt64Index va k = pt64Index va' k)
    (h : UpperSound pt s va l e) : UpperSound pt s va' l e := by
  refine ⟨?_, h.rights⟩
  rw [h.nx]
  cases pt with
  | pt32 => simp
  | pt64 =>
    unfold guestPte
    rw [guestWalk_congr s hpos (hfor.1 ▸ hle) (hfor.index_congr hpos hidx)]

theorem LeafSound.congr (hfor : s.mmu.IsFor pt)
    (hidx : ∀ k, 1 ≤ k → k ≤ s.mmu.shadowRootLevel → pt64Index va k = pt64Index va' k) (hroot : 1 ≤ s.mmu.rootLevel)
    (h : LeafSound pt s va e) : LeafSound pt s va' e := by
  have hgidx := hfor.index_congr le_rfl hidx
  have hwalk := guestWalk_congr s le_rfl hroot hgidx
  have hpte : guestPte pt s va' 1 = guestPte pt s va 1 := by
    unfold guestPte
    rw [hwalk]
  have hrights : guestRights pt s va' = guestRights pt s va := by
    unfold guestRights
    rw [hwalk, hpte]
  have hgaddr : guestGaddr pt s va' = guestGaddr pt s va := by
    unfold guestGaddr guestLevel leafGaddr
    rw [hwalk, hpte, hgidx 1 le_rfl hroot]
  exact
    { present := hpte ▸ h.present
      mapped := hgaddr ▸ h.mapped
      io := hgaddr ▸ h.io
      frame := hgaddr ▸ h.frame
      shadowWritable := hrights ▸ h.shadowWritable
      shadowUser := hrights ▸ h.shadowUser
      user := h.user
      dirty := hpte ▸ h.dirty
      writable := h.writable
      supervisor := h.supervisor
      nx := hpte ▸ h.nx }

/-! ### The paths after a step -/

theorem onPath_of_linkPage (h : MmuInv pool lvl r s) {l : Nat} {p q : Pfn} {rest : List Pfn} {flags : BitVec 64}
    (hp : OnPath s va (l + 2) p) (hf : s.freePages = q :: rest) (h0 : flags.hasBit 0 = true)
    (haddr : ∀ i, 12 ≤ i → i < 52 → flags.hasBit i = false) {k : Nat} {x : Pfn}
    (hx : OnPath (s.linkPage ⟨p, pt64Index va (l + 2)⟩ q rest flags) va' k x) : OnPath s va' k x ∨ x = q := by
  have hact := (h.active_of_onPath hp).1
  have hqp : q ≠ p := by
    rintro rfl
    exact h.tables.not_free_of_active hact (hf ▸ List.mem_cons_self)
  have hzq : ∀ i, s.shadow q i = 0 := h.tables.free_zero q (hf ▸ List.mem_cons_self)
  have hframe := (linkPage_readPte s ⟨p, pt64Index va (l + 2)⟩ q rest h0 haddr).2
  rcases OnPath.link_cases (s := s.activate q rest (some ⟨p, pt64Index va (l + 2)⟩)) hzq hqp
    ((congrArg frameOf (Vcpu.readPte_writePte_self ..)).symm.trans hframe) hx with hx | ⟨hx, -⟩
  · exact Or.inl ((@OnPath.congr s (s.activate q rest (some ⟨p, pt64Index va (l + 2)⟩)) _ _ _ rfl rfl rfl).1 hx)
  · exact Or.inr hx

theorem hasBit_markLarge (s : Vcpu) (ptr : PtePtr) (x : Pfn) (i : Fin 512) {j : Nat} (hj : j ≠ 9) :
    ((s.writePte ptr (s.readPte ptr ||| ptShadowPsMark)).shadow x i).hasBit j = (s.shadow x i).hasBit j := by
  rw [Vcpu.shadow_writePte]
  split
  · rename_i heq
    simp [Vcpu.readPte, heq.1, heq.2, hj]
  · rfl

theorem onPath_of_markLarge {ptr : PtePtr} {l : Nat} {x : Pfn}
    (hx : OnPath (s.writePte ptr (s.readPte ptr ||| ptShadowPsMark)) va' l x) : OnPath s va' l x :=
  OnPath.mono (s := s.writePte ptr (s.readPte ptr ||| ptShadowPsMark)) rfl rfl
    (fun _ _ _ hpres => ⟨(hasBit_markLarge s ptr _ _ (by decide)).symm.trans hpres,
      (frameOf_congr fun i h12 _ => hasBit_markLarge s ptr _ _ (by omega)).symm⟩) hx

/-! ### The steps keep the tables sound -/

namespace ShadowSound

variable {D : Set (BitVec 64)}

/-- The tables stay sound when entries are kept or emptied. -/
theorem mono (h : ShadowSound pt D s) (hfor : s.mmu.IsFor pt) (hs : SameWalks pt s s')
    (hpath : ∀ va l p, OnPath s' va l p → OnPath s va l p)
    (hshadow : ∀ p i, s'.shadow p i = s.shadow p i ∨ s'.shadow p i = 0) : ShadowSound pt D s' where
  upper va l p hp hpres hg := by
    have hp' := hpath va _ p hp
    rw [hs.present_iff hfor.one_le_rootLevel] at hg
    rcases hshadow p (pt64Index va (l + 2)) with heq | heq
    · rw [heq] at hpres ⊢
      exact (h.upper va l p hp' hpres hg).sameWalks hfor (by omega) hp'.level_le hs
    · rw [heq] at hpres
      exact absurd hpres (by simp)
  leaf va p hD hp hne := by
    rcases hshadow p (pt64Index va 1) with heq | heq
    · rw [heq] at hne ⊢
      exact (h.leaf va p hD (hpath va 1 p hp) hne).sameWalks hfor.one_le_rootLevel hs
    · exact absurd heq hne

theorem congr (h : ShadowSound pt D s) (hfor : s.mmu.IsFor pt) (hs : SameWalks pt s s')
    (hr : s'.mmu.rootHpa = s.mmu.rootHpa) (hl : s'.mmu.shadowRootLevel = s.mmu.shadowRootLevel)
    (hshadow : s'.shadow = s.shadow) : ShadowSound pt D s' :=
  h.mono hfor hs (fun _ _ _ => (OnPath.congr hr hl hshadow).1) fun _ _ => Or.inl (by rw [hshadow])

/-- A tree with an empty root is sound. -/
theorem of_newRoot {q : Pfn} (h : NewRoot pool q s s') : ShadowSound pt D s' where
  upper va l p hp hpres := by
    obtain ⟨-, rfl⟩ := h.onPath hp
    rw [h.empty] at hpres
    exact absurd hpres (by simp)
  leaf va p _ hp hne := by
    obtain ⟨-, rfl⟩ := h.onPath hp
    exact absurd (h.empty _) hne

/-- An entry of level one is written. -/
theorem writeLeaf (hs : ShadowSound pt D s) (h : MmuInv pool lvl r s) (hfor : s.mmu.IsFor pt)
    (hD : IndexClosed s.mmu.shadowRootLevel D) {p : Pfn} (hp : OnPath s va 1 p)
    (he : va ∈ D → e ≠ 0 → LeafSound pt s va e) : ShadowSound pt D (s.writePte ⟨p, pt64Index va 1⟩ e) := by
  have hlev := (h.active_of_onPath hp).2
  have hsame : SameGuest pt s (s.writePte ⟨p, pt64Index va 1⟩ e) := .of_eq rfl rfl rfl (fun _ => rfl) rfl fun _ _ => rfl
  have hroot := hfor.one_le_rootLevel
  refine ⟨fun va' l q hq' hpres hg => ?_, fun va' q hva' hq' hne => ?_⟩
  · have hq := (h.onPath_writeLeaf hlev _ e).1 hq'
    obtain ⟨-, hlev'⟩ := h.active_of_onPath hq
    rw [Vcpu.shadow_writePte_of_page_ne _ (show q ≠ p by rintro rfl; omega)] at hpres ⊢
    rw [hsame.sameWalks.present_iff hroot] at hg
    exact (hs.upper va' l q hq hpres hg).sameWalks hfor (by omega) hq.level_le hsame.sameWalks
  · have hq := (h.onPath_writeLeaf hlev _ e).1 hq'
    by_cases heq : (q, pt64Index va' 1) = (p, pt64Index va 1)
    · -- the address shares the entry, and with it the guest walk
      obtain ⟨rfl, hidx⟩ := Prod.mk.inj heq
      rw [hidx] at hne ⊢
      simp only [Vcpu.shadow_writePte, and_self, if_true] at hne ⊢
      have hall : ∀ k, 1 ≤ k → k ≤ s.mmu.shadowRootLevel → pt64Index va k = pt64Index va' k := by
        intro k hk hk'
        rcases Nat.eq_or_lt_of_le hk with rfl | hk
        · exact hidx.symm
        · exact h.unique hp hq k hk hk'
      have hva : va ∈ D := hD va' va (fun k hk hk' => (hall k hk hk').symm) hva'
      exact ((he hva hne).congr hfor hall hroot).sameWalks hroot hsame.sameWalks
    · rw [Vcpu.shadow_writePte_of_ne heq] at hne ⊢
      exact (hs.leaf va' q hva' hq hne).sameWalks hroot hsame.sameWalks

/-- A page is linked with the flags of a guest entry. -/
theorem linkPage (hs : ShadowSound pt D s) (h : MmuInv pool lvl r s) (hfor : s.mmu.IsFor pt) {l : Nat} {p q : Pfn}
    {rest : List Pfn} (hp : OnPath s va (l + 2) p) (hz : s.shadow p (pt64Index va (l + 2)) = 0)
    (hf : s.freePages = q :: rest) (hg : (guestPte pt s va (guestLevelFor pt (l + 2))).hasBit 0 = true) :
    ShadowSound pt D (s.linkPage ⟨p, pt64Index va (l + 2)⟩ q rest
      (linkFlags pt s (l + 2) (guestPte pt s va (guestLevelFor pt (l + 2))))) := by
  have hzq : ∀ i, s.shadow q i = 0 := h.tables.free_zero q (hf ▸ List.mem_cons_self)
  obtain ⟨hact, hlev⟩ := h.active_of_onPath hp
  have hqp : q ≠ p := by
    rintro rfl
    exact h.tables.not_free_of_active hact (hf ▸ List.mem_cons_self)
  obtain ⟨h0, haddr, hnx, hrights⟩ := @hasBit_linkFlags pt s (l + 2) _ hg
  generalize hflags : linkFlags pt s (l + 2) (guestPte pt s va (guestLevelFor pt (l + 2))) = flags at *
  have hsame : SameGuest pt s (s.linkPage ⟨p, pt64Index va (l + 2)⟩ q rest flags) :=
    .of_eq rfl rfl rfl (fun gpa => gpaToHpa_congr rfl rfl rfl gpa) rfl fun _ _ => rfl
  have hcases := fun va' k x (hx : OnPath (s.linkPage ⟨p, pt64Index va (l + 2)⟩ q rest flags) va' k x) =>
    onPath_of_linkPage h hp hf h0 haddr hx
  have hnew : ∀ i, (s.linkPage ⟨p, pt64Index va (l + 2)⟩ q rest flags).shadow q i = 0 := fun i =>
    (Vcpu.shadow_writePte_of_page_ne i hqp).trans (hzq i)
  have hold : ∀ x i, (x, i) ≠ (p, pt64Index va (l + 2)) →
      (s.linkPage ⟨p, pt64Index va (l + 2)⟩ q rest flags).shadow x i = s.shadow x i := fun x i hne =>
    Vcpu.shadow_writePte_of_ne hne
  have hentry : UpperSound pt s va (l + 2) (hpaOf q ||| flags) := by
    have hbits : ∀ i, i < 12 ∨ 52 ≤ i → (hpaOf q ||| flags).hasBit i = flags.hasBit i := fun i hi => by
      rw [BitVec.hasBit_or, hasBit_hpaOf]
      simp
      omega
    refine ⟨?_, fun hl => ?_⟩
    · rw [hbits 63 (by omega), hnx]
      cases pt <;> simp [guestLevelFor]
    · rw [hbits 1 (by omega), hbits 2 (by omega)]
      exact hrights hl
  have hroot := hfor.one_le_rootLevel
  refine ⟨fun va' k x hx' hpres hg => ?_, fun va' x hva' hx' hne => ?_⟩
  · rw [hsame.sameWalks.present_iff hroot] at hg
    rcases hcases va' _ x hx' with hx | rfl
    · by_cases heq : (x, pt64Index va' (k + 2)) = (p, pt64Index va (l + 2))
      · obtain ⟨rfl, hidx⟩ := Prod.mk.inj heq
        obtain ⟨-, hlev'⟩ := h.active_of_onPath hx
        obtain rfl : k = l := by omega
        rw [hidx, show (s.linkPage ⟨x, pt64Index va (k + 2)⟩ q rest flags).shadow x (pt64Index va (k + 2)) =
          hpaOf q ||| flags from Vcpu.readPte_writePte_self ..]
        have hall : ∀ j, k + 2 ≤ j → j ≤ s.mmu.shadowRootLevel → pt64Index va j = pt64Index va' j := by
          intro j hj hj'
          rcases Nat.eq_or_lt_of_le hj with rfl | hj
          · exact hidx.symm
          · exact h.unique hp hx j hj hj'
        exact (hentry.congr hfor (by omega) hp.level_le hall).sameWalks hfor (by omega) hp.level_le hsame.sameWalks
      · rw [hold x _ heq] at hpres ⊢
        exact (hs.upper va' k x hx hpres hg).sameWalks hfor (by omega) hx.level_le hsame.sameWalks
    · rw [hnew] at hpres
      exact absurd hpres (by simp)
  · rcases hcases va' _ x hx' with hx | rfl
    · obtain ⟨-, hlev'⟩ := h.active_of_onPath hx
      have hne' : (x, pt64Index va' 1) ≠ (p, pt64Index va (l + 2)) := by
        intro heq
        rw [(Prod.mk.inj heq).1] at hlev'
        omega
      rw [hold x _ hne'] at hne ⊢
      exact (hs.leaf va' x hva' hx hne).sameWalks hroot hsame.sameWalks
    · exact absurd (hnew _) hne

/-- A directory entry gains the mark of large pages. -/
theorem markLarge (hs : ShadowSound pt D s) (h : MmuInv pool lvl r s) (hfor : s.mmu.IsFor pt) {p : Pfn}
    (hp : OnPath s va 2 p) (he : (s.shadow p (pt64Index va 2)).hasBit 0 = true) :
    ShadowSound pt D (s.writePte ⟨p, pt64Index va 2⟩ (s.shadow p (pt64Index va 2) ||| ptShadowPsMark)) := by
  have hsame : SameGuest pt s (s.writePte ⟨p, pt64Index va 2⟩ (s.shadow p (pt64Index va 2) ||| ptShadowPsMark)) :=
    .of_eq rfl rfl rfl (fun _ => rfl) rfl fun _ _ => rfl
  obtain ⟨hact, hlev⟩ := h.active_of_onPath hp
  have hbit := fun x i {j : Nat} (hj : j ≠ 9) => hasBit_markLarge s ⟨p, pt64Index va 2⟩ x i hj
  unfold Vcpu.readPte at hbit
  have hroot := hfor.one_le_rootLevel
  refine ⟨fun va' l x hx hpres hg => ?_, fun va' x hva' hx hne => ?_⟩
  · have hx := @onPath_of_markLarge s va' ⟨p, pt64Index va 2⟩ _ _ hx
    rw [hbit _ _ (by decide)] at hpres
    rw [hsame.sameWalks.present_iff hroot] at hg
    have hold := (hs.upper va' l x hx hpres hg).sameWalks hfor (by omega) hx.level_le hsame.sameWalks
    refine ⟨?_, fun hl => ?_⟩
    · rw [hbit _ _ (by decide)]
      exact hold.nx
    · rw [hbit _ _ (by decide), hbit _ _ (by decide)]
      exact hold.rights hl
  · have hx := @onPath_of_markLarge s va' ⟨p, pt64Index va 2⟩ _ _ hx
    obtain ⟨-, hlev'⟩ := h.active_of_onPath hx
    rw [Vcpu.shadow_writePte_of_page_ne _ (show x ≠ p by rintro rfl; omega)] at hne ⊢
    exact (hs.leaf va' x hva' hx hne).sameWalks hroot hsame.sameWalks

end ShadowSound

/-- The entry that `fetch` installs. -/
theorem leafSound_leafPte (hg : (guestPte pt s va 1).hasBit 0 = true) : LeafSound pt s va (leafPte pt s va) := by
  have hargs := leafArgs s va hg
  have hbit := fun {i : Nat} (hi : i < 12 ∨ 52 ≤ i) =>
    @LeafArgs.hasBit_commonPte s.kvm _ _ _ hargs ((guestPte pt s va 1).hasBit 6) _ hi
  unfold leafPte
  constructor
  · exact hg
  · rw [hbit (by omega)]
    simp
  · rw [hbit (by omega)]
    simp
  · exact fun f hf => hargs.frameOf_commonPte _ hf
  · rw [hbit (by omega)]
    simp
  · rw [hbit (by omega)]
    simp
  · rw [hbit (by omega), hbit (by omega)]
    simp
  · intro hw
    rw [hbit (by omega)] at hw
    exact (Bool.and_eq_true_iff.1 hw).1
  · intro hw
    rw [hbit (by omega)] at hw
    rw [hbit (by omega)]
    exact Or.inl (Bool.and_eq_true_iff.1 hw).2
  · intro h2 h11
    rw [hbit (by omega)] at h2 h11
    simp only [Nat.reduceEqDiff, if_false, if_true] at h2 h11
    rw [h2] at h11
    cases h11
  · rw [hbit (by omega)]
    simp
    unfold leafBase
    cases pt <;> split <;>
      simp [PtType.nonPteCopyMask, PtType.pteCopyMask, pt32NonPteCopyMask, pt32PteCopyMask, pt64NonPteCopyMask,
        pt64PteCopyMask]

/-- Making an entry writable, with the guest entry made dirty. -/
theorem LeafSound.dirtyPte (hroot : 1 ≤ s.mmu.rootLevel) (h : LeafSound pt s va e)
    (hperm : e.hasBit 10 = true ∨ isWriteProtection s.vmcs = false) (hs : SameGuest pt s s') (hd : (guestPte pt s' va 1).hasBit 6 = true) : LeafSound pt s' va (dirtyPte e) := by
  have h' := h.sameWalks hroot hs.sameWalks
  refine ⟨h'.present, by simpa using h'.mapped, by simpa using h'.io, fun f hf => (frameOf_dirtyPte e).trans (h'.frame f hf),
    by simpa using h'.shadowWritable, by simpa using h'.shadowUser, fun hu => ?_, fun _ => hd, fun _ => ?_,
    fun hu hsu => ?_, by simpa using h'.nx⟩
  · simp only [hasBit_dirtyPte, Nat.reduceEqDiff, if_false, if_true, Bool.and_eq_true] at hu ⊢
    exact h'.user hu.2
  · simp only [hasBit_dirtyPte, Nat.reduceEqDiff, if_false, if_true]
    rw [hs.writeProtection]
    rcases hperm with h10 | hwp
    · exact Or.inl h10
    · cases h10 : e.hasBit 10
      · exact Or.inr ⟨hwp, rfl⟩
      · exact Or.inl rfl
  · simp only [hasBit_dirtyPte, Nat.reduceEqDiff, if_false, if_true] at hu hsu ⊢
    rw [hs.writeProtection]
    cases h10 : e.hasBit 10 with
    | false => exact ⟨rfl, hperm.resolve_left (by simp [h10])⟩
    | true =>
      rw [h10, Bool.true_and] at hu
      have := (h.supervisor hu hsu).1
      rw [h10] at this
      cases this

/-- Giving an entry back to user accesses. -/
theorem LeafSound.userPte (h : LeafSound pt s va e) (h11 : e.hasBit 11 = true) : LeafSound pt s va (userPte e) :=
  ⟨h.present, by simpa using h.mapped, by simpa using h.io, fun f hf => (frameOf_userPte e).trans (h.frame f hf),
    by simpa using h.shadowWritable, by simpa using h.shadowUser, fun _ => by simpa using h11, by simp, by simp, by simp,
    by simpa using h.nx⟩

/-- Withdrawing write access. -/
theorem LeafSound.clearWritable (h : LeafSound pt s va e) : LeafSound pt s va (clearWritable e) :=
  ⟨h.present, by simpa using h.mapped, by simpa using h.io,
    fun f hf => (frameOf_congr fun i h12 _ => by simp [show i ≠ 1 by omega]).trans (h.frame f hf),
    by simpa using h.shadowWritable, by simpa using h.shadowUser, by simpa using h.user, by simp, by simp,
    by simpa using h.supervisor, by simpa using h.nx⟩

theorem FaultStep.sound (h : MmuInv pool lvl r s) (hpool : pool ≠ []) (hfor : s.mmu.IsFor pt)
    {D : Set (BitVec 64)} (hD : IndexClosed s.mmu.shadowRootLevel D) (hs : ShadowSound pt D s)
    (hstep : FaultStep pt va s s') : ShadowSound pt D s' := by
  have hsame := (hstep.sameGuest h hpool).sameWalks
  cases hstep with
  | accessed => exact hs.congr hfor hsame rfl rfl rfl
  | link hp hz hf hg => exact hs.linkPage h hfor hp hz hf hg
  | mark hp he => exact hs.markLarge h hfor hp he
  | @leaf p hp hz hg =>
    have h1 := hs.writeLeaf h hfor hD hp fun _ _ => leafSound_leafPte hg
    have h2 : SameGuest pt (s.writePte ⟨p, pt64Index va 1⟩ (leafPte pt s va)) (installLeaf pt s va ⟨p, pt64Index va 1⟩) :=
      .of_eq rfl rfl rfl hsame.gpaToHpa rfl fun _ _ => rfl
    exact h1.congr hfor h2.sameWalks rfl rfl rfl
  | flush =>
    obtain ⟨lvl', q, -, h1, -⟩ := nonpagingFlush_spec h hpool
    exact .of_newRoot h1
  | @dirty p hp he hne hw hperm hg =>
    -- the guest entry is made dirty first, so that the new entry is sound where it is written
    let s1 := orEntry pt s (guestWalk pt s va 1).2 ptDirtyMask
    have hmask : ∀ i, ptDirtyMask.hasBit i = true → i = 5 ∨ i = 6 := fun i hi => Or.inr (by simpa using hi)
    have hsame1 : SameGuest pt s s1 := .orEntry (aligned_guestWalk s va 1) hmask
    have hdirty : (guestPte pt s1 va 1).hasBit 6 = true := by
      unfold guestPte
      rw [hsame1.guestWalk_eq, readEntry_orEntry_self (aligned_guestWalk s va 1) hmask]
      simp
    have h1 : MmuInv pool lvl r s1 := h.congr rfl rfl rfl (fun _ => rfl) (fun _ _ => Or.inl) rfl rfl
    have hp1 : OnPath s1 va 1 p := (@OnPath.congr s s1 _ _ _ rfl rfl rfl).2 hp
    have h2 := (hs.congr hfor hsame1.sameWalks rfl rfl rfl).writeLeaf h1 hfor hD hp1 fun hva _ =>
      (hs.leaf va p hva hp hne).dirtyPte hfor.one_le_rootLevel hperm hsame1 hdirty
    have h3 : SameGuest pt (s1.writePte ⟨p, pt64Index va 1⟩ (dirtyPte (s.shadow p (pt64Index va 1))))
        (dirtyLeaf pt s va ⟨p, pt64Index va 1⟩) :=
      .of_eq rfl rfl rfl (fun gpa => gpaToHpa_markPageDirty ..) rfl fun _ _ => rfl
    exact h2.congr hfor h3.sameWalks rfl rfl rfl
  | zap hp hg => exact hs.writeLeaf h hfor hD hp fun _ hne => absurd rfl hne
  | @user p hp he h11 h2 =>
    exact hs.writeLeaf h hfor hD hp fun hva _ => (hs.leaf va p hva hp (BitVec.ne_zero_of_hasBit h11)).userPte h11
  | inject errCode =>
    rw [injectPageFault_frame] at hsame ⊢
    exact hs.congr hfor hsame rfl rfl rfl

theorem FaultStep.run_sound (hpool : pool ≠ []) (h : MmuInv pool lvl r s) (hfor : s.mmu.IsFor pt)
    {D : Set (BitVec 64)} (hD : IndexClosed s.mmu.shadowRootLevel D) (hs : ShadowSound pt D s)
    (hrun : ReflTransGen (FaultStep pt va) s s') :
    (∃ lvl' r', MmuInv pool lvl' r' s') ∧ s'.mmu.IsFor pt ∧ s'.mmu = { s.mmu with rootHpa := s'.mmu.rootHpa } ∧
      ShadowSound pt D s' := by
  refine FaultStep.run (P := fun s' => s'.mmu.IsFor pt ∧ s'.mmu = { s.mmu with rootHpa := s'.mmu.rootHpa } ∧
    ShadowSound pt D s') hpool (fun h' hP hstep => ?_) h ⟨hfor, rfl, hs⟩ hrun
  obtain ⟨hfor', hmmu, hs'⟩ := hP
  refine ⟨hstep.isFor h' hpool hfor', ?_, hstep.sound h' hpool hfor' ?_ hs'⟩
  · have := hstep.context h' hpool
    rw [this, hmmu]
  · rw [hmmu]
    exact hD

end LearnKvm
