import LearnKvm.MappedPages
import LearnKvm.Mmu.Access
import LearnKvm.Mmu.AccessedRun
import LearnKvm.ModuleWrites

/-!
# Writable entries are logged

Guest code writes a page without an exit once a present entry of level one is writable.  `LoggedLeaf` says of such an
entry that the guest frames of its page are set in the dirty bitmap.  `set_pte_common` and `nonpaging_map` mark the
frame whose page they map.  `fix_write_pf` marks the frame in the guest entry at which the walk ends, whatever the shadow
entry maps: the two are the same unless the guest has changed its entry since, or the entry is of a large page, whose
first page is marked then.  `WriteFaultLogged` is the condition on the fault that they are the same, or that the frame is
marked already; under it the MMU keeps `LoggedLeaf` (`MmuStep.loggedLeaves`).
-/

namespace LearnKvm

open Relation

variable {pool : List Pfn} {lvl : Pfn → Nat} {r : Pfn} {v v' : Vcpu} {pt : PtType} {va hpa : BitVec 64} {kvm kvm' : Kvm}
  {e : BitVec 64} {gfn : Nat} {f : Pfn}

/-- What the guest can write without a fault is set in the dirty bitmaps. -/
structure StoresLogged (v : Vcpu) : Prop where
  leaf : ∀ va p, OnPath v va 1 p → (v.shadow p (pt64Index va 1)).hasBit 0 = true →
    (v.shadow p (pt64Index va 1)).hasBit 1 = true →
    ∀ gfn, Backs v.kvm (frameOf (v.shadow p (pt64Index va 1))) gfn → GfnMarked v.kvm gfn
  store : ∀ va acc f, acc.isWrite = true → CpuPermits v va acc f → ∀ gfn, Backs v.kvm f gfn → GfnMarked v.kvm gfn

/-! ### The condition on a write fault -/

variable (pt) in
/-- The guest frame that `fix_write_pf` marks. -/
def markedGfn (v : Vcpu) (va : BitVec 64) : Nat := gfnOf (guestPte pt v va 1 &&& pt64BaseAddrMask)

variable (pt) in
/-- `fix_write_pf` makes an entry for this page writable: one that it finds, or one that `fetch` has just installed
without write access. -/
inductive MakesWritable (v : Vcpu) (va : BitVec 64) (user : Bool) : Pfn → Prop
  | found {p : Pfn} (hp : OnPath v va 1 p) (hpres : (v.shadow p (pt64Index va 1)).hasBit 0 = true)
      (hfix : mayFix v (v.shadow p (pt64Index va 1)) user = true) :
      MakesWritable v va user (frameOf (v.shadow p (pt64Index va 1)))
  | installed {f : Pfn} (hnone : ∀ p, OnPath v va 1 p → v.shadow p (pt64Index va 1) = 0)
      (hclean : ((guestPte pt v va 1).hasBit 6 && (guestRights pt v va).hasBit 1) = false)
      (hrights : (if user then (guestRights pt v va).hasBit 2 && (guestRights pt v va).hasBit 1
        else (guestRights pt v va).hasBit 1 || !isWriteProtection v.vmcs) = true)
      (hf : gpaFrame v.kvm (guestGaddr pt v va) = some f) : MakesWritable v va user f

variable (pt) in
/-- A write fault marks what it makes writable, or that is marked already. -/
def WriteMarks (v : Vcpu) (va : BitVec 64) (user : Bool) : Prop :=
  (guestPte pt v va 1).hasBit 0 = true → ∀ f, MakesWritable pt v va user f →
    ∀ gfn, Backs v.kvm f gfn → GfnMarked v.kvm gfn ∨ gfn = markedGfn pt v va

/-- The condition on a fault. -/
def WriteFaultLogged (v : Vcpu) (va : BitVec 64) (errorCode : BitVec 32) : Prop :=
  v.mmu.ops ≠ .nonpaging → errorCode.hasBit 1 = true → WriteMarks v.mmu.ops.ptType v va (errorCode.hasBit 2)

/-! ### What holds of an entry -/

/-- A page holds one guest frame. -/
def BacksOnce (kvm : Kvm) : Prop := ∀ p gfn gfn', Backs kvm p gfn → Backs kvm p gfn' → gfn = gfn'

/-- The page of a present and writable entry is marked. -/
def LoggedLeaf (kvm : Kvm) (e : BitVec 64) : Prop :=
  e.hasBit 0 = true → e.hasBit 1 = true → ∀ gfn, Backs kvm (frameOf e) gfn → GfnMarked kvm gfn

theorem LoggedLeaf.grow (h : LoggedLeaf kvm e) (hgrows : KvmGrows kvm kvm') : LoggedLeaf kvm' e :=
  fun he hw gfn hback => hgrows.gfnMarked (h he hw gfn ((hgrows.backs_iff _ _).1 hback))

theorem BacksOnce.grow (h : BacksOnce kvm) (hgrows : KvmGrows kvm kvm') : BacksOnce kvm' := fun p gfn gfn' h1 h2 =>
  h p gfn gfn' ((hgrows.backs_iff p gfn).1 h1) ((hgrows.backs_iff p gfn').1 h2)

/-- What `gpa_to_hpa` finds is the page of the guest frame. -/
theorem backs_of_gpaFrame {gpa : BitVec 64} (h : gpaFrame kvm gpa = some f) : Backs kvm f (gfnOf gpa) := by
  obtain ⟨i, hi, hf⟩ := Option.map_eq_some_iff.1 h
  exact ⟨i, hi, hf⟩

theorem gfnMarked_mark {i : Fin 4} (h : gfnToMemslot kvm gfn = some i) : GfnMarked (markPageDirty kvm gfn) gfn :=
  (gfnMarked_markPageDirty kvm gfn gfn).2 (Or.inr ⟨i, i, h, h, rfl, rfl⟩)

theorem Backs.gfnMarked_mark {p : Pfn} (h : Backs kvm p gfn) : GfnMarked (markPageDirty kvm gfn) gfn := by
  obtain ⟨i, hi, -⟩ := h
  exact LearnKvm.gfnMarked_mark hi

theorem markedGfn_eq (h : SameGuest pt v v') (va : BitVec 64) : markedGfn pt v' va = markedGfn pt v va := by
  unfold markedGfn
  congr 1
  apply BitVec.eq_of_hasBit
  intro i _
  rw [BitVec.hasBit_and, BitVec.hasBit_and, hasBit_pt64BaseAddrMask]
  by_cases hi : 12 ≤ i
  · rw [(h.guestPte_le va 1).eq i (by omega) (by omega)]
  · simp [hi]

theorem hasBit_leafPte_one (hg : (guestPte pt v va 1).hasBit 0 = true) :
    (leafPte pt v va).hasBit 1 = ((guestPte pt v va 1).hasBit 6 && (guestRights pt v va).hasBit 1) := by
  unfold leafPte
  rw [(leafArgs v va hg).hasBit_commonPte _ (by omega)]
  simp

/-- The store of the guest goes through the entry of level one. -/
theorem StoresLogged.of_leaves (hl : Leaves (fun _ => LoggedLeaf v.kvm) v) : StoresLogged v where
  leaf va p hp he hw := hl va p hp _ he he hw
  store va acc f hwrite hcpu := by
    obtain ⟨p, hp, he, rfl⟩ := hcpu.mapped
    exact hl va p hp _ he he (hcpu.write hwrite 1 p hp (Or.inl (by decide)))

/-! ### The steps of a fault -/

/-- The entry that `fetch` installs. -/
theorem loggedLeaf_installLeaf (hone : BacksOnce v.kvm) {p : Pfn} (hg : (guestPte pt v va 1).hasBit 0 = true) :
    LoggedLeaf (installLeaf pt v va ⟨p, pt64Index va 1⟩).kvm (leafPte pt v va) := by
  intro he hw gfn hback
  have hleaf := leafSound_leafPte hg
  obtain ⟨f, hf⟩ := Option.isSome_iff_exists.1 (hleaf.mapped.symm.trans he)
  rw [hasBit_leafPte_one hg] at hw
  have hkvm : (installLeaf pt v va ⟨p, pt64Index va 1⟩).kvm = markPageDirty v.kvm (gfnOf (guestGaddr pt v va)) := if_pos hw
  rw [hkvm] at hback ⊢
  rw [(KvmGrows.markPageDirty _ _).backs_iff, hleaf.frame f hf] at hback
  obtain rfl := hone f _ _ hback (backs_of_gpaFrame hf)
  exact hback.gfnMarked_mark

/-- A step keeps what holds of the entries; a step that makes an entry writable has to mark its page. -/
theorem FaultStep.loggedLeaves (h : MmuInv pool lvl r v) (hpool : pool ≠ []) (hstep : FaultStep pt va v v')
    (hone : BacksOnce v.kvm) (hl : Leaves (fun _ => LoggedLeaf v.kvm) v)
    (hfix : ∀ p, OnPath v va 1 p → v' = dirtyLeaf pt v va ⟨p, pt64Index va 1⟩ →
      (v.shadow p (pt64Index va 1)).hasBit 0 = true →
      ∀ gfn, Backs v.kvm (frameOf (v.shadow p (pt64Index va 1))) gfn → GfnMarked v'.kvm gfn) :
    Leaves (fun _ => LoggedLeaf v'.kvm) v' := by
  have hgrows := KvmGrows.faultStep h hpool hstep
  refine hl.faultStep h hpool hstep (fun b b' e hb hq => hq.grow hgrows) (fun p heq hg _ => ?_)
    (fun p b hp heq hq he _ gfn hback => ?_) fun b e hq he hw => ?_
  · rw [heq]
    exact loggedLeaf_installLeaf hone hg
  · rw [frameOf_dirtyPte, hgrows.backs_iff] at hback
    exact hfix p hp heq (by simpa using he) gfn hback
  · exact absurd hw (by simp)

/-- The entry of the address after it has been made writable. -/
theorem shadow_dirtyLeaf (v : Vcpu) (va : BitVec 64) (p : Pfn) :
    (dirtyLeaf pt v va ⟨p, pt64Index va 1⟩).shadow p (pt64Index va 1) = dirtyPte (v.shadow p (pt64Index va 1)) :=
  Vcpu.readPte_writePte_self v ⟨p, pt64Index va 1⟩ _

/-- A step that leaves the entry of the address without write access, or keeps the rights it had. -/
theorem FaultStep.loggedLeaves_kept (h : MmuInv pool lvl r v) (hpool : pool ≠ []) (hstep : FaultStep pt va v v')
    (hone : BacksOnce v.kvm) (hl : Leaves (fun _ => LoggedLeaf v.kvm) v)
    (hkeep : ∀ p, OnPath v va 1 p → (v.shadow p (pt64Index va 1)).hasBit 0 = true →
      (v'.shadow p (pt64Index va 1)).hasBit 1 = true → (v.shadow p (pt64Index va 1)).hasBit 1 = true) :
    Leaves (fun _ => LoggedLeaf v'.kvm) v' := by
  refine hstep.loggedLeaves h hpool hone hl fun p hp heq he gfn hback => ?_
  have hw : (v'.shadow p (pt64Index va 1)).hasBit 1 = true := by
    rw [heq, shadow_dirtyLeaf]
    simp
  exact (KvmGrows.faultStep h hpool hstep).gfnMarked (hl va p hp _ he he (hkeep p hp he hw) gfn hback)

/-! ### The lookup -/

theorem FetchStep.run {P : Vcpu → Prop} (hpool : pool ≠ [])
    (hP : ∀ {v v' : Vcpu} {lvl : Pfn → Nat} {r : Pfn}, MmuInv pool lvl r v → P v → FetchStep pt va v v' → P v')
    (h : MmuInv pool lvl r v) (hv : P v) (hrun : ReflTransGen (FetchStep pt va) v v') :
    (∃ lvl' r', MmuInv pool lvl' r' v') ∧ P v' := by
  induction hrun with
  | refl => exact ⟨⟨lvl, r, h⟩, hv⟩
  | tail _ hstep ih =>
    obtain ⟨⟨lvl', r', h'⟩, hP'⟩ := ih
    exact ⟨hstep.step.inv h' hpool, hP h' hP' hstep⟩

/-- The lookup makes nothing writable but what it installs. -/
theorem FetchStep.loggedLeaves (h : MmuInv pool lvl r v) (hpool : pool ≠ []) (hstep : FetchStep pt va v v')
    (hone : BacksOnce v.kvm) (hl : Leaves (fun _ => LoggedLeaf v.kvm) v) : Leaves (fun _ => LoggedLeaf v'.kvm) v' :=
  hstep.step.loggedLeaves_kept h hpool hone hl fun p _ he =>
    hstep.rights p _ (BitVec.ne_zero_of_hasBit he) 1 (Or.inl rfl)

/-- An entry of the address was there before, or it has just been installed. -/
theorem FetchStep.leaf_cases (h : MmuInv pool lvl r v) (hpool : pool ≠ []) (hstep : FetchStep pt va v v') {p : Pfn}
    (hp : OnPath v' va 1 p) (hne : v'.shadow p (pt64Index va 1) ≠ 0) :
    OnPath v va 1 p ∧ v'.shadow p (pt64Index va 1) = v.shadow p (pt64Index va 1) ∨
      (guestPte pt v va 1).hasBit 0 = true ∧ v'.shadow p (pt64Index va 1) = leafPte pt v va := by
  -- after a write to the entry of the address
  have hwrite : ∀ {q : Pfn} {e : BitVec 64}, OnPath v va 1 q → v'.mmu = v.mmu →
      v'.shadow = (v.writePte ⟨q, pt64Index va 1⟩ e).shadow → p = q ∧ v'.shadow p (pt64Index va 1) = e := by
    intro q e hq hmmu hshadow
    have hp' : OnPath v va 1 p := (h.onPath_writeLeaf (h.active_of_onPath hq).2 _ e).1
      ((OnPath.congr (by rw [hmmu]; rfl) (by rw [hmmu]; rfl) hshadow).1 hp)
    obtain rfl := hp'.page_unique hq
    refine ⟨rfl, ?_⟩
    rw [hshadow, Vcpu.shadow_writePte, if_pos ⟨rfl, rfl⟩]
  have hsame : ∀ {v' : Vcpu}, v'.mmu = v.mmu → v'.shadow = v.shadow → OnPath v' va 1 p →
      OnPath v va 1 p ∧ v'.shadow p (pt64Index va 1) = v.shadow p (pt64Index va 1) := fun hmmu hshadow hp =>
    ⟨(OnPath.congr (by rw [hmmu]) (by rw [hmmu]) hshadow).1 hp, by rw [hshadow]⟩
  have hrights := hstep.rights
  cases hstep.step with
  | accessed => exact Or.inl (hsame rfl rfl hp)
  | @link l q x rest hq hz hf hg ha =>
    obtain ⟨h0, haddr, -⟩ := @hasBit_linkFlags pt v (l + 2) _ hg
    rcases linkPage_cases h hq hf h0 haddr hp with ⟨hp', hkeep⟩ | ⟨-, -, hlev, -⟩ | hempty
    · exact Or.inl ⟨hp', hkeep⟩
    · omega
    · exact absurd hempty hne
  | @mark q hq he hl =>
    have hp' := @onPath_of_markLarge v va ⟨q, pt64Index va 2⟩ _ _ hp
    have hlev := (h.active_of_onPath hp').2
    have hlev' := (h.active_of_onPath hq).2
    exact Or.inl ⟨hp', Vcpu.shadow_writePte_of_page_ne _ (by rintro rfl; omega)⟩
  | @leaf q hq hz hg hmark ha => exact Or.inr ⟨hg, (hwrite hq rfl rfl).2⟩
  | flush =>
    obtain ⟨lvl', q, h1, h2, -⟩ := nonpagingFlush_spec h hpool
    have := (h2.onPath hp).1
    have := h1.levels.shadowRootLevel
    omega
  | @dirty q hq he hne' hw =>
    obtain ⟨rfl, hentry⟩ := hwrite (e := dirtyPte (v.shadow q (pt64Index va 1))) hq rfl rfl
    have := hrights p _ hne' 1 (Or.inl rfl) (by rw [hentry]; simp)
    rw [hw] at this
    cases this
  | @zap q hq hg => exact absurd (hwrite (e := 0) hq rfl rfl).2 hne
  | @user q hq he h11 h2 =>
    obtain ⟨rfl, hentry⟩ := hwrite (e := userPte (v.shadow q (pt64Index va 1))) hq rfl rfl
    have := hrights p _ (BitVec.ne_zero_of_hasBit h11) 2 (Or.inr rfl) (by rw [hentry]; simp)
    rw [h2] at this
    cases this
  | inject errCode =>
    rw [injectPageFault_frame] at hp ⊢
    exact Or.inl (hsame rfl rfl hp)

variable (pt) in
/-- What the lookup hands to `fix_write_pf`: what it would make writable is marked, or is the frame that is marked. -/
def FixReady (v₀ : Vcpu) (va : BitVec 64) (user : Bool) (v : Vcpu) : Prop :=
  ∀ p, OnPath v va 1 p → (v.shadow p (pt64Index va 1)).hasBit 0 = true →
    mayFix v (v.shadow p (pt64Index va 1)) user = true →
    ∀ gfn, Backs v.kvm (frameOf (v.shadow p (pt64Index va 1))) gfn → GfnMarked v.kvm gfn ∨ gfn = markedGfn pt v₀ va

theorem FetchStep.fixReady {v₀ : Vcpu} {user : Bool} (h : MmuInv pool lvl r v) (hpool : pool ≠ [])
    (hstep : FetchStep pt va v v') (hguest : SameGuest pt v₀ v) (hroot : 1 ≤ v₀.mmu.rootLevel)
    (hgrows : KvmGrows v₀.kvm v.kvm) (hmarks : WriteMarks pt v₀ va user) (hg : (guestPte pt v₀ va 1).hasBit 0 = true)
    (hnone : ∀ p, OnPath v₀ va 1 p → v₀.shadow p (pt64Index va 1) = 0) (hready : FixReady pt v₀ va user v) :
    FixReady pt v₀ va user v' := by
  intro p hp hpres hfix gfn hback
  have hkvm := KvmGrows.faultStep h hpool hstep.step
  have hfix : mayFix v (v'.shadow p (pt64Index va 1)) user = true := by
    unfold mayFix at hfix ⊢
    rwa [(hstep.step.sameGuest h hpool).writeProtection] at hfix
  rw [hkvm.backs_iff] at hback
  rcases hstep.leaf_cases h hpool hp (BitVec.ne_zero_of_hasBit hpres) with ⟨hp', heq⟩ | ⟨hg', heq⟩
  · rw [heq] at hpres hfix hback
    exact (hready p hp' hpres hfix gfn hback).imp_left hkvm.gfnMarked
  · rw [heq] at hpres hfix hback
    have hleaf := leafSound_leafPte hg'
    have hrights := hguest.sameWalks.guestRights_eq hroot va
    obtain ⟨f, hf⟩ := Option.isSome_iff_exists.1 (hleaf.mapped.symm.trans hpres)
    rw [hleaf.frame f hf, hgrows.backs_iff] at hback
    rw [hguest.sameWalks.guestGaddr_eq hroot, hguest.sameWalks.gpaFrame_eq] at hf
    unfold mayFix at hfix
    rw [hasBit_leafPte_one hg', hleaf.shadowWritable, hleaf.shadowUser, hrights, hguest.writeProtection,
      Bool.and_eq_true, Bool.not_eq_true'] at hfix
    -- the guest entry was not dirty before either
    have hclean : ((guestPte pt v₀ va 1).hasBit 6 && (guestRights pt v₀ va).hasBit 1) = false := by
      by_contra hdirty
      rw [Bool.not_eq_false, Bool.and_eq_true] at hdirty
      rw [(hguest.guestPte_le va 1).le 6 hdirty.1, hdirty.2] at hfix
      cases hfix.1
    exact (hmarks hg f (.installed hnone hclean hfix.2 hf) gfn hback).imp_left (hgrows.trans hkvm).gfnMarked

/-! ### A fault -/

/-- The update of the entry after the lookup. -/
theorem fixPf_loggedLeaves (h : MmuInv pool lvl r v) (hpool : pool ≠ []) (hone : BacksOnce v.kvm)
    (hl : Leaves (fun _ => LoggedLeaf v.kvm) v) {p : Pfn} (hp : OnPath v va 1 p) (hne : v.readPte ⟨p, pt64Index va 1⟩ ≠ 0)
    {write user : Bool} (hready : write = true → (guestPte pt v va 1).hasBit 0 = true → FixReady pt v va user v) :
    Leaves (fun _ => LoggedLeaf (fixPf pt v va ⟨p, pt64Index va 1⟩ write user).1.kvm)
      (fixPf pt v va ⟨p, pt64Index va 1⟩ write user).1 := by
  -- an entry without write access is written
  have hclear : ∀ {e : BitVec 64}, e.hasBit 1 = false → FaultStep pt va v (v.writePte ⟨p, pt64Index va 1⟩ e) →
      Leaves (fun _ => LoggedLeaf v.kvm) (v.writePte ⟨p, pt64Index va 1⟩ e) := by
    intro e he hstep
    refine hstep.loggedLeaves_kept h hpool hone hl fun q hq _ hw => ?_
    obtain rfl := hq.page_unique hp
    rw [Vcpu.shadow_writePte, if_pos ⟨rfl, rfl⟩, he] at hw
    cases hw
  unfold fixPf
  split
  · rename_i hwrite
    split
    · rename_i hfix
      have hfix' := hfix
      unfold mayFix at hfix'
      rw [Bool.and_eq_true, Bool.not_eq_true'] at hfix'
      have hperm : (v.shadow p (pt64Index va 1)).hasBit 10 = true ∨ isWriteProtection v.vmcs = false := by
        have := hfix'.2
        simp only [Vcpu.readPte] at this
        split at this
        · rw [Bool.and_eq_true] at this
          exact Or.inl this.2
        · simpa using this
      split
      · rename_i hg
        obtain ⟨hact, hlev⟩ := h.active_of_onPath hp
        have hstep : FaultStep pt va v (dirtyLeaf pt v va ⟨p, pt64Index va 1⟩) :=
          .dirty hp (h.tables.leaf p hact hlev _) hne hfix'.1 hperm hg
        refine hstep.loggedLeaves h hpool hone hl fun q hq _ he gfn hback => ?_
        obtain rfl := hq.page_unique hp
        have hkvm : (dirtyLeaf pt v va ⟨q, pt64Index va 1⟩).kvm = markPageDirty v.kvm (markedGfn pt v va) := rfl
        rw [hkvm]
        rcases hready hwrite hg q hq he hfix gfn hback with hmarked | rfl
        · exact (KvmGrows.markPageDirty v.kvm _).gfnMarked hmarked
        · exact hback.gfnMarked_mark
      · rename_i hg
        exact hclear (by simp) (.zap hp (Bool.eq_false_iff.2 hg))
    · exact hl
  · split
    · rename_i hfix
      rw [Bool.and_eq_true, Bool.not_eq_true'] at hfix
      obtain ⟨hact, hlev⟩ := h.active_of_onPath hp
      exact hclear (by simp) (.user hp (h.tables.leaf p hact hlev _) hfix.1 hfix.2)
    · exact hl

/-- A fault is injected. -/
theorem loggedLeaves_injectPageFault (hl : Leaves (fun _ => LoggedLeaf v.kvm) v) (errorCode : BitVec 32) :
    Leaves (fun _ => LoggedLeaf (injectPageFault v va errorCode).kvm) (injectPageFault v va errorCode) := by
  rw [injectPageFault_frame]
  exact hl.of_same rfl rfl rfl

/-- After the lookup the entry that may be made writable is one that was found, or the one that has been installed. -/
theorem fixReady_lookup (hpool : pool ≠ []) (h : MmuInv pool lvl r v) (hroot : 1 ≤ v.mmu.rootLevel) {user : Bool}
    (hmarks : WriteMarks pt v va user) (hg : (guestPte pt v va 1).hasBit 0 = true)
    (hrun : ReflTransGen (FetchStep pt va) v v') (hsame : v' = v ∨ ∀ p, OnPath v va 1 p → v.shadow p (pt64Index va 1) = 0) :
    FixReady pt v va user v' := by
  have hstart : FixReady pt v va user v := fun p hp hpres hfix => hmarks hg _ (.found hp hpres hfix)
  rcases hsame with rfl | hnone
  · exact hstart
  · refine (FetchStep.run (P := fun t => SameGuest pt v t ∧ KvmGrows v.kvm t.kvm ∧ FixReady pt v va user t) hpool
      (fun h' hP hstep => ?_) h ⟨.refl v, .refl _, hstart⟩ hrun).2.2.2
    exact ⟨hP.1.trans (hstep.step.sameGuest h' hpool), hP.2.1.trans (.faultStep h' hpool hstep.step),
      hstep.fixReady h' hpool hP.1 hroot hP.2.1 hmarks hg hnone hP.2.2⟩

/-- A fault in a paging context. -/
theorem pageFault_loggedLeaves (hpool : pool ≠ []) (h : MmuInv pool lvl r v) (hfor : v.mmu.IsFor pt)
    (hone : BacksOnce v.kvm) (hl : Leaves (fun _ => LoggedLeaf v.kvm) v) {errorCode : BitVec 32} {fuel : Nat}
    {out : Vcpu × Bool} (hmarks : errorCode.hasBit 1 = true → WriteMarks pt v va (errorCode.hasBit 2))
    (hs : pageFault pt v va errorCode fuel = some out) : Leaves (fun _ => LoggedLeaf out.1.kvm) out.1 := by
  unfold pageFault at hs
  cases hf : fetchRetry pt va fuel v with
  | none =>
    rw [hf] at hs
    cases hs
  | some res =>
    obtain ⟨v1, walker, shadowPte⟩ := res
    rw [hf] at hs
    obtain rfl := Option.some.inj hs
    have hlookup := fetchRetry_spec hpool h hfor hf
    obtain ⟨lvl1, r1, h1⟩ := hlookup.inv
    obtain ⟨hgrows, hguest, hl1⟩ := (FetchStep.run
      (P := fun t => KvmGrows v.kvm t.kvm ∧ SameGuest pt v t ∧ Leaves (fun _ => LoggedLeaf t.kvm) t) hpool
      (fun h' hP hstep => ⟨hP.1.trans (.faultStep h' hpool hstep.step), hP.2.1.trans (hstep.step.sameGuest h' hpool),
        hstep.loggedLeaves h' hpool (hone.grow hP.1) hP.2.2⟩) h ⟨.refl _, .refl v, hl⟩ hlookup.steps).2
    cases shadowPte with
    | none => exact loggedLeaves_injectPageFault hl1 errorCode
    | some ptr =>
      obtain ⟨p, i⟩ := ptr
      obtain ⟨hp, rfl, hne, hw⟩ := hlookup.ok
      have hready : errorCode.hasBit 1 = true → (guestPte pt v1 va 1).hasBit 0 = true →
          FixReady pt v1 va (errorCode.hasBit 2) v1 := by
        intro hwrite hg
        have hg0 : (guestPte pt v va 1).hasBit 0 = true := ((hguest.guestPte_le va 1).eq 0 (by omega) (by omega)).symm.trans hg
        have hready := fixReady_lookup hpool h hfor.one_le_rootLevel (hmarks hwrite) hg0 hlookup.steps ?_
        · unfold FixReady at hready ⊢
          rwa [markedGfn_eq hguest]
        · -- an entry that is there is found
          by_contra hno
          rw [not_or, not_forall] at hno
          obtain ⟨hno, q, hq⟩ := hno
          rw [Classical.not_imp] at hq
          exact hno (fetchRetry_complete h hq.1 hq.2 hf).1
      have hfix := fixPf_loggedLeaves h1 hpool (hone.grow hgrows) hl1 hp hne hready
      rw [pageFaultFix_eq hw]
      dsimp only
      split
      · split
        · exact hfix
        · exact loggedLeaves_injectPageFault hfix _
      · split
        · exact loggedLeaves_injectPageFault hfix _
        · exact hfix

/-- A step of the fault handler without paging. -/
theorem NonpagingStep.loggedLeaves (h : MmuInv pool lvl r v) (hpool : pool ≠ []) {addr gpa : BitVec 64}
    (hstep : NonpagingStep addr (gpaToHpa kvm gpa) v v') (hgrows : KvmGrows kvm v.kvm) (hone : BacksOnce v.kvm)
    (hf : gpaFrame kvm gpa = some f) (hgfn : gfnOf addr = gfnOf gpa) (hl : Leaves (fun _ => LoggedLeaf v.kvm) v) :
    Leaves (fun _ => LoggedLeaf v'.kvm) v' := by
  have hgrows' := KvmGrows.nonpagingStep h hpool hstep
  refine hl.nonpagingStep h hpool hstep (fun b b' e _ hq => hq.grow hgrows') fun p heq _ _ gfn hback => ?_
  have hkvm : v'.kvm = markPageDirty v.kvm (gfnOf addr) := by
    rw [heq]
    unfold nonpagingLeaf
    rw [(pageHeaderUpdateSlot_frame { v with kvm := markPageDirty v.kvm (gfnOf addr) } p addr).1]
    rfl
  rw [frameOf_nonpaging hf, hgrows'.backs_iff] at hback
  obtain rfl := hone f _ _ hback ((hgrows.backs_iff _ _).2 (backs_of_gpaFrame hf))
  rw [hkvm, hgfn]
  exact hback.gfnMarked_mark

/-- **A fault keeps writable entries logged** if it marks what it makes writable. -/
theorem mmuPageFault_loggedLeaves (hpool : pool ≠ []) (h : MmuInv pool lvl r v) (hone : BacksOnce v.kvm)
    (hl : Leaves (fun _ => LoggedLeaf v.kvm) v) {addr : BitVec 64} {errorCode : BitVec 32} {fuel : Nat}
    {out : Vcpu × Bool} (haddr : v.mmu.ops = .nonpaging → addr.toNat < 2 ^ 32)
    (hmarks : WriteFaultLogged v addr errorCode) (hs : mmuPageFault v addr errorCode fuel = some out) :
    Leaves (fun _ => LoggedLeaf out.1.kvm) out.1 := by
  by_cases hops : v.mmu.ops = .nonpaging
  · rcases h.pageFault_run hpool hs with rfl | ⟨-, herr, hsteps⟩ | ⟨hno, -⟩
    · exact hl
    · rw [isErrorHpa_gpaToHpa] at herr
      obtain ⟨f, hf⟩ := Option.isSome_iff_exists.1 (by simpa using herr)
      refine (NonpagingStep.run (P := fun t => KvmGrows v.kvm t.kvm ∧ Leaves (fun _ => LoggedLeaf t.kvm) t) hpool
        (fun h' hP hstep => ?_) h ⟨.refl _, hl⟩ hsteps).2.2
      exact ⟨hP.1.trans (.nonpagingStep h' hpool hstep), hstep.loggedLeaves h' hpool hP.1 (hone.grow hP.1) hf
        (gfnOf_nonpaging (haddr hops)) hP.2⟩
    · exact absurd hops hno
  · rw [mmuPageFault_eq hops] at hs
    exact pageFault_loggedLeaves hpool h (h.levels.isFor hops) hone hl (hmarks hops) hs

/-- The other calls into the MMU remove entries. -/
theorem Leaves.of_released_logged (hl : Leaves (fun _ => LoggedLeaf v.kvm) v) (hrel : Released v v') :
    Leaves (fun _ => LoggedLeaf v'.kvm) v' :=
  (hl.of_released hrel).mono fun _ _ hq => hq.grow (.released hrel)

/-! ### A fault that does not meet the condition -/

/-- The slots have bitmaps of their own. -/
def BitmapsApart (kvm : Kvm) : Prop :=
  ∀ i j, i ≠ j → (kvm.memslots i).dirtyBitmap ≠ 0 → (kvm.memslots i).dirtyBitmap ≠ (kvm.memslots j).dirtyBitmap

theorem le_of_found {i : Fin 4} (h : gfnToMemslot kvm gfn = some i) : (kvm.memslots i).baseGfn ≤ gfn := by
  have hin := List.find?_some h
  unfold KvmMemorySlot.contains at hin
  simp only [Bool.and_eq_true, decide_eq_true_eq] at hin
  exact hin.2.1

/-- Marking a frame marks no other one. -/
theorem eq_of_gfnMarked_mark (hapart : BitmapsApart kvm) {gfn' : Nat} (hnot : ¬GfnMarked kvm gfn)
    (h : GfnMarked (markPageDirty kvm gfn') gfn) : gfn = gfn' := by
  obtain ⟨i, j, hi, hj, hmap, hnr⟩ := ((gfnMarked_markPageDirty kvm gfn gfn').1 h).resolve_left hnot
  have h0 : (kvm.memslots i).dirtyBitmap ≠ 0 := by
    intro h0
    refine hnot fun i' hi' hne => ?_
    obtain rfl := Option.some.inj (hi.symm.trans hi')
    exact absurd h0 hne
  obtain rfl : i = j := by
    by_contra hij
    exact hapart i j hij h0 hmap
  have := le_of_found hi
  have := le_of_found hj
  omega

/-- The lookup leaves the dirty bit of the guest entry alone. -/
theorem FetchStep.dirtyBit (h : MmuInv pool lvl r v) (hpool : pool ≠ []) (hstep : FetchStep pt va v v') :
    (guestPte pt v' va 1).hasBit 6 = (guestPte pt v va 1).hasBit 6 := by
  have hmem : v'.mem = v.mem → (guestPte pt v' va 1).hasBit 6 = (guestPte pt v va 1).hasBit 6 := by
    intro hmem
    unfold guestPte readEntry
    rw [(hstep.step.sameGuest h hpool).guestWalk_eq, hmem]
  have hrights := hstep.rights
  cases hstep.step with
  | @accessed level hpos hle hg =>
    unfold guestPte
    rw [(hstep.step.sameGuest h hpool).guestWalk_eq]
    have hmask : ∀ i, ptAccessedMask.hasBit i = true → i < 8 * pt.bytes := by
      intro i hi
      have : i = 5 := by simpa using hi
      cases pt <;> simp only [PtType.bytes] <;> omega
    have hload : readEntry pt (orEntry pt v (guestWalk pt v va level).2 ptAccessedMask) (guestWalk pt v va 1).2 =
        if (guestWalk pt v va 1).2 = (guestWalk pt v va level).2 then
          readEntry pt v (guestWalk pt v va level).2 ||| ptAccessedMask
        else readEntry pt v (guestWalk pt v va 1).2 :=
      ByteMem.load_orAt_aligned (bytes_dvd pt) v.mem (aligned_guestWalk v va level) (aligned_guestWalk v va 1) hmask
    rw [hload]
    split
    · rename_i heq
      rw [heq]
      simp
    · rfl
  | flush =>
    obtain ⟨lvl', q, -, h2, -⟩ := nonpagingFlush_spec h hpool
    exact hmem h2.mem
  | @dirty q hq he hne hw =>
    have := hrights q _ hne 1 (Or.inl rfl) (by rw [shadow_dirtyLeaf]; simp)
    rw [hw] at this
    cases this
  | inject errCode =>
    refine hmem ?_
    rw [injectPageFault_frame]
  | link => exact hmem rfl
  | mark => exact hmem rfl
  | leaf => exact hmem rfl
  | zap => exact hmem rfl
  | user => exact hmem rfl

/-- A new entry of the address, without write access: what the lookup installs when the guest entry is not dirty. -/
structure CleanLeaf (pt : PtType) (v₀ : Vcpu) (va : BitVec 64) (f : Pfn) (e : BitVec 64) : Prop where
  present : e.hasBit 0 = true
  clean : e.hasBit 1 = false
  writable : e.hasBit 10 = (guestRights pt v₀ va).hasBit 1
  user : e.hasBit 11 = (guestRights pt v₀ va).hasBit 2
  frame : frameOf e = f

/-- What the lookup has done up to a step, at an address that had no entry. -/
structure CleanLookup (pt : PtType) (v₀ : Vcpu) (va : BitVec 64) (f : Pfn) (v : Vcpu) : Prop where
  guest : SameGuest pt v₀ v
  grows : KvmGrows v₀.kvm v.kvm
  dirty : (guestPte pt v va 1).hasBit 6 = (guestPte pt v₀ va 1).hasBit 6
  bitmap : v.kvm.bitmap = v₀.kvm.bitmap
  leaf : ∀ p, OnPath v va 1 p → v.shadow p (pt64Index va 1) ≠ 0 → CleanLeaf pt v₀ va f (v.shadow p (pt64Index va 1))

/-- The entry that is installed. -/
theorem cleanLeaf_leafPte {v₀ : Vcpu} (hlook : CleanLookup pt v₀ va f v) (hroot : 1 ≤ v₀.mmu.rootLevel)
    (hclean : ((guestPte pt v₀ va 1).hasBit 6 && (guestRights pt v₀ va).hasBit 1) = false)
    (hf : gpaFrame v₀.kvm (guestGaddr pt v₀ va) = some f) (hg : (guestPte pt v va 1).hasBit 0 = true) :
    CleanLeaf pt v₀ va f (leafPte pt v va) := by
  have hleaf := leafSound_leafPte hg
  have hwalks := hlook.guest.sameWalks
  rw [← hwalks.guestGaddr_eq hroot, ← hwalks.gpaFrame_eq] at hf
  refine ⟨?_, ?_, ?_, ?_, hleaf.frame f hf⟩
  · rw [hleaf.mapped, hf]
    rfl
  · rw [hasBit_leafPte_one hg, hlook.dirty, hwalks.guestRights_eq hroot]
    exact hclean
  · rw [hleaf.shadowWritable, hwalks.guestRights_eq hroot]
  · rw [hleaf.shadowUser, hwalks.guestRights_eq hroot]

theorem FetchStep.cleanLookup {v₀ : Vcpu} (h : MmuInv pool lvl r v) (hpool : pool ≠ []) (hstep : FetchStep pt va v v')
    (hlook : CleanLookup pt v₀ va f v) (hroot : 1 ≤ v₀.mmu.rootLevel)
    (hclean : ((guestPte pt v₀ va 1).hasBit 6 && (guestRights pt v₀ va).hasBit 1) = false)
    (hf : gpaFrame v₀.kvm (guestGaddr pt v₀ va) = some f) : CleanLookup pt v₀ va f v' where
  guest := hlook.guest.trans (hstep.step.sameGuest h hpool)
  grows := hlook.grows.trans (.faultStep h hpool hstep.step)
  dirty := (hstep.dirtyBit h hpool).trans hlook.dirty
  bitmap := by
    refine Eq.trans ?_ hlook.bitmap
    have hrights := hstep.rights
    cases hstep.step with
    | leaf hp hz hg =>
      unfold installLeaf
      dsimp only
      rw [if_neg]
      rw [hlook.dirty, hlook.guest.sameWalks.guestRights_eq hroot, hclean]
      decide
    | flush =>
      obtain ⟨lvl', q, -, h2, -⟩ := nonpagingFlush_spec h hpool
      rw [h2.kvm]
    | @dirty q hq he hne hw =>
      have := hrights q _ hne 1 (Or.inl rfl) (by rw [shadow_dirtyLeaf]; simp)
      rw [hw] at this
      cases this
    | inject errCode => rw [injectPageFault_frame]
    | _ => rfl
  leaf p hp hne := by
    rcases hstep.leaf_cases h hpool hp hne with ⟨hp', heq⟩ | ⟨hg, heq⟩
    · rw [heq] at hne ⊢
      exact hlook.leaf p hp' hne
    · rw [heq]
      exact cleanLeaf_leafPte hlook hroot hclean hf hg

/-- The rest of the fault handler keeps what the update of the entry has left. -/
theorem pageFaultFix_keeps {walker : GuestWalker} (hw : WalkerAt pt v walker va 1) (ptr : PtePtr) (errorCode : BitVec 32) :
    (pageFaultFix pt v walker (some ptr) va errorCode).1.mmu =
        (fixPf pt v va ptr (errorCode.hasBit 1) (errorCode.hasBit 2)).1.mmu ∧
      (pageFaultFix pt v walker (some ptr) va errorCode).1.shadow =
        (fixPf pt v va ptr (errorCode.hasBit 1) (errorCode.hasBit 2)).1.shadow ∧
      (pageFaultFix pt v walker (some ptr) va errorCode).1.kvm =
        (fixPf pt v va ptr (errorCode.hasBit 1) (errorCode.hasBit 2)).1.kvm := by
  rw [pageFaultFix_eq hw]
  dsimp only
  split
  · split
    · exact ⟨rfl, rfl, rfl⟩
    · rw [injectPageFault_frame]
      exact ⟨rfl, rfl, rfl⟩
  · split
    · rw [injectPageFault_frame]
      exact ⟨rfl, rfl, rfl⟩
    · exact ⟨rfl, rfl, rfl⟩

/-- The frame whose page is made writable is not logged. -/
theorem fixPf_unlogged (h : MmuInv pool lvl r v) (hapart : BitmapsApart v.kvm) {p : Pfn} {user : Bool}
    (hp : OnPath v va 1 p) (hg : (guestPte pt v va 1).hasBit 0 = true)
    (hpres : (v.shadow p (pt64Index va 1)).hasBit 0 = true) (hfix : mayFix v (v.shadow p (pt64Index va 1)) user = true)
    (hback : Backs v.kvm (frameOf (v.shadow p (pt64Index va 1))) gfn) (hnot : ¬GfnMarked v.kvm gfn)
    (hne : gfn ≠ markedGfn pt v va) (hmmu : v'.mmu = (fixPf pt v va ⟨p, pt64Index va 1⟩ true user).1.mmu)
    (hshadow : v'.shadow = (fixPf pt v va ⟨p, pt64Index va 1⟩ true user).1.shadow)
    (hkvm : v'.kvm = (fixPf pt v va ⟨p, pt64Index va 1⟩ true user).1.kvm) : ¬StoresLogged v' := by
  have hout : (fixPf pt v va ⟨p, pt64Index va 1⟩ true user).1 = dirtyLeaf pt v va ⟨p, pt64Index va 1⟩ := by
    unfold fixPf
    rw [if_pos rfl, if_pos (show mayFix v (v.readPte ⟨p, pt64Index va 1⟩) user = true from hfix), if_pos hg]
  rw [hout] at hmmu hshadow hkvm
  have hkvm : v'.kvm = markPageDirty v.kvm (markedGfn pt v va) := hkvm
  have hshadow : v'.shadow = (v.writePte ⟨p, pt64Index va 1⟩ (dirtyPte (v.shadow p (pt64Index va 1)))).shadow := hshadow
  have hentry : v'.shadow p (pt64Index va 1) = dirtyPte (v.shadow p (pt64Index va 1)) := by
    rw [hshadow, Vcpu.shadow_writePte, if_pos ⟨rfl, rfl⟩]
  have hpath : OnPath v' va 1 p := by
    refine (OnPath.congr (by rw [hmmu]; rfl) (by rw [hmmu]; rfl) hshadow).2 ?_
    exact (h.onPath_writeLeaf (h.active_of_onPath hp).2 (pt64Index va 1) _).2 hp
  intro hlogged
  have hmarked := hlogged.leaf va p hpath (by rw [hentry]; simp [hpres]) (by rw [hentry]; simp) gfn (by
    rw [hentry, frameOf_dirtyPte, hkvm, (KvmGrows.markPageDirty _ _).backs_iff]
    exact hback)
  rw [hkvm] at hmarked
  exact hne (eq_of_gfnMarked_mark hapart hnot hmarked)

/-- **A write fault that does not meet the condition** leaves a page writable that is not logged. -/
theorem pageFault_unlogged (hpool : pool ≠ []) (h : MmuInv pool lvl r v) (hfor : v.mmu.IsFor pt)
    (hapart : BitmapsApart v.kvm) {errorCode : BitVec 32} {fuel : Nat} {out : Vcpu × Bool}
    (hwrite : errorCode.hasBit 1 = true) (hnot : ¬WriteMarks pt v va (errorCode.hasBit 2))
    (hs : pageFault pt v va errorCode fuel = some out) : ¬StoresLogged out.1 := by
  unfold WriteMarks at hnot
  push Not at hnot
  obtain ⟨hg, f, hf, gfn, hback, hunmarked, hne⟩ := hnot
  unfold pageFault at hs
  cases hfetch : fetchRetry pt va fuel v with
  | none =>
    rw [hfetch] at hs
    cases hs
  | some res =>
    obtain ⟨v1, walker, shadowPte⟩ := res
    rw [hfetch] at hs
    obtain rfl := Option.some.inj hs
    have hlookup := fetchRetry_spec hpool h hfor hfetch
    obtain ⟨lvl1, r1, h1⟩ := hlookup.inv
    cases hf with
    | @found p hp hpres hfix =>
      obtain ⟨rfl, rfl⟩ := fetchRetry_complete h hp (BitVec.ne_zero_of_hasBit hpres) hfetch
      obtain ⟨-, -, -, hw⟩ := hlookup.ok
      obtain ⟨hmmu, hshadow, hkvm⟩ := pageFaultFix_keeps hw ⟨p, pt64Index va 1⟩ errorCode
      rw [hwrite] at hmmu hshadow hkvm
      exact fixPf_unlogged h1 hapart hp hg hpres hfix hback hunmarked hne hmmu hshadow hkvm
    | installed hnone hclean hrights hf =>
      have hroot := hfor.one_le_rootLevel
      have hlook := (FetchStep.run (P := CleanLookup pt v va f) hpool
        (fun h' hP hstep => hstep.cleanLookup h' hpool hP hroot hclean hf) h
        ⟨.refl v, .refl _, rfl, rfl, fun p hp hno => absurd (hnone p hp) hno⟩ hlookup.steps).2
      have hg1 : (guestPte pt v1 va 1).hasBit 0 = true := (hlook.guest.guestPte_le va 1).le 0 hg
      cases shadowPte with
      | none =>
        have hno : (guestPte pt v1 va 1).hasBit 0 = false := hlookup.ok
        rw [hg1] at hno
        cases hno
      | some ptr =>
        obtain ⟨p, i⟩ := ptr
        obtain ⟨hp, rfl, hentry, hw⟩ := hlookup.ok
        have hleaf := hlook.leaf p hp hentry
        obtain ⟨hmmu, hshadow, hkvm⟩ := pageFaultFix_keeps hw ⟨p, pt64Index va 1⟩ errorCode
        rw [hwrite] at hmmu hshadow hkvm
        have hslots : v1.kvm.memslots = v.kvm.memslots := by rw [hlook.grows.frame]
        have hback1 : Backs v1.kvm (frameOf (v1.shadow p (pt64Index va 1))) gfn := by
          rw [hleaf.frame, hlook.grows.backs_iff]
          exact hback
        refine fixPf_unlogged h1 ?_ hp hg1 hleaf.present ?_ hback1 ?_ ?_ hmmu hshadow hkvm
        · unfold BitmapsApart
          rw [hslots]
          exact hapart
        · unfold mayFix
          rw [hleaf.clean, hleaf.writable, hleaf.user, hlook.guest.writeProtection, hrights]
          rfl
        · intro hmarked
          refine hunmarked fun i hi h0 => ?_
          have := hmarked i (by rw [hlook.grows.gfnToMemslot]; exact hi) (by rw [hslots]; exact h0)
          rwa [hlook.bitmap, hslots] at this
        · rwa [markedGfn_eq hlook.guest]

/-- So the condition is exact for a fault. -/
theorem storesLogged_fault_iff (hpool : pool ≠ []) (h : MmuInv pool lvl r v) (hone : BacksOnce v.kvm)
    (hapart : BitmapsApart v.kvm) (hl : Leaves (fun _ => LoggedLeaf v.kvm) v) {addr : BitVec 64}
    {errorCode : BitVec 32} {fuel : Nat} {out : Vcpu × Bool} (haddr : v.mmu.ops = .nonpaging → addr.toNat < 2 ^ 32)
    (hs : mmuPageFault v addr errorCode fuel = some out) : StoresLogged out.1 ↔ WriteFaultLogged v addr errorCode := by
  constructor
  · intro hlogged hops hwrite
    by_contra hnot
    have hs' := hs
    rw [mmuPageFault_eq hops] at hs'
    exact pageFault_unlogged hpool h (h.levels.isFor hops) hapart hwrite hnot hs' hlogged
  · exact fun hok => .of_leaves (mmuPageFault_loggedLeaves hpool h hone hl haddr hok hs)

end LearnKvm
