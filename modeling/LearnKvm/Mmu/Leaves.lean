import LearnKvm.Mmu.Nonpaging
import LearnKvm.Mmu.Run

/-!
# What holds of every leaf

`FilledEntries P s` says that every entry of a page of level one that is not empty satisfies `P`, which sees the header
of the page and the entry; `Leaves Q s` is about the present entries and the slot bitmap.  The lemmas follow the steps
of the MMU: an invariant of this form has to be checked only for the entries that a step writes, and for the change of
the headers.
-/

namespace LearnKvm

variable {pool : List Pfn} {lvl : Pfn → Nat} {r : Pfn} {s s' : Vcpu} {pt : PtType} {va hpa : BitVec 64}
  {P P' : KvmMmuPage → BitVec 64 → Prop} {Q Q' : BitVec 64 → BitVec 64 → Prop}

def FilledEntries (P : KvmMmuPage → BitVec 64 → Prop) (s : Vcpu) : Prop :=
  ∀ va p, OnPath s va 1 p → ∀ i, s.shadow p i ≠ 0 → P (s.header p) (s.shadow p i)

def Leaves (Q : BitVec 64 → BitVec 64 → Prop) (s : Vcpu) : Prop :=
  ∀ va p, OnPath s va 1 p → ∀ i, (s.shadow p i).hasBit 0 = true → Q (s.header p).slotBitmap (s.shadow p i)

/-- Present entries are not empty. -/
theorem leaves_iff_filledEntries :
    Leaves Q s ↔ FilledEntries (fun hd e => e.hasBit 0 = true → Q hd.slotBitmap e) s :=
  ⟨fun h va p hp i _ h0 => h va p hp i h0, fun h va p hp i h0 => h va p hp i (BitVec.ne_zero_of_hasBit h0) h0⟩

/-- The slot bitmap keeps its bits. -/
def BitsLe (b b' : BitVec 64) : Prop := ∀ i, b.hasBit i = true → b'.hasBit i = true

theorem BitsLe.refl (b : BitVec 64) : BitsLe b b := fun _ h => h

theorem bitsLe_leafHeader (kvm : Kvm) (hd : KvmMmuPage) (gaddr : BitVec 64) (global : Bool) :
    BitsLe hd.slotBitmap (leafHeader kvm hd gaddr global).slotBitmap := by
  intro i hi
  unfold leafHeader
  dsimp only
  cases gfnToMemslot kvm (gfnOf gaddr) with
  | none => exact hi
  | some slot => simp [hi]

theorem bitsLe_pageHeaderUpdateSlot (s : Vcpu) (page : Pfn) (gpa : BitVec 64) (p : Pfn) :
    BitsLe (s.header p).slotBitmap ((pageHeaderUpdateSlot s page gpa).header p).slotBitmap := by
  intro i hi
  unfold pageHeaderUpdateSlot
  cases gfnToMemslot s.kvm (gfnOf gpa) with
  | none => exact hi
  | some slot =>
    dsimp only
    split
    · rename_i hp
      simp [hi]
    · exact hi

/-- What happens to the header of a page while it is in use: slots are added, and `global` is lowered. -/
structure HeaderLe (hd hd' : KvmMmuPage) : Prop where
  slots : BitsLe hd.slotBitmap hd'.slotBitmap
  global : hd'.global = true → hd.global = true

theorem HeaderLe.refl (hd : KvmMmuPage) : HeaderLe hd hd := ⟨.refl _, id⟩

theorem headerLe_leafHeader (kvm : Kvm) (hd : KvmMmuPage) (gaddr : BitVec 64) (global : Bool) :
    HeaderLe hd (leafHeader kvm hd gaddr global) :=
  ⟨bitsLe_leafHeader _ _ _ _, fun h => (Bool.and_eq_true_iff.1 h).1⟩

theorem headerLe_pageHeaderUpdateSlot (s : Vcpu) (page : Pfn) (gpa : BitVec 64) (p : Pfn) :
    HeaderLe (s.header p) ((pageHeaderUpdateSlot s page gpa).header p) := by
  refine ⟨bitsLe_pageHeaderUpdateSlot _ _ _ _, fun h => ?_⟩
  unfold pageHeaderUpdateSlot at h
  cases hslot : gfnToMemslot s.kvm (gfnOf gpa) with
  | none =>
    rw [hslot] at h
    exact h
  | some slot =>
    rw [hslot] at h
    dsimp only at h
    split at h
    · exact h
    · exact h

namespace FilledEntries

theorem mono (hs : FilledEntries P s) (hp : ∀ hd e, P hd e → P' hd e) : FilledEntries P' s :=
  fun va p hpath i he => hp _ _ (hs va p hpath i he)

/-- Entries are kept or emptied, and paths are removed. -/
theorem congr (hs : FilledEntries P s) (hpath : ∀ va p, OnPath s' va 1 p → OnPath s va 1 p)
    (hshadow : ∀ p i, s'.shadow p i = s.shadow p i ∨ s'.shadow p i = 0) (hheader : s'.header = s.header) :
    FilledEntries P s' := by
  intro va p hp i he
  rcases hshadow p i with heq | heq
  · rw [heq] at he ⊢
    rw [hheader]
    exact hs va p (hpath va p hp) i he
  · exact absurd heq he

theorem of_same (hs : FilledEntries P s) (hmmu : s'.mmu = s.mmu) (hshadow : s'.shadow = s.shadow)
    (hheader : s'.header = s.header) : FilledEntries P s' :=
  hs.congr (fun _ _ => (OnPath.congr (by rw [hmmu]) (by rw [hmmu]) hshadow).1) (fun _ _ => Or.inl (by rw [hshadow])) hheader

theorem of_released (hs : FilledEntries P s) (h : Released s s') : FilledEntries P s' :=
  hs.congr (fun _ _ => .of_released h) h.shadow (by rw [h.frame])

/-- A tree with an empty root has no entries of level one. -/
theorem of_newRoot {q : Pfn} (h : MmuInv pool lvl r s') (hnew : NewRoot pool q s s') : FilledEntries P s' := by
  intro va p hp
  have hlev := h.levels.shadowRootLevel
  obtain ⟨h1, -⟩ := hnew.onPath hp
  omega

/-- An entry of level one is written. -/
theorem writeLeaf {p : Pfn} {i : Fin 512} {e : BitVec 64} (hs : FilledEntries P s) (h : MmuInv pool lvl r s)
    (hp : OnPath s va 1 p) (hmmu : s'.mmu = s.mmu) (hshadow : s'.shadow = (s.writePte ⟨p, i⟩ e).shadow)
    (hkeep : ∀ q e, P (s.header q) e → P' (s'.header q) e) (hnew : e ≠ 0 → P' (s'.header p) e) :
    FilledEntries P' s' := by
  intro va' q hq j he
  have hlev := (h.active_of_onPath hp).2
  have hq : OnPath s va' 1 q :=
    (h.onPath_writeLeaf hlev i e).1 ((OnPath.congr (by rw [hmmu]; rfl) (by rw [hmmu]; rfl) hshadow).1 hq)
  rw [hshadow] at he ⊢
  by_cases heq : (q, j) = (p, i)
  · obtain ⟨rfl, rfl⟩ := Prod.mk.inj heq
    rw [show (s.writePte ⟨q, j⟩ e).shadow q j = e from Vcpu.readPte_writePte_self s ⟨q, j⟩ e] at he ⊢
    exact hnew he
  · rw [Vcpu.shadow_writePte_of_ne heq] at he ⊢
    exact hkeep q _ (hs va' q hq j he)

/-- A page is linked. -/
theorem linkPage {l : Nat} {p q : Pfn} {rest : List Pfn} {flags : BitVec 64} (hs : FilledEntries P s)
    (h : MmuInv pool lvl r s) (hp : OnPath s va (l + 2) p) (hf : s.freePages = q :: rest) (h0 : flags.hasBit 0 = true)
    (haddr : ∀ i, 12 ≤ i → i < 52 → flags.hasBit i = false) :
    FilledEntries P (s.linkPage ⟨p, pt64Index va (l + 2)⟩ q rest flags) := by
  intro va' x hx i he
  obtain ⟨hact, hlev⟩ := h.active_of_onPath hp
  have hfree : q ∉ s.kvm.activeMmuPages := fun ha => h.tables.not_free_of_active ha (hf ▸ List.mem_cons_self)
  rcases onPath_of_linkPage h hp hf h0 haddr hx with hx | rfl
  · obtain ⟨hact', hlev'⟩ := h.active_of_onPath hx
    have hxp : x ≠ p := by
      rintro rfl
      omega
    have hxq : x ≠ q := by
      rintro rfl
      exact hfree hact'
    have heq : (s.linkPage ⟨p, pt64Index va (l + 2)⟩ q rest flags).shadow x i = s.shadow x i :=
      Vcpu.shadow_writePte_of_page_ne i hxp
    have hheader : (s.linkPage ⟨p, pt64Index va (l + 2)⟩ q rest flags).header x = s.header x := if_neg hxq
    rw [heq] at he ⊢
    rw [hheader]
    exact hs va' x hx i he
  · have hxp : x ≠ p := by
      rintro rfl
      exact hfree hact
    have heq : (s.linkPage ⟨p, pt64Index va (l + 2)⟩ x rest flags).shadow x i = s.shadow x i :=
      Vcpu.shadow_writePte_of_page_ne i hxp
    rw [heq, h.tables.free_zero x (hf ▸ List.mem_cons_self)] at he
    exact absurd rfl he

/-- A directory entry gains the mark of large pages. -/
theorem markLarge {p : Pfn} (hs : FilledEntries P s) (h : MmuInv pool lvl r s) (hp : OnPath s va 2 p) :
    FilledEntries P (s.writePte ⟨p, pt64Index va 2⟩ (s.shadow p (pt64Index va 2) ||| ptShadowPsMark)) := by
  intro va' x hx i he
  have hx := @onPath_of_markLarge s va' ⟨p, pt64Index va 2⟩ _ _ hx
  have hlev := (h.active_of_onPath hp).2
  have hlev' := (h.active_of_onPath hx).2
  rw [Vcpu.shadow_writePte_of_page_ne i (show x ≠ p by rintro rfl; omega)] at he ⊢
  exact hs va' x hx i he

/-- Write access to a slot is withdrawn. -/
theorem slotRemoveWriteAccess (hs : FilledEntries P s) (h : MmuInv pool lvl r s) (slot : Fin 4)
    (hkeep : ∀ hd e, hd.slotBitmap.hasBit slot.val = false → P hd e → P' hd e)
    (hclear : ∀ hd e, P hd e → P' hd (clearWritable e)) : FilledEntries P' (kvmMmuSlotRemoveWriteAccess s slot) := by
  intro va p hp i he
  have hp := onPath_slotRemoveWriteAccess.1 hp
  have hact := (h.active_of_onPath hp).1
  rw [shadow_slotRemoveWriteAccess] at he ⊢
  rw [header_slotRemoveWriteAccess]
  split at he
  · rename_i hbit
    rw [if_pos hbit]
    refine hclear _ _ (hs va p hp i fun h0 => he ?_)
    rw [h0]
    rfl
  · rename_i hbit
    rw [if_neg hbit]
    refine hkeep _ _ ?_ (hs va p hp i he)
    by_contra hno
    exact hbit ⟨hact, by simpa using hno⟩

/-- A step of the fault handler of a paging context. -/
theorem faultStep (hs : FilledEntries P s) (h : MmuInv pool lvl r s) (hpool : pool ≠ []) (hstep : FaultStep pt va s s')
    (hkeep : ∀ hd hd' e, HeaderLe hd hd' → P hd e → P' hd' e)
    (hleaf : ∀ p, s' = installLeaf pt s va ⟨p, pt64Index va 1⟩ → (guestPte pt s va 1).hasBit 0 = true →
      P' (s'.header p) (leafPte pt s va))
    (hdirty : ∀ p hd, OnPath s va 1 p → s' = dirtyLeaf pt s va ⟨p, pt64Index va 1⟩ → P hd (s.shadow p (pt64Index va 1)) →
      P' hd (dirtyPte (s.shadow p (pt64Index va 1))))
    (huser : ∀ hd e, P hd e → P' hd (userPte e)) : FilledEntries P' s' := by
  have hmono : ∀ {s'}, FilledEntries P s' → FilledEntries P' s' := fun hs =>
    hs.mono fun hd e => hkeep hd hd e (HeaderLe.refl hd)
  cases hstep with
  | accessed => exact hmono (hs.of_same rfl rfl rfl)
  | @link l p q rest hp hz hf hg =>
    obtain ⟨h0, haddr, -⟩ := @hasBit_linkFlags pt s (l + 2) _ hg
    exact hmono (hs.linkPage h hp hf h0 haddr)
  | mark hp he => exact hmono (hs.markLarge h hp)
  | @leaf p hp hz hg =>
    refine hs.writeLeaf h hp (e := leafPte pt s va) rfl rfl (fun q e hq => hkeep _ _ e ?_ hq) fun _ => hleaf p rfl hg
    show HeaderLe _ (if q = p then _ else _ : KvmMmuPage)
    split
    · exact headerLe_leafHeader _ _ _ _
    · exact .refl _
  | flush =>
    obtain ⟨lvl', q, h1, h2, -⟩ := nonpagingFlush_spec h hpool
    exact .of_newRoot h1 h2
  | @dirty p hp he hne hw hperm hg =>
    exact hs.writeLeaf h hp (e := dirtyPte (s.shadow p (pt64Index va 1))) rfl rfl
      (fun q e => hkeep _ _ e (.refl _)) fun _ => hdirty p _ hp rfl (hs va p hp _ hne)
  | @zap p hp hg => exact hs.writeLeaf h hp (e := 0) rfl rfl (fun q e => hkeep _ _ e (.refl _)) fun h0 => absurd rfl h0
  | @user p hp he h11 h2 =>
    exact hs.writeLeaf h hp (e := userPte (s.shadow p (pt64Index va 1))) rfl rfl
      (fun q e => hkeep _ _ e (.refl _)) fun _ => huser _ _ (hs va p hp _ (BitVec.ne_zero_of_hasBit h11))
  | inject errCode =>
    rw [injectPageFault_frame]
    exact hmono (hs.of_same rfl rfl rfl)

/-- A step of the fault handler without paging. -/
theorem nonpagingStep (hs : FilledEntries P s) (h : MmuInv pool lvl r s) (hpool : pool ≠ [])
    (hstep : NonpagingStep va hpa s s') (hkeep : ∀ hd hd' e, HeaderLe hd hd' → P hd e → P' hd' e)
    (hleaf : ∀ p, s' = nonpagingLeaf s va hpa p →
      P' (s'.header p) (hpa ||| ptPresentMask ||| ptWritableMask ||| ptUserMask)) : FilledEntries P' s' := by
  have hmono : ∀ {s'}, FilledEntries P s' → FilledEntries P' s' := fun hs =>
    hs.mono fun hd e => hkeep hd hd e (HeaderLe.refl hd)
  cases hstep with
  | @link l p q rest hp hz hf =>
    refine hmono (hs.linkPage h hp hf (by simp [hasBit_nonpagingLinkFlags]) fun i h12 _ => ?_)
    simp [hasBit_nonpagingLinkFlags]
    omega
  | @leaf p hp =>
    have hframe := (pageHeaderUpdateSlot_frame { s with kvm := markPageDirty s.kvm (gfnOf va) } p va).1
    refine hs.writeLeaf h hp (e := hpa ||| ptPresentMask ||| ptWritableMask ||| ptUserMask) (i := pt64Index va 1)
      ?_ ?_ (fun q e hq => hkeep _ _ e ?_ hq) fun _ => hleaf p rfl
    · unfold nonpagingLeaf
      rw [hframe]
      rfl
    · unfold nonpagingLeaf
      rw [hframe]
      rfl
    · exact headerLe_pageHeaderUpdateSlot { s with kvm := markPageDirty s.kvm (gfnOf va) } p va q
  | flush =>
    obtain ⟨lvl', q, h1, h2, -⟩ := nonpagingFlush_spec h hpool
    exact .of_newRoot h1 h2

end FilledEntries

namespace Leaves

theorem mono (hs : Leaves Q s) (hq : ∀ b e, Q b e → Q' b e) : Leaves Q' s :=
  fun va p hp i he => hq _ _ (hs va p hp i he)

theorem of_same (hs : Leaves Q s) (hmmu : s'.mmu = s.mmu) (hshadow : s'.shadow = s.shadow) (hheader : s'.header = s.header) :
    Leaves Q s' :=
  leaves_iff_filledEntries.2 ((leaves_iff_filledEntries.1 hs).of_same hmmu hshadow hheader)

theorem of_released (hs : Leaves Q s) (h : Released s s') : Leaves Q s' :=
  leaves_iff_filledEntries.2 ((leaves_iff_filledEntries.1 hs).of_released h)

theorem of_newRoot {q : Pfn} (h : MmuInv pool lvl r s') (hnew : NewRoot pool q s s') : Leaves Q s' :=
  leaves_iff_filledEntries.2 (.of_newRoot h hnew)

/-- Write access to a slot is withdrawn. -/
theorem slotRemoveWriteAccess (hs : Leaves Q s) (h : MmuInv pool lvl r s) (slot : Fin 4)
    (hkeep : ∀ b e, b.hasBit slot.val = false → Q b e → Q' b e) (hclear : ∀ b e, Q b e → Q' b (clearWritable e)) :
    Leaves Q' (kvmMmuSlotRemoveWriteAccess s slot) := by
  refine leaves_iff_filledEntries.2 ((leaves_iff_filledEntries.1 hs).slotRemoveWriteAccess h slot
    (fun hd e hbit hq h0 => hkeep _ _ hbit (hq h0)) fun hd e hq h0 => hclear _ _ (hq ?_))
  simpa using h0

/-- A step of the fault handler of a paging context. -/
theorem faultStep (hs : Leaves Q s) (h : MmuInv pool lvl r s) (hpool : pool ≠ []) (hstep : FaultStep pt va s s')
    (hkeep : ∀ b b' e, BitsLe b b' → Q b e → Q' b' e)
    (hleaf : ∀ p, s' = installLeaf pt s va ⟨p, pt64Index va 1⟩ → (guestPte pt s va 1).hasBit 0 = true →
      (leafPte pt s va).hasBit 0 = true → Q' (s'.header p).slotBitmap (leafPte pt s va))
    (hdirty : ∀ p b, OnPath s va 1 p → s' = dirtyLeaf pt s va ⟨p, pt64Index va 1⟩ →
      Q b (s.shadow p (pt64Index va 1)) → Q' b (dirtyPte (s.shadow p (pt64Index va 1))))
    (huser : ∀ b e, Q b e → Q' b (userPte e)) : Leaves Q' s' := by
  refine leaves_iff_filledEntries.2 ((leaves_iff_filledEntries.1 hs).faultStep h hpool hstep
    (fun hd hd' e hle hq h0 => hkeep _ _ e hle.slots (hq h0)) (fun p heq hg h0 => hleaf p heq hg h0)
    (fun p hd hp heq hq h0 => hdirty p _ hp heq (hq ?_)) fun hd e hq h0 => huser _ e (hq ?_))
  · simpa using h0
  · simpa using h0

/-- A step of the fault handler without paging. -/
theorem nonpagingStep (hs : Leaves Q s) (h : MmuInv pool lvl r s) (hpool : pool ≠ []) (hstep : NonpagingStep va hpa s s')
    (hkeep : ∀ b b' e, BitsLe b b' → Q b e → Q' b' e)
    (hleaf : ∀ p, s' = nonpagingLeaf s va hpa p →
      Q' (s'.header p).slotBitmap (hpa ||| ptPresentMask ||| ptWritableMask ||| ptUserMask)) : Leaves Q' s' :=
  leaves_iff_filledEntries.2 ((leaves_iff_filledEntries.1 hs).nonpagingStep h hpool hstep
    (fun _ _ e hle hq h0 => hkeep _ _ e hle.slots (hq h0)) fun p heq _ => hleaf p heq)

end Leaves

end LearnKvm
