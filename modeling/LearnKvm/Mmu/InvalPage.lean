import LearnKvm.Mmu.GuestPages
import LearnKvm.Mmu.Exact

/-!
# INVLPG

`paging_inval_page` walks the shadow tables of one address.  Where it finds the mark of a large page it drops the whole
shadow table of the address, which holds the entries of 2M.  For a 2M page these are all entries.  A 4M page has two
such tables, with a marked directory entry each, and the one for the other half stays: the page is removed exactly if
the other half had no entries.
-/

namespace LearnKvm

open Relation

variable {pool : List Pfn} {lvl : Pfn → Nat} {r : Pfn} {s s' : Vcpu} {va addr : BitVec 64} {sizes : PageSizes}

/-- What removing the entry of an address leaves of the shadow tables. -/
inductive InvalEffect (s : Vcpu) (addr : BitVec 64) (s' : Vcpu) : Prop
  | missing (hshadow : s'.shadow = s.shadow) (hnot : ∀ p, ¬OnPath s addr 1 p)
  | entry {p : Pfn} (hp : OnPath s addr 1 p) (hmark : ¬PsMarked s addr)
      (hshadow : s'.shadow = (s.writePte ⟨p, pt64Index addr 1⟩ 0).shadow)
  | table {p : Pfn} (hp : OnPath s addr 2 p) (hpres : (s.shadow p (pt64Index addr 2)).hasBit 0 = true)
      (hshadow : s'.shadow = fun q i => if q = frameOf (s.shadow p (pt64Index addr 2)) then 0
        else (s.writePte ⟨p, pt64Index addr 2⟩ 0).shadow q i)
      (hmark : (s.shadow p (pt64Index addr 2)).hasBit 9 = true)

theorem OnPath.psMarked_iff {p : Pfn} (hp : OnPath s va 2 p) :
    PsMarked s va ↔ (s.shadow p (pt64Index va 2)).hasBit 9 = true := by
  constructor
  · rintro ⟨q, hq, hm⟩
    rwa [hp.page_unique hq]
  · exact fun hm => ⟨p, hp, hm⟩

theorem pagingInvalPage_effect {level : Nat} {p : Pfn} (h : MmuInv pool lvl r s) (hp : OnPath s addr level p)
    (hmark : level = 1 → ¬PsMarked s addr) : InvalEffect s addr (pagingInvalPage addr level s p) := by
  induction level using Nat.strong_induction_on generalizing p with
  | _ level ih =>
    match level, h.pos_of_onPath hp with
    | 1, _ => exact .entry hp (hmark rfl) rfl
    | level + 2, _ =>
      unfold pagingInvalPage
      simp only [Vcpu.readPte, isPresentPte_eq, and_ptShadowPsMark]
      cases hpres : (s.shadow p (pt64Index addr (level + 2))).hasBit 0 with
      | false =>
        rw [if_pos (by decide)]
        refine .missing rfl fun q hq => ?_
        obtain ⟨x, hx, h0⟩ := hq.above (level + 2) (by omega) hp.level_le
        obtain rfl := hp.page_unique hx
        have := h0 (by omega)
        rw [hpres] at this
        cases this
      | true =>
        rw [if_neg (by decide)]
        split
        · rename_i hps
          obtain rfl : level = 0 := by
            simp only [Bool.and_eq_true, decide_eq_true_eq] at hps
            omega
          refine .table hp hpres rfl ?_
          simpa using hps
        · rename_i hps
          refine ih (level + 1) (by omega) (.down hp hpres) fun h1 hm => hps ?_
          obtain rfl : level = 0 := by omega
          rw [hp.psMarked_iff.1 hm]
          rfl

theorem mmuInvalPage_effect (h : MmuInv pool lvl r s) (hops : s.mmu.ops ≠ .nonpaging) (addr : BitVec 64) :
    InvalEffect s addr (mmuInvalPage s addr) := by
  have hpage : InvalEffect s addr (pagingInvalPage addr s.mmu.shadowRootLevel s (rootPage s)) := by
    rw [h.rootPage_eq]
    refine pagingInvalPage_effect h (.root h.root) fun h1 => ?_
    have := h.levels.shadowRootLevel
    omega
  unfold mmuInvalPage
  cases hc : s.mmu.ops with
  | nonpaging => exact absurd hc hops
  | paging64 => exact hpage
  | paging32 => exact hpage

namespace InvalEffect

/-- Entries are cleared, and nothing else happens to them. -/
theorem cleared (h : InvalEffect s addr s') (p : Pfn) (i : Fin 512) : s'.shadow p i = s.shadow p i ∨ s'.shadow p i = 0 := by
  have hwrite : ∀ ptr : PtePtr, (s.writePte ptr 0).shadow p i = s.shadow p i ∨ (s.writePte ptr 0).shadow p i = 0 :=
    fun ptr => by
      rw [Vcpu.shadow_writePte]
      split
      · exact Or.inr rfl
      · exact Or.inl rfl
  cases h with
  | missing hshadow => exact Or.inl (by rw [hshadow])
  | entry hp hmark hshadow => exact hshadow ▸ hwrite _
  | table hp hpres hshadow =>
    rw [hshadow]
    dsimp only
    split
    · exact Or.inr rfl
    · exact hwrite _

theorem onPath (h : InvalEffect s addr s') (hmmu : s'.mmu = s.mmu) {l : Nat} {p : Pfn} : OnPath s' va l p → OnPath s va l p :=
  OnPath.mono (s := s') (by rw [hmmu]) (by rw [hmmu]) fun l x _ h0 => by
    rcases h.cleared x (pt64Index va (l + 2)) with heq | hz
    · rw [heq] at h0 ⊢
      exact ⟨h0, rfl⟩
    · rw [hz] at h0
      exact absurd h0 (by simp)

/-- The entries of an address go that has the indices of `addr` above level one, if the directory entry is marked or it
has the index of `addr` at level one also. -/
theorem removes (h : InvalEffect s addr s') (hmmu : s'.mmu = s.mmu)
    (hidx : ∀ k, 2 ≤ k → k ≤ s.mmu.shadowRootLevel → pt64Index va k = pt64Index addr k)
    (hone : PsMarked s addr ∨ pt64Index va 1 = pt64Index addr 1) : ¬HasEntry s' va := by
  rintro ⟨q, hq', he⟩
  have hpath : ∀ {l x}, OnPath s' va l x → OnPath s va l x := h.onPath hmmu
  have hq := hpath hq'
  have hqa : OnPath s addr 1 q := hq.of_index_eq fun k hk => hidx k (by omega)
  cases h with
  | missing hshadow hnot => exact hnot q hqa
  | @entry p hp hmark hshadow =>
    have h1 := hone.resolve_left hmark
    obtain rfl := hp.page_unique hqa
    rw [hshadow, h1, Vcpu.shadow_writePte, if_pos ⟨rfl, rfl⟩] at he
    simp at he
  | @table p hp hpres hshadow =>
    obtain ⟨x, hx, h0⟩ := hq'.above 2 (by decide) (hmmu ▸ hp.level_le)
    have hxa : OnPath s addr 2 x := (hpath hx).of_index_eq fun k hk => hidx k (by omega)
    obtain rfl := hp.page_unique hxa
    have := h0 (by decide)
    rw [hidx 2 le_rfl hp.level_le, hshadow] at this
    dsimp only at this
    split at this
    · simp at this
    · rw [Vcpu.shadow_writePte, if_pos ⟨rfl, rfl⟩] at this
      simp at this

/-- The entries of an address under another directory entry stay. -/
theorem keeps (h : InvalEffect s addr s') (hinv : MmuInv pool lvl r s) (hmmu : s'.mmu = s.mmu)
    (hne : pt64Index va 2 ≠ pt64Index addr 2) (hva : HasEntry s va) : HasEntry s' va := by
  obtain ⟨q, hq, he⟩ := hva
  have hlevel : 2 ≤ s.mmu.shadowRootLevel := by
    have := hinv.levels.shadowRootLevel
    omega
  -- what is written lies in another table of level one, or under the directory entry of `addr`
  have hother : ∀ {x : Pfn} {l : Nat}, OnPath s va l x → ¬OnPath s addr 1 x := fun {x l} hx hxa => by
    obtain rfl : l = 1 := (hinv.active_of_onPath hx).2.symm.trans (hinv.active_of_onPath hxa).2
    exact hne (hinv.unique hx hxa 2 (by decide) hlevel)
  have hsame : ∀ {x : Pfn} {l : Nat}, OnPath s va l x → s'.shadow x (pt64Index va l) = s.shadow x (pt64Index va l) :=
    fun {x l} hx => by
      cases h with
      | missing hshadow => rw [hshadow]
      | @entry p hp hmark hshadow =>
        rw [hshadow, Vcpu.shadow_writePte_of_page_ne]
        rintro rfl
        exact hother hx hp
      | @table p hp hpres hshadow =>
        rw [hshadow]
        dsimp only
        have htable : OnPath s addr 1 (frameOf (s.shadow p (pt64Index addr 2))) := .down hp hpres
        rw [if_neg (by rintro rfl; exact hother hx htable), Vcpu.shadow_writePte_of_ne]
        intro heq
        obtain ⟨rfl, hidx⟩ := Prod.mk.inj heq
        obtain rfl : l = 2 := (hinv.active_of_onPath hx).2.symm.trans (hinv.active_of_onPath hp).2
        exact hne hidx
  refine ⟨q, OnPath.mono (s := s) (by rw [hmmu]) (by rw [hmmu]) (fun l x hx h0 => ?_) hq, ?_⟩
  · rw [hsame hx]
    exact ⟨h0, rfl⟩
  · rwa [hsame hq]

end InvalEffect

theorem mmuInvalPage_mem (h : MmuInv pool lvl r s) (addr : BitVec 64) : (mmuInvalPage s addr).mem = s.mem := by
  obtain ⟨s1, v, hrel, -, heq⟩ := h.released_invalPage addr
  rw [heq, hrel.frame]

theorem mmuInvalPage_mmu (h : MmuInv pool lvl r s) (addr : BitVec 64) : (mmuInvalPage s addr).mmu = s.mmu := by
  obtain ⟨s1, v, hrel, -, heq⟩ := h.released_invalPage addr
  rw [heq, hrel.frame]

/-! ### The page of the address -/

/-- No entry is left for the guest page that contained the address, and entries are only cleared. -/
structure PageRemoved (s : Vcpu) (sizes : PageSizes) (addr : BitVec 64) : Prop where
  removed : ∀ va, HasEntry (mmuInvalPage s addr) va → ¬(sizes va).Covers va addr
  cleared : ∀ p i, (mmuInvalPage s addr).shadow p i = s.shadow p i ∨ (mmuInvalPage s addr).shadow p i = 0

/-- The entries of a 4M page of the address lie in the half of the page in which the address is. -/
def OtherHalfEmpty (s : Vcpu) (sizes : PageSizes) (addr : BitVec 64) : Prop :=
  ∀ va, HasEntry s va → sizes va = .m4 → GuestPageSize.m4.Covers va addr → GuestPageSize.m2.Covers va addr

/-- Addresses in one page have the same indices at the levels above its offset. -/
theorem GuestPageSize.Covers.index_eq {size : GuestPageSize} {a b : BitVec 64} (h : size.Covers a b) {k : Nat}
    (hk : size.shift ≤ pt64LevelShift k) : pt64Index a k = pt64Index b k :=
  pt64Index_eq_iff.2 fun i hi _ => covers_iff.1 h i (hk.trans hi)

/-- **INVLPG.**  In every state of a run in a paging mode, the guest page of an address is removed exactly if no entry of a
4M page is in the half of it in which the address is not. -/
theorem pageRemoved_iff (h : RecordedReachable s sizes) (hops : s.mmu.ops ≠ .nonpaging) (addr : BitVec 64) :
    PageRemoved s sizes addr ↔ OtherHalfEmpty s sizes addr := by
  obtain ⟨pool, lvl, r, hinv, hmarked⟩ := h.inv
  have heffect := mmuInvalPage_effect hinv hops addr
  have hmmu := mmuInvalPage_mmu hinv addr
  constructor
  · intro hr va hva hsize hcov
    by_contra hhalf
    have hne : pt64Index va 2 ≠ pt64Index addr 2 := by
      intro heq
      refine hhalf (covers_iff.2 fun i (hi : 21 ≤ i) => ?_)
      rcases Nat.eq_or_lt_of_le hi with rfl | hlt
      · exact pt64Index_eq_iff.1 heq 21 (by decide) (by decide)
      · exact covers_iff.1 hcov i hlt
    exact hr.removed va (heffect.keeps hinv hmmu hne hva) (hsize ▸ hcov)
  · intro hhalf
    refine ⟨fun va hva hcov => ?_, heffect.cleared⟩
    have hs := (KeepsEntries.invalPage hinv addr va hva).1
    have hlarge : sizes va ≠ .k4 → GuestPageSize.m2.Covers va addr → False := fun hsize hm2 => by
      have hidx : ∀ k, 2 ≤ k → pt64Index va k = pt64Index addr k := fun k hk =>
        hm2.index_eq (show 21 ≤ 12 + (k - 1) * 9 by omega)
      have hmark := (hmarked va hs hsize).2.1.congr fun k hk _ => hidx k hk
      exact heffect.removes hmmu (fun k hk _ => hidx k hk) (Or.inl hmark) hva
    cases hsize : sizes va with
    | k4 =>
      rw [hsize] at hcov
      have hidx : ∀ k, pt64Index va k = pt64Index addr k := fun k =>
        hcov.index_eq (show 12 ≤ 12 + (k - 1) * 9 by omega)
      exact heffect.removes hmmu (fun k _ _ => hidx k) (Or.inr (hidx 1)) hva
    | m2 => exact hlarge (by rw [hsize]; decide) (hsize ▸ hcov)
    | m4 => exact hlarge (by rw [hsize]; decide) (hhalf va hs hsize (hsize ▸ hcov))

/-- There are no pages of 4M in the formats with entries of 64 bits. -/
theorem otherHalfEmpty_paging64 (h : RecordedReachable s sizes) (hops : s.mmu.ops = .paging64) (addr : BitVec 64) :
    OtherHalfEmpty s sizes addr := by
  obtain ⟨pool, lvl, r, hinv, hmarked⟩ := h.inv
  intro va hva hsize
  have := (hmarked va hva (by rw [hsize]; decide)).2.2 hsize
  rw [hops] at this
  cases this

theorem guestPageSize_congr (hops : s'.mmu.ops = s.mmu.ops)
    (hlevel : guestLevel s.mmu.ops.ptType s' va = guestLevel s.mmu.ops.ptType s va) :
    guestPageSize s' va = guestPageSize s va := by
  unfold guestPageSize
  rw [hops]
  cases hc : s.mmu.ops with
  | nonpaging => rfl
  | paging64 =>
    rw [hc] at hlevel
    exact hlevel ▸ rfl
  | paging32 =>
    rw [hc] at hlevel
    exact hlevel ▸ rfl

/-- The first fault of a vcpu, at an address that the guest maps, and the record of it. -/
theorem RecordedReachable.firstFault {s₀ : Vcpu} (hfree : s₀.freePages = []) (hactive : s₀.kvm.activeMmuPages = [])
    (hfailed : s₀.failed = []) (hpaging : isPaging s₀.vmcs = true)
    (hg : (guestPte (contextFor s₀.vmcs none).ops.ptType { s₀ with mmu := contextFor s₀.vmcs none } va 1).hasBit 0 = true)
    (hf : (gpaFrame s₀.kvm
      (guestGaddr (contextFor s₀.vmcs none).ops.ptType { s₀ with mmu := contextFor s₀.vmcs none } va)).isSome = true) :
    ∃ s sizes, RecordedReachable s sizes ∧ s.mmu.ops = (contextFor s₀.vmcs none).ops ∧ HasEntry s va ∧
      sizes va = guestPageSize { s₀ with mmu := contextFor s₀.vmcs none } va := by
  obtain ⟨hstart, hops, -, hsame⟩ :=
    Started.init s₀ hfree hactive hfailed hpaging somePages_injective fun _ => rfl
  have hinit := @kvmMmuInit_of_alloc somePages (fun _ => rfl) s₀
  generalize (kvmMmuInit somePages s₀).1 = s1 at *
  have hsame1 := hsame (contextFor s₀.vmcs none).ops.ptType
  obtain ⟨pool, hlen, hinv⟩ := hstart.inv
  obtain ⟨pool', lvl', r', hinv1, hlen'⟩ := hstart.reachable.inv
  obtain ⟨lvl1, q, hreset, hnew, -⟩ := kvmMmuResetContext_spec hinv1 (List.ne_nil_of_length_pos (by omega))
  have hempty : ∀ va, ¬HasEntry (kvmMmuResetContext s1) va := fun va => hnew.not_hasEntry hreset
  have hg1 := (hsame1.guestPte_le va 1).le 0 hg
  have hroot := hsame1.rootLevel ▸ hinv.isFor.one_le_rootLevel
  obtain ⟨out, hout⟩ := Option.isSome_iff_exists.1 (mmuPageFault_isSome hreset (by omega) va 0 0)
  obtain ⟨-, hops', hguest, p, hp, he⟩ := hstart.maps_of_pageFault (by rw [hops]; exact hg1) (by
    rw [hops, hsame1.sameWalks.guestGaddr_eq hroot, hsame1.sameWalks.gpaFrame_eq]
    exact hf) hout
  have hfirst : RecordedCall (s1, fun _ => .k4) (kvmMmuResetContext s1, fun _ => .k4) :=
    ⟨.resetContext s1, fun va _ hva => absurd hva (hempty va), fun va _ hva => absurd hva (hempty va)⟩
  have hsecond : RecordedCall (kvmMmuResetContext s1, fun _ => .k4) (out.1, guestPageSize out.1) :=
    ⟨.pageFault (fun hno => absurd hno hinv.ops) hout, fun va hva => absurd hva (hempty va), fun _ _ _ => rfl⟩
  refine ⟨out.1, guestPageSize out.1, ⟨somePages, s₀, s1, fun _ => .k4, somePages_injective, hfree, hactive, hfailed, hinit,
    (ReflTransGen.single hfirst).tail hsecond⟩, hops'.trans hops, ⟨p, hp, Or.inl he⟩, ?_⟩
  refine guestPageSize_congr (s := { s₀ with mmu := contextFor s₀.vmcs none }) (hops'.trans hops) ?_
  rw [hops] at hguest
  exact (hguest.guestLevel_eq va).trans (hsame1.guestLevel_eq va)

/-- 32-bit paging with pages of 4M. -/
def vmcsPse : Vmcs := Function.update vmcs32 .cr4ReadShadow cr4PseMask

/-- The guest maps its first 4M by one page and has touched the first half of it.  The entry stays when it asks for the
removal of an address in the second half. -/
theorem invlpg_half_page : ¬∀ s sizes, RecordedReachable s sizes → s.mmu.ops ≠ .nonpaging → ∀ addr, PageRemoved s sizes addr := by
  intro hall
  obtain ⟨s, sizes, hs, hops, hva, hsize⟩ := @RecordedReachable.firstFault 0 (smallVcpu vmcsPse 0 fun _ => 0xE7000000E7)
    rfl rfl rfl (by decide) (by decide) (by decide)
  rw [show (contextFor (smallVcpu vmcsPse 0 fun _ => 0xE7000000E7).vmcs none).ops = .paging32 by decide] at hops
  have hpaging : s.mmu.ops ≠ .nonpaging := by
    rw [hops]
    decide
  obtain ⟨pool, lvl, r, hinv, -⟩ := hs.inv
  have hstays := (mmuInvalPage_effect hinv hpaging 0x200000).keeps hinv (mmuInvalPage_mmu hinv _) (by decide) hva
  refine (hall s sizes hs hpaging 0x200000).removed 0 hstays ?_
  rw [hsize]
  decide

set_option maxRecDepth 1024 in
/-- In long mode the whole page goes. -/
theorem pageRemoved_longMode : ∃ s sizes, RecordedReachable s sizes ∧ HasEntry s 0 ∧ sizes 0 = .m2 ∧
    PageRemoved s sizes 0x1ff000 := by
  obtain ⟨s, sizes, hs, hops, hva, hsize⟩ := @RecordedReachable.firstFault 0 (smallVcpu vmcs64 0 fun _ => 0xE7)
    rfl rfl rfl (by decide) (by decide) (by decide)
  rw [show (contextFor (smallVcpu vmcs64 0 fun _ => 0xE7).vmcs none).ops = .paging64 by decide] at hops
  refine ⟨s, sizes, hs, hva, hsize.trans (by decide), (pageRemoved_iff hs ?_ _).2 (otherHalfEmpty_paging64 hs hops _)⟩
  rw [hops]
  decide

end LearnKvm
