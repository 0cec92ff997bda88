import LearnKvm.Mmu.ContextKept
import LearnKvm.Mmu.Leaves

/-!
# Global shadow pages

A shadow page is allocated with the flag `global`, and loses it when an entry without the G bit is installed in it.  On a
load of CR3 `kvm_mmu_flush_tlb` walks the active pages, and releases those without the flag as pages of level one; no
header says what level its page has.  `GlobalFlags` is what the flag means in every state of a paging mode: a page
without it is a page of level one that one entry points to, a page of level one with it has global entries only.  So the
walk takes away the entries without the G bit and nothing else (`FlushesNonglobal`).
-/

namespace LearnKvm

open Relation

variable {pool : List Pfn} {lvl : Pfn → Nat} {r : Pfn} {s s' : Vcpu} {pt : PtType} {va : BitVec 64} {p q : Pfn}

/-- The page is of level one, and its header names the one entry of an upper page that points to it. -/
structure LinkedLeafTable (s : Vcpu) (p : Pfn) : Prop where
  level : ∀ l, Reaches s l p ↔ l = 1
  parent : ∃ ptr, (s.header p).parentPte = some ptr ∧ ∀ q i,
    (∃ l, Reaches s (l + 2) q ∧ isPresentPte (s.shadow q i) = true ∧ frameOf (s.shadow q i) = p) ↔ ⟨q, i⟩ = ptr

/-- What the flag `global` of the active pages means. -/
structure GlobalFlags (s : Vcpu) : Prop where
  global : ∀ p ∈ s.kvm.activeMmuPages, (s.header p).global = true → (∃ l, Reaches s (l + 2) p) ∨
    Reaches s 1 p ∧ ∀ i, s.shadow p i ≠ 0 → s.shadow p i &&& ptGlobalMask ≠ 0
  nonglobal : ∀ p ∈ s.kvm.activeMmuPages, (s.header p).global = false → LinkedLeafTable s p

/-- What `kvm_mmu_flush_tlb` does. -/
structure FlushesNonglobal (s : Vcpu) : Prop where
  /-- An address with an entry of level one without the G bit has no entry any more. -/
  unlinks : ∀ va p, OnPath s va 1 p → s.shadow p (pt64Index va 1) ≠ 0 → s.shadow p (pt64Index va 1) &&& ptGlobalMask = 0 →
    ¬∃ q, OnPath (kvmMmuFlushTlb s) va 1 q
  /-- The entries of a page of level one with the flag stay, and stay where they are. -/
  keeps : ∀ va p, OnPath s va 1 p → (s.header p).global = true →
    OnPath (kvmMmuFlushTlb s) va 1 p ∧ ∀ i, (kvmMmuFlushTlb s).shadow p i = s.shadow p i
  /-- A page of an upper level stays active. -/
  upper : ∀ p l, Reaches s (l + 2) p → p ∈ (kvmMmuFlushTlb s).kvm.activeMmuPages
  /-- The page that a round releases is of level one when the round begins. -/
  rounds : ∀ ps p rest, s.kvm.activeMmuPages = ps ++ p :: rest → (s.header p).global = false →
    LinkedLeafTable (ps.foldl flushTlbRound s) p
  /-- The page of the next round is not taken off the list. -/
  next : ∀ ps p q rest, s.kvm.activeMmuPages = ps ++ p :: q :: rest →
    q ∈ (flushTlbRound (ps.foldl flushTlbRound s) p).kvm.activeMmuPages

theorem MmuInv.linkedLeafTable (h : MmuInv pool lvl r s) (hp : p ∈ s.kvm.activeMmuPages)
    (hg : (s.header p).global = false) : LinkedLeafTable s p := by
  obtain ⟨q, i, hq, hlevq, hlevp, hpres, rfl, hparent⟩ := h.nonglobal_parent hp hg
  refine ⟨fun l => ⟨fun hl => ?_, ?_⟩, ⟨q, i⟩, hparent, fun q' j => ⟨?_, ?_⟩⟩
  · rw [← hlevp, (h.active_of_reaches hl).2]
  · rintro rfl
    exact hlevp ▸ h.reaches hp
  · rintro ⟨l, hreach, hpres', hframe⟩
    obtain ⟨hact, hlev⟩ := h.active_of_reaches hreach
    have hc := @Tables.child_eq lvl s q' j (by omega) ((isPresentPte_eq _).symm.trans hpres')
    have hback := h.tables.parentPte_eq hact hc
    rw [hframe, hparent] at hback
    exact (Option.some.inj hback).symm
  · rintro heq
    obtain ⟨rfl, rfl⟩ := PtePtr.mk.inj heq
    have hreach := h.reaches hq
    rw [hlevq] at hreach
    exact ⟨0, hreach, (isPresentPte_eq _).trans hpres, rfl⟩

/-! ### The entries of global pages -/

/-- The entries of level one in pages with the flag have the G bit. -/
def GlobalEntries (s : Vcpu) : Prop := FilledEntries (fun hd e => hd.global = true → e.hasBit 8 = true) s

theorem FaultStep.globalEntries (h : MmuInv pool lvl r s) (hpool : pool ≠ []) (hs : GlobalEntries s)
    (hstep : FaultStep pt va s s') : GlobalEntries s' := by
  refine FilledEntries.faultStep hs h hpool hstep (fun _ _ _ hle he hg => he (hle.global hg)) (fun p heq hpres hg => ?_)
    (fun p _ _ _ he hg => ?_) fun _ e he hg => ?_
  · -- the flag survives only if the entry has the G bit
    have hheader : (s'.header p).global = ((s.header p).global &&
        (leafBase pt (guestLevel pt s va) (guestPte pt s va 1)).hasBit 8) := by
      rw [heq]
      exact congrArg KvmMmuPage.global (if_pos rfl)
    rw [hheader] at hg
    unfold leafPte
    rw [(leafArgs s va hpres).hasBit_commonPte _ (by decide)]
    exact (Bool.and_eq_true_iff.1 hg).2
  · rw [hasBit_dirtyPte]
    exact he hg
  · simpa using he hg

/-- What holds between two calls. -/
theorem MmuCall.globalEntries (h : MmuInv pool lvl r s) (hpool : pool ≠ []) (hcall : MmuCall s s')
    (hs : s.mmu.ops ≠ .nonpaging → GlobalEntries s) : s'.mmu.ops ≠ .nonpaging → GlobalEntries s' := by
  intro hops
  cases hcall with
  | @pageFault addr errorCode fuel out haddr hout =>
    have hctx := ContextKept.mmuPageFault h hpool hout
    have hops : s.mmu.ops ≠ .nonpaging := by
      rw [hctx.mmu] at hops
      exact hops
    exact (FaultStep.run hpool (fun h' hs' hstep => hstep.globalEntries h' hpool hs') h (hs hops)
      (h.faultSteps hpool hops hout)).2
  | invalPage addr =>
    have hctx := ContextKept.mmuInvalPage s addr
    rw [hctx.mmu] at hops
    obtain ⟨s1, v, hrel, -, heq⟩ := h.released_invalPage addr
    rw [heq]
    exact (FilledEntries.of_released (hs hops) hrel).of_same rfl rfl rfl
  | newCr3 =>
    have hctx := ContextKept.mmuNewCr3 s
    rw [hctx.mmu] at hops
    exact FilledEntries.of_released (hs hops) h.released_newCr3.2
  | resetContext =>
    obtain ⟨lvl', q, h1, h2, -⟩ := kvmMmuResetContext_spec h hpool
    exact .of_newRoot h1 h2
  | slotRemoveWriteAccess slot =>
    rw [mmu_slotRemoveWriteAccess] at hops
    exact (hs hops).slotRemoveWriteAccess h slot (fun _ _ _ he => he) fun _ e he hg => by simpa using he hg
  | other hsame =>
    rw [hsame.mmu] at hops
    exact FilledEntries.of_same (hs hops) hsame.mmu hsame.shadow hsame.header

/-- The invariant of a run. -/
theorem MmuReachable.globalEntries (h : MmuReachable s) : ∃ pool lvl r, MmuInv pool lvl r s ∧
    (s.mmu.ops ≠ .nonpaging → GlobalEntries s) := by
  obtain ⟨alloc, s₀, s₁, hdistinct, hfree, hactive, hfailed, hinit, hrun⟩ := h
  obtain ⟨hlen, lvl, q, h, hnew, -⟩ := kvmMmuInit_spec hdistinct hfree hactive hfailed hinit
  have hpool : mmuPool alloc ≠ [] := List.ne_nil_of_length_pos (by omega)
  refine ⟨mmuPool alloc, ?_⟩
  induction hrun with
  | refl => exact ⟨lvl, q, h, fun _ => .of_newRoot h hnew⟩
  | tail _ hcall ih =>
    obtain ⟨lvl', r', h', hs⟩ := ih
    obtain ⟨lvl'', r'', h''⟩ := hcall.inv h' hpool
    exact ⟨lvl'', r'', h'', hcall.globalEntries h' hpool hs⟩

theorem MmuInv.globalFlags (h : MmuInv pool lvl r s) (hs : GlobalEntries s) : GlobalFlags s where
  global p hp hg := by
    have hreach := h.reaches hp
    have hpos := h.tables.level_pos p hp
    rcases Nat.eq_or_lt_of_le hpos with hlev | hlev
    · rw [← hlev] at hreach
      obtain ⟨va, hva⟩ := h.onPath_of_reaches hreach
      refine Or.inr ⟨hreach, fun i he => ?_⟩
      have := hs va p hva i he hg
      rwa [← and_ptGlobalMask, bne_iff_ne] at this
    · exact Or.inl ⟨lvl p - 2, by rwa [show lvl p - 2 + 2 = lvl p by omega]⟩
  nonglobal p hp hg := h.linkedLeafTable hp hg

/-! ### The walk -/

/-- A round leaves the paths to global pages of level one, and the entries of these pages. -/
theorem MmuInv.flushTlbRound_keeps (h : MmuInv pool lvl r s) (hp : p ∈ s.kvm.activeMmuPages) (hq : OnPath s va 1 q)
    (hg : (s.header q).global = true) :
    OnPath (flushTlbRound s p) va 1 q ∧ ∀ i, (flushTlbRound s p).shadow q i = s.shadow q i := by
  unfold flushTlbRound
  cases hgp : (s.header p).global with
  | true => exact ⟨hq, fun _ => rfl⟩
  | false =>
    obtain ⟨x, j, hx, hlevx, hlevp, hpres, rfl, hparent⟩ := h.nonglobal_parent hp hgp
    rw [hparent, if_neg Bool.false_ne_true]
    dsimp only
    have hshadow : ∀ y i, y ≠ frameOf (s.shadow x j) → (y, i) ≠ (x, j) →
        (releasePtPage64 1 (s.writePte ⟨x, j⟩ 0) (frameOf (s.shadow x j))).shadow y i = s.shadow y i := fun y i hy hne =>
      (if_neg hy).trans (Vcpu.shadow_writePte_of_ne hne)
    have hlevq := (h.active_of_onPath hq).2
    have hqp : q ≠ frameOf (s.shadow x j) := by
      rintro rfl
      rw [hgp] at hg
      cases hg
    refine ⟨OnPath.mono (s := s) rfl rfl (fun l y hy hpres' => ?_) hq, fun i => hshadow q i hqp ?_⟩
    · have hlevy := (h.active_of_onPath hy).2
      rw [hshadow y _ (by rintro rfl; omega) ?_]
      · exact ⟨hpres', rfl⟩
      · -- the entry above the page is not on the path
        intro heq
        obtain ⟨rfl, rfl⟩ := Prod.mk.inj heq
        obtain rfl : l = 0 := by omega
        exact hqp ((OnPath.down hy hpres).page_unique hq).symm
    · intro heq
      obtain ⟨rfl, -⟩ := Prod.mk.inj heq
      omega

theorem MmuInv.flushTlbRounds_keeps {ps : List Pfn} (h : MmuInv pool lvl r s) (hnd : ps.Nodup)
    (hps : ∀ p ∈ ps, p ∈ s.kvm.activeMmuPages) (hq : OnPath s va 1 q) (hg : (s.header q).global = true) :
    OnPath (ps.foldl flushTlbRound s) va 1 q ∧
      ∀ i, (ps.foldl flushTlbRound s).shadow q i = s.shadow q i := by
  induction ps generalizing s with
  | nil => exact ⟨hq, fun _ => rfl⟩
  | cons p ps ih =>
    rw [List.foldl_cons]
    obtain ⟨hp, hnd⟩ := List.nodup_cons.1 hnd
    obtain ⟨h1, h2, h3⟩ := h.flushTlbRound_spec (hps p List.mem_cons_self)
    obtain ⟨hpath, hentries⟩ := h.flushTlbRound_keeps (hps p List.mem_cons_self) hq hg
    obtain ⟨h4, h5⟩ := ih h1 hnd
      (fun x hx => (h3 x (hps x (List.mem_cons_of_mem _ hx))).2 (Or.inr (by rintro rfl; exact hp hx))) hpath
      (by rw [h2.frame]; exact hg)
    exact ⟨h4, fun i => (h5 i).trans (hentries i)⟩

theorem MmuInv.flushesNonglobal (h : MmuInv pool lvl r s) (hs : GlobalEntries s) : FlushesNonglobal s where
  unlinks va p hp hne hbit := by
    rintro ⟨q, hq⟩
    obtain ⟨h1, h2, h3⟩ := kvmMmuFlushTlb_spec h
    -- what is left is the page of the entry, which is then global
    obtain rfl := (OnPath.of_released h2 hq).page_unique hp
    have hg := hs va q hp _ hne (h3 q (h1.active_of_onPath hq).1)
    rw [← and_ptGlobalMask, hbit] at hg
    cases hg
  keeps va p hp hg := h.flushTlbRounds_keeps h.tables.active_nodup (fun _ hp => hp) hp hg
  upper p l hp := by
    obtain ⟨hact, hlev⟩ := h.active_of_reaches hp
    refine ((h.flushTlbRounds_spec h.tables.active_nodup fun _ hp => hp).2.2 p hact).2 (Or.inl ?_)
    by_contra hno
    have := h.tables.nonglobal p hact (by simpa using hno)
    omega
  rounds ps p rest hlist hg := by
    have hnd := hlist ▸ h.tables.active_nodup
    have hmem : ∀ q ∈ ps ++ p :: rest, q ∈ s.kvm.activeMmuPages := fun q hq => hlist ▸ hq
    obtain ⟨h1, h2, h3⟩ := h.flushTlbRounds_spec (List.Nodup.of_append_left hnd) fun q hq =>
      hmem q (List.mem_append_left _ hq)
    have hp : p ∉ ps := fun hp => (List.nodup_append.1 hnd).2.2 p hp p List.mem_cons_self rfl
    refine h1.linkedLeafTable ((h3 p (hmem p (by simp))).2 (Or.inr hp)) ?_
    rw [h2.frame]
    exact hg
  next ps p q rest hlist := by
    have hsplit : s.kvm.activeMmuPages = (ps ++ [p]) ++ q :: rest := by rw [hlist]; simp
    have hnd := hsplit ▸ h.tables.active_nodup
    have hmem : ∀ x ∈ (ps ++ [p]) ++ q :: rest, x ∈ s.kvm.activeMmuPages := fun x hx => hsplit ▸ hx
    obtain ⟨-, -, h3⟩ := h.flushTlbRounds_spec (List.Nodup.of_append_left hnd) fun x hx =>
      hmem x (List.mem_append_left _ hx)
    have hq : q ∉ ps ++ [p] := fun hq => (List.nodup_append.1 hnd).2.2 q hq q List.mem_cons_self rfl
    have := (h3 q (hmem q (by simp))).2 (Or.inr hq)
    rwa [List.foldl_append] at this

/-- **Global pages.**  In every state of a paging mode the flag `global` tells the pages that `kvm_mmu_flush_tlb` is to
release, and it releases these. -/
theorem global_flags (h : MmuReachable s) (hops : s.mmu.ops ≠ .nonpaging) : GlobalFlags s ∧ FlushesNonglobal s := by
  obtain ⟨pool, lvl, r, hinv, hs⟩ := h.globalEntries
  exact ⟨hinv.globalFlags (hs hops), hinv.flushesNonglobal (hs hops)⟩

/-- A fault at address 0 in a guest all of whose entries are present, global and point to page 0. -/
theorem global_flags_fault : ∃ s p, OnPath s 0 1 p ∧ (s.shadow p (pt64Index 0 1)).hasBit 0 = true ∧
    s.mmu.ops = .paging32 ∧ GlobalFlags s ∧ FlushesNonglobal s := by
  obtain ⟨hstart, hops, -, hsame⟩ := Started.init (smallVcpu vmcs32 0 fun _ => 0x16700000167) rfl rfl rfl
    (by decide) somePages_injective fun _ => rfl
  have hreach : MmuReachable (kvmMmuResetContext (kvmMmuInit somePages (smallVcpu vmcs32 0 fun _ => 0x16700000167)).1) :=
    ⟨somePages, _, _, somePages_injective, rfl, rfl, rfl, kvmMmuInit_of_alloc (fun _ => rfl) _, .single (.resetContext _)⟩
  generalize kvmMmuResetContext _ = s at hstart hops hsame hreach
  rw [show (contextFor (smallVcpu vmcs32 0 fun _ => 0x16700000167).vmcs none).ops = .paging32 by decide] at hops
  have hg : (guestPte .pt32 s 0 1).hasBit 0 = true := ((hsame .pt32).guestPte_le 0 1).le 0 (by decide)
  have hf : (gpaFrame s.kvm (guestGaddr .pt32 s 0)).isSome = true := by
    rw [(hsame .pt32).sameWalks.guestGaddr_eq (by decide), (hsame .pt32).sameWalks.gpaFrame_eq]
    decide
  obtain ⟨pool, lvl, r, hinv, hlen⟩ := hreach.inv
  obtain ⟨out, hout⟩ := Option.isSome_iff_exists.1 (mmuPageFault_isSome hinv (by omega) 0 0 0)
  obtain ⟨-, hops', -, p, hp, he⟩ := hstart.maps_of_pageFault (by rw [hops]; exact hg) (by rw [hops]; exact hf) hout
  have hreach' : MmuReachable out.1 := by
    obtain ⟨alloc, s₀, s₁, h1, h2, h3, h4, h5, hrun⟩ := hreach
    exact ⟨alloc, s₀, s₁, h1, h2, h3, h4, h5, hrun.tail (.pageFault (by rw [hops]; exact fun h => nomatch h) hout)⟩
  have hpaging : out.1.mmu.ops = .paging32 := hops'.trans hops
  obtain ⟨h1, h2⟩ := global_flags hreach' (by rw [hpaging]; decide)
  exact ⟨out.1, p, hp, he, hpaging, h1, h2⟩

end LearnKvm
