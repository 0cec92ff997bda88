import LearnKvm.Mmu.ContextKept
import LearnKvm.Mmu.Leaves

/-!
# The guest pages of shadow entries

A guest page of 2M or 4M is shadowed by many entries of level one, which are installed one by one as the guest touches
the page.  The shadow tables do not say which guest page an entry belongs to: `fetch` only marks the directory entry
above it.  `PageSizes` is a record on the side of the run, of the size that the guest page of an address had when the
entry for the address appeared; `LargeMarked` says that wherever it is a large page, the directory entry has the mark.
-/

namespace LearnKvm

open Relation

variable {pool : List Pfn} {lvl : Pfn → Nat} {r : Pfn} {s s' s'' : Vcpu} {pt : PtType} {va va' : BitVec 64}

inductive GuestPageSize where
  | k4 | m2 | m4
  deriving DecidableEq

/-- The number of bits of an offset in the page. -/
def GuestPageSize.shift : GuestPageSize → Nat
  | k4 => 12
  | m2 => 21
  | m4 => 22

/-- The addresses lie in one page of this size. -/
def GuestPageSize.Covers (size : GuestPageSize) (a b : BitVec 64) : Prop := a >>> size.shift = b >>> size.shift

instance (size : GuestPageSize) (a b : BitVec 64) : Decidable (size.Covers a b) :=
  inferInstanceAs (Decidable (a >>> size.shift = b >>> size.shift))

/-- The size of the page that the guest tables map at an address. -/
def guestPageSize (s : Vcpu) (va : BitVec 64) : GuestPageSize :=
  match s.mmu.ops with
  | .nonpaging => .k4
  | .paging64 => if guestLevel .pt64 s va = 2 then .m2 else .k4
  | .paging32 => if guestLevel .pt32 s va = 2 then .m4 else .k4

/-- The shadow tables have an entry of level one for the address, present or marked for emulation. -/
def HasEntry (s : Vcpu) (va : BitVec 64) : Prop :=
  ∃ p, OnPath s va 1 p ∧ ((s.shadow p (pt64Index va 1)).hasBit 0 = true ∨ (s.shadow p (pt64Index va 1)).hasBit 9 = true)

/-! ### Addresses that share entries -/

theorem covers_iff {size : GuestPageSize} {a b : BitVec 64} :
    size.Covers a b ↔ ∀ i, size.shift ≤ i → a.hasBit i = b.hasBit i := by
  unfold GuestPageSize.Covers
  constructor
  · intro h i hi
    have hbit := congrArg (BitVec.hasBit · (i - size.shift)) h
    simpa [show size.shift + (i - size.shift) = i by omega] using hbit
  · intro h
    apply BitVec.eq_of_hasBit
    intro i _
    rw [BitVec.hasBit_ushiftRight, BitVec.hasBit_ushiftRight]
    exact h _ (Nat.le_add_right _ _)

theorem HasEntry.congr (h : HasEntry s va)
    (hidx : ∀ k, 1 ≤ k → k ≤ s.mmu.shadowRootLevel → pt64Index va k = pt64Index va' k) : HasEntry s va' := by
  obtain ⟨p, hp, he⟩ := h
  rw [hidx 1 le_rfl hp.level_le] at he
  exact ⟨p, hp.of_index_eq fun k hk => hidx k (by omega), he⟩

theorem PsMarked.congr (h : PsMarked s va)
    (hidx : ∀ k, 2 ≤ k → k ≤ s.mmu.shadowRootLevel → pt64Index va k = pt64Index va' k) : PsMarked s va' := by
  obtain ⟨p, hp, he⟩ := h
  rw [hidx 2 le_rfl hp.level_le] at he
  exact ⟨p, hp.of_index_eq fun k hk => hidx k (by omega), he⟩

/-- A tree with an empty root has no entries. -/
theorem NewRoot.not_hasEntry {q : Pfn} (hnew : NewRoot pool q s s') (h : MmuInv pool lvl r s') : ¬HasEntry s' va := by
  rintro ⟨p, hp, -⟩
  have := (hnew.onPath hp).1
  have := h.levels.shadowRootLevel
  omega

/-! ### Steps that keep entries -/

/-- No entry appears, and the directory entries of those that stay keep their marks. -/
def KeepsEntries (s s' : Vcpu) : Prop := ∀ va, HasEntry s' va → HasEntry s va ∧ (PsMarked s va → PsMarked s' va)

/-- The two entries are present or marked alike, and have the same frame. -/
structure SameLink (e e' : BitVec 64) : Prop where
  present : e'.hasBit 0 = e.hasBit 0
  marked : e'.hasBit 9 = e.hasBit 9
  frame : frameOf e' = frameOf e

theorem SameLink.refl (e : BitVec 64) : SameLink e e := ⟨rfl, rfl, rfl⟩

namespace KeepsEntries

theorem refl (s : Vcpu) : KeepsEntries s s := fun _ h => ⟨h, id⟩

theorem trans (h : KeepsEntries s s') (h' : KeepsEntries s' s'') : KeepsEntries s s'' := fun va hva =>
  ⟨(h va (h' va hva).1).1, fun hm => (h' va hva).2 ((h va (h' va hva).1).2 hm)⟩

/-- Entries are emptied, or they change in other bits. -/
theorem of_entries (hr : s'.mmu.rootHpa = s.mmu.rootHpa) (hl : s'.mmu.shadowRootLevel = s.mmu.shadowRootLevel)
    (he : ∀ p i, s'.shadow p i = 0 ∨ SameLink (s.shadow p i) (s'.shadow p i)) : KeepsEntries s s' := by
  have hpres : ∀ p i, (s'.shadow p i).hasBit 0 = true →
      (s.shadow p i).hasBit 0 = true ∧ frameOf (s.shadow p i) = frameOf (s'.shadow p i) := fun p i h0 => by
    rcases he p i with hz | hlink
    · rw [hz] at h0
      exact absurd h0 (by simp)
    · exact ⟨hlink.present ▸ h0, hlink.frame.symm⟩
  have hpath : ∀ {va l p}, OnPath s' va l p → OnPath s va l p :=
    OnPath.mono (s := s') hr.symm hl.symm fun l p _ h0 => hpres p _ h0
  rintro va ⟨p, hp, hentry⟩
  refine ⟨⟨p, hpath hp, ?_⟩, ?_⟩
  · rcases he p (pt64Index va 1) with hz | hlink
    · rw [hz] at hentry
      exact absurd hentry (by simp)
    · rwa [hlink.present, hlink.marked] at hentry
  · rintro ⟨q, hq, hmark⟩
    obtain ⟨x, hx, h0⟩ := hp.above 2 (by decide) (hl ▸ hq.level_le)
    obtain rfl := (hpath hx).page_unique hq
    refine ⟨x, hx, ?_⟩
    rcases he x (pt64Index va 2) with hz | hlink
    · have := h0 (by decide)
      rw [hz] at this
      exact absurd this (by simp)
    · rw [hlink.marked, hmark]

theorem of_shadow (hmmu : s'.mmu = s.mmu) (hshadow : s'.shadow = s.shadow) : KeepsEntries s s' :=
  .of_entries (by rw [hmmu]) (by rw [hmmu]) fun p i => Or.inr (by rw [hshadow]; exact .refl _)

theorem of_released (h : Released s s') : KeepsEntries s s' := by
  have hmmu : s'.mmu = s.mmu := by rw [h.frame]
  refine .of_entries (by rw [hmmu]) (by rw [hmmu]) fun p i => ?_
  rcases h.shadow p i with heq | hz
  · exact Or.inr (heq ▸ .refl _)
  · exact Or.inl hz

/-- One entry is written. -/
theorem writePte {ptr : PtePtr} {e : BitVec 64} (hmmu : s'.mmu = s.mmu) (hshadow : s'.shadow = (s.writePte ptr e).shadow)
    (he : e = 0 ∨ SameLink (s.readPte ptr) e) : KeepsEntries s s' := by
  refine .of_entries (by rw [hmmu]) (by rw [hmmu]) fun p i => ?_
  rw [hshadow, Vcpu.shadow_writePte]
  split
  · rename_i heq
    rw [heq.1, heq.2]
    exact he
  · exact Or.inr (.refl _)

theorem slotRemoveWriteAccess (s : Vcpu) (slot : Fin 4) : KeepsEntries s (kvmMmuSlotRemoveWriteAccess s slot) := by
  rw [kvmMmuSlotRemoveWriteAccess_eq]
  refine .of_entries rfl rfl fun p i => Or.inr ?_
  dsimp only
  split
  · exact ⟨by simp, by simp, frameOf_congr fun j h12 _ => by simp [show j ≠ 1 by omega]⟩
  · exact .refl _

theorem of_newRoot {q : Pfn} (h : MmuInv pool lvl r s') (hnew : NewRoot pool q s s') : KeepsEntries s s' := fun _ hva =>
  absurd hva (hnew.not_hasEntry h)

theorem invalPage (h : MmuInv pool lvl r s) (addr : BitVec 64) : KeepsEntries s (mmuInvalPage s addr) := by
  obtain ⟨s1, v, hrel, -, heq⟩ := h.released_invalPage addr
  rw [heq]
  exact (KeepsEntries.of_released hrel).trans (.of_shadow rfl rfl)

/-- A page is linked; it has no entries yet. -/
theorem linkPage {l : Nat} {p q : Pfn} {rest : List Pfn} {flags : BitVec 64} (h : MmuInv pool lvl r s)
    (hp : OnPath s va (l + 2) p) (hz : s.shadow p (pt64Index va (l + 2)) = 0) (hf : s.freePages = q :: rest)
    (h0 : flags.hasBit 0 = true) (haddr : ∀ i, 12 ≤ i → i < 52 → flags.hasBit i = false) :
    KeepsEntries s (s.linkPage ⟨p, pt64Index va (l + 2)⟩ q rest flags) := by
  obtain ⟨hact, hlev⟩ := h.active_of_onPath hp
  have hfree : q ∉ s.kvm.activeMmuPages := fun ha => h.tables.not_free_of_active ha (hf ▸ List.mem_cons_self)
  have hshadow : ∀ x i, (x, i) ≠ (p, pt64Index va (l + 2)) →
      (s.linkPage ⟨p, pt64Index va (l + 2)⟩ q rest flags).shadow x i = s.shadow x i := fun x i hne =>
    Vcpu.shadow_writePte_of_ne hne
  rintro va' ⟨x, hx, he⟩
  have hxp : x ≠ p := by
    rintro rfl
    rcases onPath_of_linkPage h hp hf h0 haddr hx with hx | rfl
    · have := (h.active_of_onPath hx).2
      omega
    · exact hfree hact
  rw [hshadow x _ fun hno => hxp (Prod.mk.inj hno).1] at he
  rcases onPath_of_linkPage h hp hf h0 haddr hx with hx | rfl
  · refine ⟨⟨x, hx, he⟩, ?_⟩
    rintro ⟨y, hy, hmark⟩
    refine ⟨y, @onPath_linkPage s va' ⟨p, pt64Index va (l + 2)⟩ hz q rest flags _ _ hy, ?_⟩
    rw [hshadow y _ ?_]
    · exact hmark
    · intro hno
      obtain ⟨rfl, hidx⟩ := Prod.mk.inj hno
      rw [hidx, hz] at hmark
      exact absurd hmark (by simp)
  · rw [h.tables.free_zero x (hf ▸ List.mem_cons_self)] at he
    exact absurd he (by simp)

/-- A directory entry gets the mark. -/
theorem markLarge {p : Pfn} (h : MmuInv pool lvl r s) (hp : OnPath s va 2 p)
    (hpres : (s.shadow p (pt64Index va 2)).hasBit 0 = true) :
    KeepsEntries s (s.writePte ⟨p, pt64Index va 2⟩ (s.shadow p (pt64Index va 2) ||| ptShadowPsMark)) := by
  have hlev := (h.active_of_onPath hp).2
  rintro va' ⟨x, hx, he⟩
  have hx := @onPath_of_markLarge s va' ⟨p, pt64Index va 2⟩ _ _ hx
  have hlev' := (h.active_of_onPath hx).2
  rw [Vcpu.shadow_writePte_of_page_ne _ (show x ≠ p by rintro rfl; omega)] at he
  refine ⟨⟨x, hx, he⟩, ?_⟩
  rintro ⟨y, hy, hmark⟩
  refine ⟨y, OnPath.mono (s := s) rfl rfl (fun l q _ h0 => ?_) hy, ?_⟩
  · exact ⟨(@hasBit_markLarge s ⟨p, pt64Index va 2⟩ q _ 0 (by decide)).trans h0,
      frameOf_congr fun i h12 _ => @hasBit_markLarge s ⟨p, pt64Index va 2⟩ q _ i (by omega)⟩
  · rw [Vcpu.shadow_writePte]
    split
    · simp
    · exact hmark

end KeepsEntries

/-! ### The fault handler -/

theorem sameLink_dirtyPte (e : BitVec 64) : SameLink e (dirtyPte e) :=
  ⟨by simp, by simp, frameOf_dirtyPte e⟩

theorem sameLink_userPte (e : BitVec 64) : SameLink e (userPte e) := ⟨by simp, by simp, frameOf_userPte e⟩

/-- In a fault at `va` that began in the state `s`, without an entry for `va`: the entries that are there were there, or
they are in a page whose directory entry is marked if the guest maps a large page. -/
def FaultEntries (pt : PtType) (s u : Vcpu) : Prop :=
  ∀ va, HasEntry u va → HasEntry s va ∧ (PsMarked s va → PsMarked u va) ∨
    ¬HasEntry s va ∧ (guestLevel pt u va = 2 → PsMarked u va)

namespace FaultEntries

variable {u u' : Vcpu}

theorem keeps (h : FaultEntries pt s u) (hk : KeepsEntries u u') (hsame : SameGuest pt u u') : FaultEntries pt s u' := by
  intro va hva
  obtain ⟨hu, hmark⟩ := hk va hva
  rcases h va hu with ⟨h1, h2⟩ | ⟨h1, h2⟩
  · exact Or.inl ⟨h1, fun hm => hmark (h2 hm)⟩
  · exact Or.inr ⟨h1, fun hl => hmark (h2 (hsame.guestLevel_eq va ▸ hl))⟩

/-- The entry of `va` is installed. -/
theorem install {p : Pfn} (h : FaultEntries pt s u) (hinv : MmuInv pool lvl r u) (hfor : u.mmu.IsFor pt)
    (hlevels : u.mmu.shadowRootLevel = s.mmu.shadowRootLevel) (hnew : ¬HasEntry s va) (hp : OnPath u va 1 p)
    (hmark : guestLevel pt u va = 2 → PsMarked u va) (hsame : SameGuest pt u (installLeaf pt u va ⟨p, pt64Index va 1⟩)) :
    FaultEntries pt s (installLeaf pt u va ⟨p, pt64Index va 1⟩) := by
  have hlev := (hinv.active_of_onPath hp).2
  have hshadow : (installLeaf pt u va ⟨p, pt64Index va 1⟩).shadow =
      (u.writePte ⟨p, pt64Index va 1⟩ (leafPte pt u va)).shadow := rfl
  have hpath : ∀ {va' l q}, OnPath (installLeaf pt u va ⟨p, pt64Index va 1⟩) va' l q ↔ OnPath u va' l q :=
    fun {va' l q} => (@OnPath.congr (u.writePte ⟨p, pt64Index va 1⟩ (leafPte pt u va))
      (installLeaf pt u va ⟨p, pt64Index va 1⟩) va' l q rfl rfl hshadow).trans (hinv.onPath_writeLeaf hlev _ _)
  have hmarked : ∀ {va'}, PsMarked u va' → PsMarked (installLeaf pt u va ⟨p, pt64Index va 1⟩) va' := by
    rintro va' ⟨q, hq, hm⟩
    have hlev' := (hinv.active_of_onPath hq).2
    refine ⟨q, hpath.2 hq, ?_⟩
    rw [hshadow, Vcpu.shadow_writePte_of_page_ne _ (show q ≠ p by rintro rfl; omega)]
    exact hm
  rintro va' ⟨q, hq', he⟩
  have hq := hpath.1 hq'
  by_cases heq : (q, pt64Index va' 1) = (p, pt64Index va 1)
  · -- the address shares the new entry
    obtain ⟨rfl, h1⟩ := Prod.mk.inj heq
    have habove := hinv.unique hq hp
    have hidx : ∀ k, 1 ≤ k → k ≤ u.mmu.shadowRootLevel → pt64Index va' k = pt64Index va k := fun k hk hk' => by
      rcases Nat.eq_or_lt_of_le hk with rfl | hlt
      · exact h1
      · exact habove k hlt hk'
    refine Or.inr ⟨fun hno => hnew (hno.congr fun k hk hk' => hidx k hk (hlevels ▸ hk')), fun hl => hmarked ?_⟩
    have hwalk := guestWalk_congr u le_rfl hfor.one_le_rootLevel (hfor.index_congr le_rfl hidx)
    rw [hsame.guestLevel_eq] at hl
    unfold guestLevel at hl
    rw [hwalk] at hl
    exact (hmark hl).congr fun k hk hk' => (hidx k (by omega) hk').symm
  · rw [hshadow, Vcpu.shadow_writePte_of_ne heq] at he
    rcases h va' ⟨q, hq, he⟩ with ⟨h1, h2⟩ | ⟨h1, h2⟩
    · exact Or.inl ⟨h1, fun hm => hmarked (h2 hm)⟩
    · exact Or.inr ⟨h1, fun hl => hmarked (h2 (hsame.guestLevel_eq va' ▸ hl))⟩

/-- A step of the fault handler. -/
theorem step (h : FaultEntries pt s u) (hinv : MmuInv pool lvl r u) (hpool : pool ≠ []) (hfor : u.mmu.IsFor pt)
    (hlevels : u.mmu.shadowRootLevel = s.mmu.shadowRootLevel) (hnew : ¬HasEntry s va) (hstep : FaultStep pt va u u') :
    FaultEntries pt s u' := by
  have hsame := hstep.sameGuest hinv hpool
  cases hstep with
  | accessed => exact h.keeps (.of_shadow rfl rfl) hsame
  | @link l p q rest hp hz hf hg =>
    obtain ⟨h0, haddr, -⟩ := @hasBit_linkFlags pt u (l + 2) _ hg
    exact h.keeps (.linkPage hinv hp hz hf h0 haddr) hsame
  | mark hp he => exact h.keeps (.markLarge hinv hp he) hsame
  | leaf hp hz hg hmark => exact h.install hinv hfor hlevels hnew hp hmark hsame
  | flush =>
    obtain ⟨lvl', q, h1, h2, -⟩ := nonpagingFlush_spec hinv hpool
    exact h.keeps (.of_newRoot h1 h2) hsame
  | @dirty p hp he hne hw hperm hg =>
    exact h.keeps (@KeepsEntries.writePte u _ ⟨p, pt64Index va 1⟩ _ rfl rfl (Or.inr (sameLink_dirtyPte _))) hsame
  | @zap p hp hg => exact h.keeps (@KeepsEntries.writePte u _ ⟨p, pt64Index va 1⟩ _ rfl rfl (Or.inl rfl)) hsame
  | @user p hp he h11 h2 =>
    exact h.keeps (@KeepsEntries.writePte u _ ⟨p, pt64Index va 1⟩ _ rfl rfl (Or.inr (sameLink_userPte _))) hsame
  | inject errCode =>
    rw [injectPageFault_frame] at hsame ⊢
    exact h.keeps (.of_shadow rfl rfl) hsame

theorem run (hinv : MmuInv pool lvl r s) (hpool : pool ≠ []) (hfor : s.mmu.IsFor pt) (hnew : ¬HasEntry s va)
    (hrun : ReflTransGen (FaultStep pt va) s u) : FaultEntries pt s u := by
  refine (FaultStep.run (P := fun u => FaultEntries pt s u ∧ u.mmu = { s.mmu with rootHpa := u.mmu.rootHpa }) hpool
    (fun hinv' hu hstep => ?_) hinv ⟨fun va hva => Or.inl ⟨hva, id⟩, rfl⟩ hrun).2.1
  obtain ⟨hu, hmmu⟩ := hu
  refine ⟨hu.step hinv' hpool ?_ ?_ hnew hstep, ?_⟩
  · rw [hmmu]
    cases pt <;> exact hfor
  · rw [hmmu]
  · rw [hstep.context hinv' hpool, hmmu]

end FaultEntries

/-- A fault at an address with an entry changes the rights of the entry, or takes it away. -/
theorem KeepsEntries.pageFault (h : MmuInv pool lvl r s) (hpool : pool ≠ []) (hfor : s.mmu.IsFor pt) (hhas : HasEntry s va)
    {errorCode : BitVec 32} {fuel : Nat} {out : Vcpu × Bool} (hs : pageFault pt s va errorCode fuel = some out) :
    KeepsEntries s out.1 := by
  obtain ⟨p, hp, he⟩ := hhas
  have hne : s.shadow p (pt64Index va 1) ≠ 0 := by
    intro hno
    rw [hno] at he
    simp at he
  unfold LearnKvm.pageFault at hs
  cases hf : fetchRetry pt va fuel s with
  | none =>
    rw [hf] at hs
    cases hs
  | some res =>
    obtain ⟨s1, walker, shadowPte⟩ := res
    have hl := fetchRetry_spec hpool h hfor hf
    obtain ⟨rfl, rfl⟩ := fetchRetry_complete h hp hne hf
    rw [hf] at hs
    obtain rfl := Option.some.inj hs
    have hfix : ∀ write user, KeepsEntries s1 (fixPf pt s1 va ⟨p, pt64Index va 1⟩ write user).1 := fun write user => by
      unfold fixPf
      split
      · split
        · split
          · exact .writePte rfl rfl (Or.inr (sameLink_dirtyPte _))
          · exact .writePte rfl rfl (Or.inl rfl)
        · exact .refl s1
      · split
        · exact .writePte rfl rfl (Or.inr (sameLink_userPte _))
        · exact .refl s1
    have hinject : ∀ (u : Vcpu) (addr : BitVec 64) (errCode : BitVec 32), KeepsEntries u (injectPageFault u addr errCode) :=
      fun u addr errCode => by
        rw [injectPageFault_frame]
        exact .of_shadow rfl rfl
    rw [pageFaultFix_eq hl.ok.2.2.2]
    dsimp only
    split
    · split
      · exact hfix _ _
      · exact (hfix _ _).trans (hinject _ _ _)
    · split
      · exact (hfix _ _).trans (hinject _ _ _)
      · exact hfix _ _

/-! ### The record -/

abbrev PageSizes := BitVec 64 → GuestPageSize

/-- The record follows a step: where an entry appears, the guest page is the one that the guest maps then. -/
structure Recorded (s s' : Vcpu) (sizes sizes' : PageSizes) : Prop where
  kept : ∀ va, HasEntry s va → HasEntry s' va → sizes' va = sizes va
  new : ∀ va, ¬HasEntry s va → HasEntry s' va → sizes' va = guestPageSize s' va

/-- A call of the MMU, or another change, with the record. -/
def RecordedCall (x y : Vcpu × PageSizes) : Prop := MmuCall x.1 y.1 ∧ Recorded x.1 y.1 x.2 y.2

/-- A state of a vcpu whose `kvm_mmu_init` succeeded, with the record since then. -/
def RecordedReachable (s : Vcpu) (sizes : PageSizes) : Prop :=
  ∃ (alloc : Fin 256 → Option Pfn) (s₀ s₁ : Vcpu) (sizes₁ : PageSizes),
    (∀ i j p, alloc i = some p → alloc j = some p → i = j) ∧ s₀.freePages = [] ∧ s₀.kvm.activeMmuPages = [] ∧
      s₀.failed = [] ∧ kvmMmuInit alloc s₀ = (s₁, true) ∧ ReflTransGen RecordedCall (s₁, sizes₁) (s, sizes)

theorem RecordedReachable.mmuReachable {sizes : PageSizes} (h : RecordedReachable s sizes) : MmuReachable s := by
  obtain ⟨alloc, s₀, s₁, sizes₁, h1, h2, h3, h4, h5, hrun⟩ := h
  exact ⟨alloc, s₀, s₁, h1, h2, h3, h4, h5, hrun.lift Prod.fst fun _ _ hstep => hstep.1⟩

open Classical in
/-- Every run has a record. -/
theorem MmuReachable.recorded (h : MmuReachable s) : ∃ sizes, RecordedReachable s sizes := by
  obtain ⟨alloc, s₀, s₁, h1, h2, h3, h4, h5, hrun⟩ := h
  have hrecord : ∃ sizes, ReflTransGen RecordedCall (s₁, fun _ => .k4) (s, sizes) := by
    induction hrun with
    | refl => exact ⟨_, .refl⟩
    | @tail u u' _ hstep ih =>
      obtain ⟨sizes, hsizes⟩ := ih
      refine ⟨fun va => if HasEntry u va then sizes va else guestPageSize u' va, hsizes.tail ⟨hstep, ?_, ?_⟩⟩
      · exact fun va hva _ => if_pos hva
      · exact fun va hva _ => if_neg hva
  obtain ⟨sizes, hsizes⟩ := hrecord
  exact ⟨sizes, alloc, s₀, s₁, _, h1, h2, h3, h4, h5, hsizes⟩

/-- The directory entry above an entry of a large page has the mark, and there are pages of 4M only where the guest's
tables have two levels. -/
def LargeMarked (s : Vcpu) (sizes : PageSizes) : Prop :=
  ∀ va, HasEntry s va → sizes va ≠ .k4 →
    s.mmu.ops ≠ .nonpaging ∧ PsMarked s va ∧ (sizes va = .m4 → s.mmu.ops = .paging32)

namespace LargeMarked

variable {sizes sizes' : PageSizes}

theorem of_keeps (h : LargeMarked s sizes) (hk : KeepsEntries s s') (hops : s'.mmu.ops = s.mmu.ops)
    (hrec : Recorded s s' sizes sizes') : LargeMarked s' sizes' := by
  intro va hva hsize
  obtain ⟨hs, hmark⟩ := hk va hva
  rw [hrec.kept va hs hva] at hsize ⊢
  obtain ⟨h1, h2, h3⟩ := h va hs hsize
  rw [hops]
  exact ⟨h1, hmark h2, h3⟩

/-- A fault in a paging context. -/
theorem of_fault (h : LargeMarked s sizes) (hk : FaultEntries s.mmu.ops.ptType s s') (hops : s'.mmu.ops = s.mmu.ops)
    (hpaging : s.mmu.ops ≠ .nonpaging) (hrec : Recorded s s' sizes sizes') : LargeMarked s' sizes' := by
  intro va hva hsize
  rcases hk va hva with ⟨hs, hmark⟩ | ⟨hs, hmark⟩
  · rw [hrec.kept va hs hva] at hsize ⊢
    obtain ⟨h1, h2, h3⟩ := h va hs hsize
    rw [hops]
    exact ⟨h1, hmark h2, h3⟩
  · rw [hrec.new va hs hva] at hsize ⊢
    unfold guestPageSize at hsize ⊢
    rw [hops] at hsize ⊢
    refine ⟨hpaging, ?_⟩
    cases hc : s.mmu.ops with
    | nonpaging => exact absurd hc hpaging
    | paging64 =>
      rw [hc] at hsize hmark
      dsimp only at hsize ⊢
      split at hsize
      · rename_i hl
        refine ⟨hmark hl, fun hno => ?_⟩
        rw [if_pos hl] at hno
        cases hno
      · exact absurd rfl hsize
    | paging32 =>
      rw [hc] at hsize hmark
      dsimp only at hsize ⊢
      split at hsize
      · rename_i hl
        exact ⟨hmark hl, fun _ => rfl⟩
      · exact absurd rfl hsize

/-- Without paging all entries are of small pages. -/
theorem of_nonpaging (h : LargeMarked s sizes) (hops : s.mmu.ops = .nonpaging) (hops' : s'.mmu.ops = .nonpaging)
    (hrec : Recorded s s' sizes sizes') : LargeMarked s' sizes' := by
  intro va hva hsize
  refine absurd ?_ hsize
  by_cases hs : HasEntry s va
  · rw [hrec.kept va hs hva]
    by_contra hno
    exact (h va hs hno).1 hops
  · rw [hrec.new va hs hva]
    unfold guestPageSize
    rw [hops']

theorem pageFault (h : LargeMarked s sizes) (hinv : MmuInv pool lvl r s) (hpool : pool ≠ []) {addr : BitVec 64}
    {errorCode : BitVec 32} {fuel : Nat} {out : Vcpu × Bool} (hs : mmuPageFault s addr errorCode fuel = some out)
    (hrec : Recorded s out.1 sizes sizes') : LargeMarked out.1 sizes' := by
  have hops : out.1.mmu.ops = s.mmu.ops := by rw [(ContextKept.mmuPageFault hinv hpool hs).mmu]
  by_cases hpaging : s.mmu.ops = .nonpaging
  · exact h.of_nonpaging hpaging (hops.trans hpaging) hrec
  · have hfor := hinv.levels.isFor hpaging
    have hfault : LearnKvm.pageFault s.mmu.ops.ptType s addr errorCode fuel = some out := by
      unfold mmuPageFault at hs
      cases hc : s.mmu.ops with
      | nonpaging => exact absurd hc hpaging
      | paging64 => rwa [hc] at hs
      | paging32 => rwa [hc] at hs
    by_cases hhas : HasEntry s addr
    · exact h.of_keeps (.pageFault hinv hpool hfor hhas hfault) hops hrec
    · exact h.of_fault (.run hinv hpool hfor hhas (pageFault_steps hpool hinv hfor hfault)) hops hpaging hrec

/-- Every call keeps the marks that the record asks for. -/
theorem call (h : LargeMarked s sizes) (hinv : MmuInv pool lvl r s) (hpool : pool ≠ []) (hstep : MmuCall s s')
    (hrec : Recorded s s' sizes sizes') : LargeMarked s' sizes' := by
  cases hstep with
  | pageFault _ hs => exact h.pageFault hinv hpool hs hrec
  | invalPage addr =>
    exact h.of_keeps (.invalPage hinv addr) (by rw [(ContextKept.mmuInvalPage s addr).mmu]) hrec
  | newCr3 => exact h.of_keeps (.of_released hinv.released_newCr3.2) (by rw [(ContextKept.mmuNewCr3 s).mmu]) hrec
  | resetContext =>
    obtain ⟨lvl', q, h1, h2, -⟩ := kvmMmuResetContext_spec hinv hpool
    exact fun va hva => absurd hva (h2.not_hasEntry h1)
  | slotRemoveWriteAccess slot =>
    exact h.of_keeps (.slotRemoveWriteAccess s slot) (by rw [kvmMmuSlotRemoveWriteAccess_eq]) hrec
  | other hs => exact h.of_keeps (.of_shadow hs.mmu hs.shadow) (by rw [hs.mmu]) hrec

end LargeMarked

/-- In every state of a run the large pages of the record are marked. -/
theorem RecordedReachable.inv {sizes : PageSizes} (h : RecordedReachable s sizes) :
    ∃ pool lvl r, MmuInv pool lvl r s ∧ LargeMarked s sizes := by
  obtain ⟨alloc, s₀, s₁, sizes₁, hdistinct, hfree, hactive, hfailed, hinit, hrun⟩ := h
  obtain ⟨hlen, lvl, q, h1, h2, -⟩ := kvmMmuInit_spec hdistinct hfree hactive hfailed hinit
  have hpool : mmuPool alloc ≠ [] := List.ne_nil_of_length_pos (by omega)
  have hcalls : ∀ {x y : Vcpu × PageSizes}, ReflTransGen RecordedCall x y → ∀ {lvl r}, MmuInv (mmuPool alloc) lvl r x.1 →
      LargeMarked x.1 x.2 → ∃ lvl' r', MmuInv (mmuPool alloc) lvl' r' y.1 ∧ LargeMarked y.1 y.2 := by
    intro x y hxy lvl r hx hmarked
    induction hxy with
    | refl => exact ⟨lvl, r, hx, hmarked⟩
    | tail _ hstep ih =>
      obtain ⟨lvl', r', h', hmarked'⟩ := ih
      obtain ⟨lvl'', r'', h''⟩ := hstep.1.inv h' hpool
      exact ⟨lvl'', r'', h'', hmarked'.call h' hpool hstep.1 hstep.2⟩
  obtain ⟨lvl', r', h3, h4⟩ := hcalls hrun h1 fun va hva => absurd hva (h2.not_hasEntry h1)
  exact ⟨_, lvl', r', h3, h4⟩

end LearnKvm
