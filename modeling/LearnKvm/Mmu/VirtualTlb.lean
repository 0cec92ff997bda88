import LearnKvm.Lib.TableCache
import LearnKvm.Mmu.Access
import LearnKvm.Mmu.GlobalPages
import LearnKvm.Mmu.InvalPage

/-!
# The shadow tables as a translation lookaside buffer

The guest may change its tables at any time without telling anyone, as it may on a real processor, where the old
translation is used until the guest invalidates it.  `shadow_is_tlb` says that the shadow tables behave like that.
Between two resets of the context, whatever the guest and the host do, an access that the processor permits on the shadow
tables was permitted by the guest tables at a fault for the same page in the past; since then the page has not been
invalidated by INVLPG, and no CR3 has been loaded unless the guest had marked the page global.

The shadow tables are an instance of `TableCache`: the table is the guest's, faults load entries, and the fixes of
`fix_write_pf` and `fix_read_pf` and the withdrawal of write access alter entries in ways that keep what they say.
-/

namespace LearnKvm

open Relation

variable {pool : List Pfn} {lvl : Pfn → Nat} {r : Pfn} {s s' : Vcpu} {pt : PtType} {va a : BitVec 64} {e e' : BitVec 64}
  {wp : Bool}

/-- The addresses share their entry of level one in tables of `n` levels. -/
def SameEntry (n : Nat) (va va' : BitVec 64) : Prop := ∀ k, 1 ≤ k → k ≤ n → pt64Index va k = pt64Index va' k

/-- The shadow tables have this entry of level one for the address, and it is present. -/
def Caches (s : Vcpu) (va e : BitVec 64) : Prop :=
  ∃ p, OnPath s va 1 p ∧ s.shadow p (pt64Index va 1) = e ∧ e.hasBit 0 = true

/-- What an entry of level one says about the guest tables. -/
structure Translates (pt : PtType) (s : Vcpu) (va e : BitVec 64) : Prop where
  present : (guestPte pt s va 1).hasBit 0 = true
  mapped : e.hasBit 0 = (guestFrame pt s va).isSome
  frame : ∀ f, guestFrame pt s va = some f → frameOf e = f
  shadowWritable : e.hasBit 10 = (guestRights pt s va).hasBit 1
  shadowUser : e.hasBit 11 = (guestRights pt s va).hasBit 2
  user : e.hasBit 2 = true → e.hasBit 11 = true
  writable : e.hasBit 1 = true → e.hasBit 10 = true ∨ isWriteProtection s.vmcs = false ∧ e.hasBit 2 = false
  nx : e.hasBit 63 = (decide (pt = .pt64) && (guestPte pt s va 1).hasBit 63)
  global : e.hasBit 8 = true → (guestPte pt s va 1).hasBit 8 = true

/-- How the entry of an address is changed while it stays. -/
inductive LeafAlters (wp : Bool) : BitVec 64 → BitVec 64 → Prop
  | dirty {e : BitVec 64} (hperm : e.hasBit 10 = true ∨ wp = false) : LeafAlters wp e (dirtyPte e)
  | user {e : BitVec 64} (h11 : e.hasBit 11 = true) : LeafAlters wp e (userPte e)
  | protect (e : BitVec 64) : LeafAlters wp e (clearWritable e)

theorem LeafAlters.hasBit (h : LeafAlters wp e e') {i : Nat} (h1 : i ≠ 1) (h2 : i ≠ 2) : e'.hasBit i = e.hasBit i := by
  cases h with
  | dirty => simp [h1, h2]
  | user => simp [h1, h2]
  | protect => simp [h1]

/-- An alteration keeps what the entry says about an earlier state of the guest tables. -/
theorem Translates.alter (h : Translates pt s va e) (hs : isWriteProtection s.vmcs = wp) (ha : LeafAlters wp e e') :
    Translates pt s va e' where
  present := h.present
  mapped := (ha.hasBit (by decide) (by decide)).trans h.mapped
  frame f hf := (frameOf_congr fun i h12 _ => ha.hasBit (by omega) (by omega)).trans (h.frame f hf)
  shadowWritable := (ha.hasBit (by decide) (by decide)).trans h.shadowWritable
  shadowUser := (ha.hasBit (by decide) (by decide)).trans h.shadowUser
  user hu := by
    rw [ha.hasBit (by decide) (by decide)]
    cases ha with
    | dirty =>
      simp only [hasBit_dirtyPte, Nat.reduceEqDiff, if_false, if_true, Bool.and_eq_true] at hu
      exact h.user hu.2
    | user h11 => exact h11
    | protect => exact h.user (by simpa using hu)
  writable hw := by
    rw [ha.hasBit (show 10 ≠ 1 by decide) (by decide)]
    cases ha with
    | dirty hperm =>
      rcases hperm with h10 | hwp
      · exact Or.inl h10
      · cases h10 : e.hasBit 10 with
        | true => exact Or.inl rfl
        | false => exact Or.inr ⟨hs.trans hwp, by simp [h10]⟩
    | user => simp at hw
    | protect => simp at hw
  nx := (ha.hasBit (by decide) (by decide)).trans h.nx
  global hg := h.global ((ha.hasBit (by decide) (by decide)).symm.trans hg)

theorem Translates.congr (hfor : s.mmu.IsFor pt) (h : Translates pt s va e)
    (hsame : SameEntry s.mmu.shadowRootLevel va a) : Translates pt s a e := by
  have hgidx := hfor.index_congr le_rfl hsame
  have hwalk := guestWalk_congr s le_rfl hfor.one_le_rootLevel hgidx
  have hpte : guestPte pt s a 1 = guestPte pt s va 1 := by
    unfold guestPte
    rw [hwalk]
  have hrights : guestRights pt s a = guestRights pt s va := by
    unfold guestRights
    rw [hwalk, hpte]
  have hframe : guestFrame pt s a = guestFrame pt s va := by
    unfold guestFrame guestGaddr guestLevel leafGaddr
    rw [hwalk, hpte, hgidx 1 le_rfl hfor.one_le_rootLevel]
  exact ⟨hpte ▸ h.present, hframe ▸ h.mapped, hframe ▸ h.frame, hrights ▸ h.shadowWritable, hrights ▸ h.shadowUser,
    h.user, h.writable, hpte ▸ h.nx, hpte ▸ h.global⟩

theorem Translates.sameWalks (h : Translates pt s va e) (hroot : 1 ≤ s.mmu.rootLevel) (hs : SameWalks pt s s') :
    Translates pt s' va e where
  present := (hs.guestPte_one hroot va).le 0 h.present
  mapped := by
    unfold guestFrame
    rw [hs.guestGaddr_eq hroot, hs.gpaFrame_eq]
    exact h.mapped
  frame f hf := by
    unfold guestFrame at hf
    rw [hs.guestGaddr_eq hroot, hs.gpaFrame_eq] at hf
    exact h.frame f hf
  shadowWritable := by rw [hs.guestRights_eq hroot]; exact h.shadowWritable
  shadowUser := by rw [hs.guestRights_eq hroot]; exact h.shadowUser
  user := h.user
  writable := by rw [hs.writeProtection]; exact h.writable
  nx := by rw [h.nx, (hs.guestPte_one hroot va).eq 63 (by decide) (by decide)]
  global hg := (hs.guestPte_one hroot va).le 8 (h.global hg)

/-- The entry that `fetch` installs; the entries of a large page do not get the G bit. -/
theorem translates_leafPte (hg : (guestPte pt s va 1).hasBit 0 = true) : Translates pt s va (leafPte pt s va) := by
  have h := leafSound_leafPte hg
  refine ⟨h.present, h.mapped, h.frame, h.shadowWritable, h.shadowUser, h.user, h.writable, h.nx, fun h8 => ?_⟩
  unfold leafPte at h8
  rw [(leafArgs s va hg).hasBit_commonPte _ (by decide)] at h8
  simp only [Nat.reduceEqDiff, if_false] at h8
  unfold leafBase at h8
  split at h8
  · cases pt <;> simp [PtType.nonPteCopyMask, pt32NonPteCopyMask, pt64NonPteCopyMask] at h8
  · cases pt <;>
      simpa [PtType.pteCopyMask, pt32PteCopyMask, pt64PteCopyMask] using h8

/-! ### What the steps do to the entries -/

theorem SameEntry.symm {n : Nat} (h : SameEntry n va a) : SameEntry n a va := fun k hk hk' => (h k hk hk').symm

theorem Caches.of_same (hc : Caches s' a e) (hmmu : s'.mmu = s.mmu) (hshadow : s'.shadow = s.shadow) : Caches s a e := by
  obtain ⟨p, hp, he, hne⟩ := hc
  exact ⟨p, (OnPath.congr (by rw [hmmu]) (by rw [hmmu]) hshadow).1 hp, by rw [← hshadow]; exact he, hne⟩

/-- Paths are removed and entries emptied. -/
theorem Caches.of_cleared (hc : Caches s' a e) (hpath : ∀ p, OnPath s' a 1 p → OnPath s a 1 p)
    (hshadow : ∀ p i, s'.shadow p i = s.shadow p i ∨ s'.shadow p i = 0) : Caches s a e := by
  obtain ⟨p, hp, rfl, h0⟩ := hc
  exact ⟨p, hpath p hp, ((hshadow p (pt64Index a 1)).resolve_right (BitVec.ne_zero_of_hasBit h0)).symm, h0⟩

theorem NewRoot.not_caches {q : Pfn} (hnew : NewRoot pool q s s') : ¬Caches s' a e := by
  rintro ⟨p, hp, rfl, h0⟩
  obtain ⟨-, rfl⟩ := hnew.onPath hp
  exact BitVec.ne_zero_of_hasBit h0 (hnew.empty _)

/-- An entry of level one is written: the others stay. -/
theorem Caches.of_writeLeaf (hc : Caches s' a e) (h : MmuInv pool lvl r s) {p : Pfn} (hp : OnPath s va 1 p)
    (e₀ : BitVec 64) (hmmu : s'.mmu = s.mmu) (hshadow : s'.shadow = (s.writePte ⟨p, pt64Index va 1⟩ e₀).shadow) :
    Caches s a e ∨ SameEntry s.mmu.shadowRootLevel va a ∧ e = e₀ := by
  obtain ⟨q, hq, rfl, hne⟩ := hc
  have hlev := (h.active_of_onPath hp).2
  have hq : OnPath s a 1 q :=
    (h.onPath_writeLeaf hlev _ e₀).1 ((OnPath.congr (by rw [hmmu]; rfl) (by rw [hmmu]; rfl) hshadow).1 hq)
  rw [hshadow] at hne ⊢
  by_cases heq : (q, pt64Index a 1) = (p, pt64Index va 1)
  · obtain ⟨rfl, hidx⟩ := Prod.mk.inj heq
    refine Or.inr ⟨fun k hk hk' => ?_, ?_⟩
    · rcases Nat.eq_or_lt_of_le hk with rfl | hk
      · exact hidx.symm
      · exact h.unique hp hq k hk hk'
    · rw [hidx]
      exact Vcpu.readPte_writePte_self ..
  · rw [Vcpu.shadow_writePte_of_ne heq] at hne ⊢
    exact Or.inl ⟨q, hq, rfl, hne⟩

/-- A page is linked: it has no entries. -/
theorem Caches.of_linkPage {l : Nat} {p q : Pfn} {rest : List Pfn} {flags : BitVec 64}
    (hc : Caches (s.linkPage ⟨p, pt64Index va (l + 2)⟩ q rest flags) a e) (h : MmuInv pool lvl r s)
    (hp : OnPath s va (l + 2) p) (hf : s.freePages = q :: rest) (h0 : flags.hasBit 0 = true)
    (haddr : ∀ i, 12 ≤ i → i < 52 → flags.hasBit i = false) : Caches s a e := by
  obtain ⟨x, hx, rfl, hne⟩ := hc
  obtain ⟨hact, hlev⟩ := h.active_of_onPath hp
  have hfree := h.tables.free_zero q (hf ▸ List.mem_cons_self)
  have hother : ∀ y i, y ≠ p → (s.linkPage ⟨p, pt64Index va (l + 2)⟩ q rest flags).shadow y i = s.shadow y i :=
    fun y i hy => Vcpu.shadow_writePte_of_page_ne i hy
  rcases onPath_of_linkPage h hp hf h0 haddr hx with hx | rfl
  · have hlev' := (h.active_of_onPath hx).2
    have hxp : x ≠ p := by
      rintro rfl
      omega
    rw [hother x _ hxp] at hne ⊢
    exact ⟨x, hx, rfl, hne⟩
  · have hxp : x ≠ p := by
      rintro rfl
      exact h.tables.not_free_of_active hact (hf ▸ List.mem_cons_self)
    rw [hother x _ hxp] at hne
    exact absurd (hfree _) (BitVec.ne_zero_of_hasBit hne)

/-- A step of the fault handler loads the entry of the address of the fault or alters it; other entries stay or go. -/
theorem FaultStep.caches (h : MmuInv pool lvl r s) (hpool : pool ≠ []) (hfor : s.mmu.IsFor pt)
    (hstep : FaultStep pt va s s') (hc : Caches s' a e) :
    SameEntry s.mmu.shadowRootLevel va a ∧ Translates pt s' a e ∨
      ∃ e', Caches s a e' ∧ ReflTransGen (LeafAlters (isWriteProtection s.vmcs)) e' e := by
  have hsame := (hstep.sameGuest h hpool).sameWalks
  have hpres : e.hasBit 0 = true := by
    obtain ⟨-, -, -, h0⟩ := hc
    exact h0
  have hstays : Caches s a e → SameEntry s.mmu.shadowRootLevel va a ∧ Translates pt s' a e ∨
      ∃ e', Caches s a e' ∧ ReflTransGen (LeafAlters (isWriteProtection s.vmcs)) e' e :=
    fun hc => Or.inr ⟨e, hc, .refl⟩
  have halters : ∀ {p}, OnPath s va 1 p → SameEntry s.mmu.shadowRootLevel va a →
      LeafAlters (isWriteProtection s.vmcs) (s.shadow p (pt64Index va 1)) e →
      ∃ e', Caches s a e' ∧ ReflTransGen (LeafAlters (isWriteProtection s.vmcs)) e' e := fun {p} hp hva ha => by
    have hidx := hva 1 le_rfl hp.level_le
    have h0 := (ha.hasBit (show 0 ≠ 1 by decide) (by decide)).symm.trans hpres
    exact ⟨_, ⟨p, hp.of_index_eq fun k hk => hva k (by omega), by rw [hidx], h0⟩, .single ha⟩
  cases hstep with
  | accessed => exact hstays (hc.of_same rfl rfl)
  | @link l p q rest hp hz hf hg =>
    obtain ⟨h0, haddr, -⟩ := @hasBit_linkFlags pt s (l + 2) _ hg
    exact hstays (hc.of_linkPage h hp hf h0 haddr)
  | @mark p hp he =>
    obtain ⟨x, hx, rfl, hne⟩ := hc
    have hx := @onPath_of_markLarge s a ⟨p, pt64Index va 2⟩ _ _ hx
    have hlev := (h.active_of_onPath hp).2
    have hlev' := (h.active_of_onPath hx).2
    rw [Vcpu.shadow_writePte_of_page_ne _ (show x ≠ p by rintro rfl; omega)] at hne hstays ⊢
    exact hstays ⟨x, hx, rfl, hne⟩
  | @leaf p hp hz hg =>
    rcases hc.of_writeLeaf h hp (leafPte pt s va) rfl rfl with hc | ⟨hva, rfl⟩
    · exact hstays hc
    · exact Or.inl ⟨hva, ((translates_leafPte hg).congr hfor hva).sameWalks hfor.one_le_rootLevel hsame⟩
  | flush =>
    obtain ⟨lvl', q, -, h1, -⟩ := nonpagingFlush_spec h hpool
    exact absurd hc h1.not_caches
  | @dirty p hp he hne hw hperm hg =>
    rcases hc.of_writeLeaf h hp (dirtyPte (s.shadow p (pt64Index va 1))) rfl rfl with hc | ⟨hva, rfl⟩
    · exact hstays hc
    · exact Or.inr (halters hp hva (.dirty hperm))
  | @zap p hp hg =>
    rcases hc.of_writeLeaf h hp (0) rfl rfl with hc | ⟨hva, rfl⟩
    · exact hstays hc
    · cases hpres
  | @user p hp he h11 h2 =>
    rcases hc.of_writeLeaf h hp (userPte (s.shadow p (pt64Index va 1))) rfl rfl with hc | ⟨hva, rfl⟩
    · exact hstays hc
    · exact Or.inr (halters hp hva (.user h11))
  | inject errCode =>
    rw [injectPageFault_frame] at hc
    exact hstays (hc.of_same rfl rfl)

/-- A fault in a paging mode. -/
theorem FaultStep.run_caches (hpool : pool ≠ []) (h : MmuInv pool lvl r s) (hfor : s.mmu.IsFor pt)
    (hrun : ReflTransGen (FaultStep pt va) s s') (hc : Caches s' a e) :
    SameEntry s.mmu.shadowRootLevel va a ∧ Translates pt s' a e ∨
      ∃ e', Caches s a e' ∧ ReflTransGen (LeafAlters (isWriteProtection s.vmcs)) e' e := by
  have hkeep : (∃ lvl' r', MmuInv pool lvl' r' s') ∧ (s'.mmu.IsFor pt ∧ SameGuest pt s s' ∧
      s'.mmu.shadowRootLevel = s.mmu.shadowRootLevel ∧ ∀ a e, Caches s' a e →
      SameEntry s.mmu.shadowRootLevel va a ∧ Translates pt s' a e ∨
        ∃ e', Caches s a e' ∧ ReflTransGen (LeafAlters (isWriteProtection s.vmcs)) e' e) := by
    refine FaultStep.run (P := fun s' => s'.mmu.IsFor pt ∧ SameGuest pt s s' ∧
      s'.mmu.shadowRootLevel = s.mmu.shadowRootLevel ∧ ∀ a e, Caches s' a e →
      SameEntry s.mmu.shadowRootLevel va a ∧ Translates pt s' a e ∨
        ∃ e', Caches s a e' ∧ ReflTransGen (LeafAlters (isWriteProtection s.vmcs)) e' e)
      hpool ?_ h ⟨hfor, .refl s, rfl, fun a e hc => Or.inr ⟨e, hc, .refl⟩⟩ hrun
    rintro s1 s2 lvl1 r1 h1 ⟨hfor1, hsame1, hlevel1, hcaches1⟩ hstep
    have hsame2 := hstep.sameGuest h1 hpool
    refine ⟨hstep.isFor h1 hpool hfor1, hsame1.trans hsame2, ?_, fun a e hc => ?_⟩
    · rw [hstep.context h1 hpool]
      exact hlevel1
    · rcases hstep.caches h1 hpool hfor1 hc with ⟨hva, htr⟩ | ⟨e1, hc1, ha1⟩
      · exact Or.inl ⟨hlevel1 ▸ hva, htr⟩
      · rw [hsame1.writeProtection] at ha1
        rcases hcaches1 a e1 hc1 with ⟨hva, htr⟩ | ⟨e', hc', ha'⟩
        · refine Or.inl ⟨hva, ?_⟩
          have hharm : ∀ {x y}, ReflTransGen (LeafAlters (isWriteProtection s.vmcs)) x y → Translates pt s1 a x →
              Translates pt s1 a y := fun hxy hx => by
            induction hxy with
            | refl => exact hx
            | tail _ hstep ih => exact ih.alter hsame1.writeProtection hstep
          exact (hharm ha1 htr).sameWalks hfor1.one_le_rootLevel hsame2.sameWalks
        · exact Or.inr ⟨e', hc', ha'.trans ha1⟩
  exact hkeep.2.2.2.2 a e hc

/-! ### Between two resets of the context -/

inductive MmuEvent where
  | fault (addr : BitVec 64)
  | invlpg (addr : BitVec 64)
  | movCr3
  | protect (slot : Fin 4)
  | other

/-- What happens between two resets.  `other` is anything that leaves the shadow tables alone: the guest writes to its
tables, the host changes the slots.  A write of CR0.WP resets the context. -/
inductive TlbStep : Vcpu → MmuEvent → Vcpu → Prop
  | fault {s : Vcpu} {addr : BitVec 64} {errorCode : BitVec 32} {fuel : Nat} {out : Vcpu × Bool}
      (h : mmuPageFault s addr errorCode fuel = some out) : TlbStep s (.fault addr) out.1
  | invlpg (s : Vcpu) (addr : BitVec 64) : TlbStep s (.invlpg addr) (mmuInvalPage s addr)
  | movCr3 (s : Vcpu) (cr3 : BitVec 64) : TlbStep s .movCr3 (mmuNewCr3 { s with cr3 := cr3 })
  | protect (s : Vcpu) (slot : Fin 4) : TlbStep s (.protect slot) (kvmMmuSlotRemoveWriteAccess s slot)
  | other {s s' : Vcpu} (h : SameShadow s s') (hwp : isWriteProtection s'.vmcs = isWriteProtection s.vmcs) :
      TlbStep s .other s'

/-- The runs of a paging mode from a reset of the context, with the events and the states after them, last first. -/
inductive Epoch : List (MmuEvent × Vcpu) → Vcpu → Prop
  | reset {s : Vcpu} (h : MmuReachable s) (hops : (kvmMmuResetContext s).mmu.ops ≠ .nonpaging) :
      Epoch [] (kvmMmuResetContext s)
  | step {history : List (MmuEvent × Vcpu)} {s s' : Vcpu} {ev : MmuEvent} (h : Epoch history s) (hs : TlbStep s ev s') :
      Epoch ((ev, s') :: history) s'

/-- The event invalidates an entry of the address, in tables of `n` levels. -/
def MmuEvent.Invalidates (n : Nat) (ev : MmuEvent) (a e : BitVec 64) : Prop :=
  (∃ addr, ev = .invlpg addr ∧ SameEntry n addr a) ∨ ev = .movCr3 ∧ e.hasBit 8 = false

def tlbMoment (n : Nat) (x : MmuEvent × Vcpu) : TableCache.Moment Vcpu (BitVec 64) (BitVec 64) where
  table := x.2
  loads a := ∃ addr, x.1 = .fault addr ∧ SameEntry n addr a
  invalidates := x.1.Invalidates n

theorem harmless_tlbMoment {n : Nat} {x : MmuEvent × Vcpu} (h : isWriteProtection x.2.vmcs = wp) :
    TableCache.Harmless (Translates pt) (LeafAlters wp) (tlbMoment n x) where
  holds ha he := he.alter h ha
  invalidates ha := by
    rintro (hinv | ⟨hev, h8⟩)
    · exact Or.inl hinv
    · exact Or.inr ⟨hev, (ha.hasBit (by decide) (by decide)).symm.trans h8⟩

variable {ev : MmuEvent} {g : Vcpu} {acc : Access} {f : Pfn}

theorem TlbStep.reachable (hs : TlbStep s ev s') (h : MmuReachable s) (hops : s.mmu.ops ≠ .nonpaging) :
    MmuReachable s' := by
  obtain ⟨alloc, s₀, s₁, h1, h2, h3, h4, h5, hrun⟩ := h
  refine ⟨alloc, s₀, s₁, h1, h2, h3, h4, h5, ?_⟩
  cases hs with
  | fault hout => exact hrun.tail (.pageFault (fun hnon => absurd hnon hops) hout)
  | invlpg addr => exact hrun.tail (.invalPage s addr)
  | movCr3 cr3 =>
    have hset : SameShadow s { s with cr3 := cr3 } := ⟨rfl, rfl, rfl, rfl, rfl, rfl⟩
    exact (hrun.tail (.other hset)).tail (.newCr3 { s with cr3 := cr3 })
  | protect slot => exact hrun.tail (.slotRemoveWriteAccess s slot)
  | other hsame => exact hrun.tail (.other hsame)

theorem isWriteProtection_congr (h : ContextKept s s') : isWriteProtection s'.vmcs = isWriteProtection s.vmcs := by
  unfold isWriteProtection guestCr0 vmcsReadl
  rw [h.modes .cr0ReadShadow (by decide), h.modes .guestCr0 (by decide)]

/-- The mode stays. -/
theorem TlbStep.kept (hs : TlbStep s ev s') (h : MmuInv pool lvl r s) (hpool : pool ≠ []) :
    s'.mmu = { s.mmu with rootHpa := s'.mmu.rootHpa } ∧ isWriteProtection s'.vmcs = isWriteProtection s.vmcs := by
  cases hs with
  | fault hout =>
    have hctx := ContextKept.mmuPageFault h hpool hout
    exact ⟨hctx.mmu, isWriteProtection_congr hctx⟩
  | invlpg addr =>
    have hctx := ContextKept.mmuInvalPage s addr
    exact ⟨hctx.mmu, isWriteProtection_congr hctx⟩
  | movCr3 cr3 =>
    have hctx := ContextKept.mmuNewCr3 { s with cr3 := cr3 }
    exact ⟨hctx.mmu, isWriteProtection_congr (s := { s with cr3 := cr3 }) hctx⟩
  | protect slot => rw [kvmMmuSlotRemoveWriteAccess_eq]; exact ⟨rfl, rfl⟩
  | other hsame hwp => exact ⟨by rw [hsame.mmu], hwp⟩

/-- Every step of the shadow tables follows the guest tables. -/
theorem TlbStep.follows (hs : TlbStep s ev s') (h : MmuInv pool lvl r s) (hpool : pool ≠ [])
    (hops : s.mmu.ops ≠ .nonpaging) (hglobal : GlobalEntries s) :
    TableCache.Follows (Translates s.mmu.ops.ptType) (LeafAlters (isWriteProtection s.vmcs))
      (tlbMoment s.mmu.shadowRootLevel (ev, s')) (Caches s) (Caches s') := by
  intro a e hc
  cases hs with
  | @fault addr errorCode fuel out hout =>
    rcases FaultStep.run_caches hpool h (h.levels.isFor hops) (h.faultSteps hpool hops hout) hc with ⟨hva, htr⟩ | ⟨e', hc', ha⟩
    · exact Or.inl ⟨⟨addr, rfl, hva⟩, htr⟩
    · refine Or.inr ⟨e', hc', ha, ?_⟩
      rintro (⟨b, hb, -⟩ | ⟨hb, -⟩) <;> cases hb
  | invlpg addr =>
    have heff := mmuInvalPage_effect h hops addr
    have hmmu := mmuInvalPage_mmu h addr
    refine Or.inr ⟨e, hc.of_cleared (fun p => heff.onPath hmmu) heff.cleared, .refl, ?_⟩
    rintro (⟨b, hb, hsame⟩ | ⟨hb, -⟩)
    · cases hb
      obtain ⟨p, hp, he, h0⟩ := hc
      refine heff.removes hmmu (fun k hk hk' => (hsame k (by omega) hk').symm)
        (Or.inr (hsame 1 le_rfl ?_).symm) ⟨p, hp, Or.inl (by rw [he]; exact h0)⟩
      have := hp.level_le
      rwa [hmmu] at this
    · cases hb
  | movCr3 cr3 =>
    have h' : MmuInv pool lvl r { s with cr3 := cr3 } := h.congr rfl rfl rfl (fun _ => rfl) (fun _ _ => Or.inl) rfl rfl
    have hrel := h'.released_newCr3.2
    have hc' : Caches { s with cr3 := cr3 } a e := hc.of_cleared (fun p hp => .of_released hrel hp) hrel.shadow
    have hold : Caches s a e := hc'.of_same rfl rfl
    refine Or.inr ⟨e, hold, .refl, ?_⟩
    rintro (⟨b, hb, -⟩ | ⟨-, h8⟩)
    · cases hb
    · obtain ⟨p, hp, he, h0⟩ := hc'
      obtain ⟨q, hq, -⟩ := hc
      have hflush : mmuNewCr3 { s with cr3 := cr3 } = kvmMmuFlushTlb { s with cr3 := cr3 } := by
        unfold mmuNewCr3 pagingNewCr3
        cases hm : s.mmu.ops with
        | nonpaging => exact absurd hm hops
        | paging64 => rfl
        | paging32 => rfl
      rw [hflush] at hq
      refine (h'.flushesNonglobal (hglobal.of_same rfl rfl rfl)).unlinks a p hp ?_ ?_ ⟨q, hq⟩
      · rw [he]
        exact BitVec.ne_zero_of_hasBit h0
      · rw [he]
        have := and_ptGlobalMask e
        rw [h8] at this
        simpa using this
  | protect slot =>
    obtain ⟨p, hp, he, h0⟩ := hc
    have hp : OnPath s a 1 p := onPath_slotRemoveWriteAccess.1 hp
    have hnot : ¬(MmuEvent.protect slot).Invalidates s.mmu.shadowRootLevel a e := by
      rintro (⟨b, hb, -⟩ | ⟨hb, -⟩) <;> cases hb
    rw [shadow_slotRemoveWriteAccess] at he
    split at he
    · refine Or.inr ⟨_, ⟨p, hp, rfl, ?_⟩, .single (he ▸ .protect _), hnot⟩
      have hprot : LeafAlters true _ (clearWritable (s.shadow p (pt64Index a 1))) := .protect _
      rwa [← hprot.hasBit (show 0 ≠ 1 by decide) (by decide), he]
    · exact Or.inr ⟨e, ⟨p, hp, he, h0⟩, .refl, hnot⟩
  | other hsame =>
    refine Or.inr ⟨e, hc.of_same hsame.mmu hsame.shadow, .refl, ?_⟩
    rintro (⟨b, hb, -⟩ | ⟨hb, -⟩) <;> cases hb

/-- What holds of the states of an epoch. -/
structure EpochInv (history : List (MmuEvent × Vcpu)) (s : Vcpu) : Prop where
  reachable : MmuReachable s
  ops : s.mmu.ops ≠ .nonpaging
  modes : ∀ x ∈ history, x.2.mmu.rootLevel = s.mmu.rootLevel ∧ isWriteProtection x.2.vmcs = isWriteProtection s.vmcs
  run : TableCache.Run (Translates s.mmu.ops.ptType) (LeafAlters (isWriteProtection s.vmcs))
    (history.map (tlbMoment s.mmu.shadowRootLevel)) (Caches s)

theorem Epoch.inv {history : List (MmuEvent × Vcpu)} (h : Epoch history s) : EpochInv history s := by
  induction h with
  | @reset s h hops =>
    obtain ⟨pool, lvl, r, hinv, hlen⟩ := h.inv
    obtain ⟨lvl', q, -, hnew, -⟩ := kvmMmuResetContext_spec hinv (List.ne_nil_of_length_pos (by omega))
    have hreset : MmuReachable (kvmMmuResetContext s) := by
      obtain ⟨alloc, s₀, s₁, h1, h2, h3, h4, h5, hrun⟩ := h
      exact ⟨alloc, s₀, s₁, h1, h2, h3, h4, h5, hrun.tail (.resetContext s)⟩
    exact ⟨hreset, hops, fun x hx => absurd hx (List.not_mem_nil), .empty fun a e => hnew.not_caches⟩
  | @step history s s' ev _ hs ih =>
    obtain ⟨pool, lvl, r, hinv, hlen⟩ := ih.reachable.inv
    have hpool : pool ≠ [] := List.ne_nil_of_length_pos (by omega)
    obtain ⟨hmmu, hwp⟩ := hs.kept hinv hpool
    obtain ⟨pool', lvl', r', hinv', hglobal⟩ := ih.reachable.globalEntries
    have hops : s'.mmu.ops = s.mmu.ops := by rw [hmmu]
    have hlevel : s'.mmu.shadowRootLevel = s.mmu.shadowRootLevel := by rw [hmmu]
    refine ⟨hs.reachable ih.reachable ih.ops, hops ▸ ih.ops, ?_, ?_⟩
    · refine List.forall_mem_cons.2 ⟨⟨rfl, rfl⟩, fun x hx => ?_⟩
      obtain ⟨hroot, hwp'⟩ := ih.modes x hx
      exact ⟨by rw [hroot, hmmu], hwp'.trans hwp.symm⟩
    · rw [hops, hlevel, hwp]
      exact .step ih.run (hs.follows hinv hpool ih.ops (hglobal ih.ops))

/-- The guest tables, as they are in this state, permit the access and lead to the frame. -/
structure PermittedBy (pt : PtType) (g : Vcpu) (va : BitVec 64) (acc : Access) (f : Pfn) : Prop where
  rights : GuestRightsOk pt g va acc
  frame : guestFrame pt g va = some f
  fetch : acc.isFetch = true → pt = .pt64 → (guestPte pt g va 1).hasBit 63 = false

theorem Translates.permittedBy (htr : Translates pt g va e) (hroot : 1 ≤ g.mmu.rootLevel)
    {p : Pfn} (hp : OnPath s va 1 p) (he : s.shadow p (pt64Index va 1) = e) (hc : CpuPermits s va acc f) : PermittedBy pt g va acc f := by
  obtain ⟨q, hq, h0, hf⟩ := hc.mapped
  obtain rfl := hq.page_unique hp
  rw [he] at h0 hf
  have hone : (1 : Nat) ≠ 3 ∨ isLongMode s.vmcs = true := Or.inl (by decide)
  have huser : acc.user = true → e.hasBit 2 = true := fun hu => he ▸ hc.user hu 1 q hp hone
  have hrw : ∀ {i}, i = 1 ∨ i = 2 → ((guestRights pt g va).hasBit i = true ↔ GuestGrants pt g va i) := fun hi =>
    hasBit_leafRights g va hroot hi htr.present
  refine ⟨⟨htr.present, fun hu => ?_, fun hw => ?_⟩, ?_, fun hx hpt => ?_⟩
  · exact (hrw (Or.inr rfl)).1 (htr.shadowUser.symm.trans (htr.user (huser hu)))
  · rcases htr.writable (he ▸ hc.write hw 1 q hp hone) with h10 | ⟨hoff, h2⟩
    · exact Or.inl ((hrw (Or.inl rfl)).1 (htr.shadowWritable.symm.trans h10))
    · refine Or.inr ⟨Bool.eq_false_iff.2 fun hu => ?_, hoff⟩
      rw [huser hu] at h2
      cases h2
  · obtain ⟨f', hf'⟩ := Option.isSome_iff_exists.1 (htr.mapped.symm.trans h0)
    rw [← hf, htr.frame f' hf']
    exact hf'
  · refine Bool.eq_false_iff.2 fun h63 => hc.fetch hx ⟨1, q, hp, ?_⟩
    rw [he, htr.nx, h63, hpt]
    rfl

/-- **The shadow tables are a translation lookaside buffer.**  Whatever has happened since the last reset of the context,
an access that the processor permits was permitted by the guest tables after a fault for the same page.  Since then
INVLPG has not been executed for the page, and CR3 has not been loaded unless the guest entry had the G bit. -/
theorem shadow_is_tlb {history : List (MmuEvent × Vcpu)} (h : Epoch history s) (hc : CpuPermits s va acc f) :
    ∃ newer addr g older, history = newer ++ (.fault addr, g) :: older ∧ SameEntry s.mmu.shadowRootLevel addr va ∧
      PermittedBy s.mmu.ops.ptType g va acc f ∧
      ∀ x ∈ newer, (∀ b, x.1 = .invlpg b → ¬SameEntry s.mmu.shadowRootLevel b va) ∧
        (x.1 = .movCr3 → (guestPte s.mmu.ops.ptType g va 1).hasBit 8 = true) := by
  have hinv := h.inv
  obtain ⟨p, hp, h0, -⟩ := hc.mapped
  have hharm : ∀ m ∈ history.map (tlbMoment s.mmu.shadowRootLevel),
      TableCache.Harmless (Translates s.mmu.ops.ptType) (LeafAlters (isWriteProtection s.vmcs)) m := by
    intro m hm
    obtain ⟨x, hx, rfl⟩ := List.mem_map.1 hm
    exact harmless_tlbMoment (hinv.modes x hx).2
  obtain ⟨newer, m, older, hlist, hload, hhold, hnot⟩ := hinv.run.loaded hharm ⟨p, hp, rfl, h0⟩
  obtain ⟨newer, rest, rfl, rfl, hrest⟩ := List.map_eq_append_iff.1 hlist
  obtain ⟨⟨ev, g⟩, older, rfl, rfl, rfl⟩ := List.map_eq_cons_iff.1 hrest
  obtain ⟨addr, hev, hsame⟩ := hload
  obtain rfl : ev = .fault addr := hev
  obtain ⟨hlevel, -⟩ := hinv.modes (.fault addr, g) (by simp)
  obtain ⟨pool, lvl, r, hmmu, -⟩ := hinv.reachable.inv
  have hroot : 1 ≤ g.mmu.rootLevel := hlevel ▸ (hmmu.levels.isFor hinv.ops).one_le_rootLevel
  have htr : Translates s.mmu.ops.ptType g va (s.shadow p (pt64Index va 1)) := hhold
  refine ⟨newer, addr, g, older, rfl, hsame, ?_, fun x hx => ⟨fun b hb hsame' => ?_, fun hcr3 => ?_⟩⟩
  · exact htr.permittedBy hroot hp rfl hc
  · exact hnot _ (List.mem_map_of_mem hx) (Or.inl ⟨b, hb, hsame'⟩)
  · refine htr.global (Bool.eq_true_of_not_eq_false fun h8 => ?_)
    exact hnot _ (List.mem_map_of_mem hx) (Or.inr ⟨hcr3, h8⟩)

/-- A fault at address 0 in a guest all of whose entries are present and point to page 0; then the guest changes all
its memory, and goes on reading. -/
theorem shadow_is_tlb_stale : ∃ s g f, g.mem 0 ≠ s.mem 0 ∧ CpuPermits s 0 ⟨.read, false⟩ f ∧
    ∃ newer addr g' older, [(MmuEvent.other, s), (.fault 0, g)] = newer ++ (.fault addr, g') :: older ∧
      SameEntry s.mmu.shadowRootLevel addr 0 ∧ PermittedBy s.mmu.ops.ptType g' 0 ⟨.read, false⟩ f ∧
      ∀ x ∈ newer, (∀ b, x.1 = .invlpg b → ¬SameEntry s.mmu.shadowRootLevel b 0) ∧
        (x.1 = .movCr3 → (guestPte s.mmu.ops.ptType g' 0 1).hasBit 8 = true) := by
  obtain ⟨hstart, hops, -, hsame⟩ := Started.init (smallVcpu vmcs32 0 fun _ => 0x6700000067) rfl rfl rfl
    (by decide) somePages_injective fun _ => rfl
  have hreach : MmuReachable (kvmMmuInit somePages (smallVcpu vmcs32 0 fun _ => 0x6700000067)).1 :=
    ⟨somePages, _, _, somePages_injective, rfl, rfl, rfl, kvmMmuInit_of_alloc (fun _ => rfl) _, .refl⟩
  generalize (kvmMmuInit somePages (smallVcpu vmcs32 0 fun _ => 0x6700000067)).1 = s₀ at hstart hops hsame hreach
  rw [show (contextFor (smallVcpu vmcs32 0 fun _ => 0x6700000067).vmcs none).ops = .paging32 by decide] at hops
  have hg : (guestPte .pt32 (kvmMmuResetContext s₀) 0 1).hasBit 0 = true := ((hsame .pt32).guestPte_le 0 1).le 0 (by decide)
  have hf : (gpaFrame (kvmMmuResetContext s₀).kvm (guestGaddr .pt32 (kvmMmuResetContext s₀) 0)).isSome = true := by
    rw [(hsame .pt32).sameWalks.guestGaddr_eq (by decide), (hsame .pt32).sameWalks.gpaFrame_eq]
    decide
  obtain ⟨pool, hlen, hinv⟩ := hstart.inv
  obtain ⟨lvl, r, hmmu⟩ := hinv.inv
  obtain ⟨out, hout⟩ := Option.isSome_iff_exists.1 (mmuPageFault_isSome hmmu (by omega) 0 0 0)
  obtain ⟨-, hops', hguest, p, hp, he⟩ := hstart.maps_of_pageFault (by rw [hops]; exact hg) (by rw [hops]; exact hf) hout
  have hepoch : Epoch [(.fault 0, out.1)] out.1 :=
    (Epoch.reset hreach (by rw [hops]; decide)).step (.fault hout)
  have hstale : Epoch [(.other, { out.1 with mem := fun a => out.1.mem a + 1 }), (.fault 0, out.1)]
      { out.1 with mem := fun a => out.1.mem a + 1 } := hepoch.step (.other ⟨rfl, rfl, rfl, rfl, rfl, rfl⟩ rfl)
  have hp' : OnPath { out.1 with mem := fun a => out.1.mem a + 1 } 0 1 p :=
    (@OnPath.congr out.1 { out.1 with mem := fun a => out.1.mem a + 1 } _ _ _ rfl rfl rfl).2 hp
  have hc : CpuPermits { out.1 with mem := fun a => out.1.mem a + 1 } 0 ⟨.read, false⟩
      (frameOf (out.1.shadow p (pt64Index 0 1))) :=
    ⟨⟨p, hp', he, rfl⟩, (fun h => nomatch h), (fun h => nomatch h), (fun h => nomatch h)⟩
  exact ⟨_, out.1, _, by simp, hc, shadow_is_tlb hstale hc⟩

end LearnKvm
