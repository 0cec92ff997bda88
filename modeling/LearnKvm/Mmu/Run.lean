import LearnKvm.Mmu.Sound

/-!
# Runs in a paging mode

`Started s₀ s`: after `kvm_mmu_reset_context` in a paging mode the fault handler has been called, pages have been
invalidated, write access to slots has been withdrawn and the guest has run, while the guest kept its tables and its
control registers (`PagingStep`).  All these steps keep the shadow tables sound, and `shadow_sound` says what that means
for an address.
-/

namespace LearnKvm

open Relation

variable {pool : List Pfn} {lvl : Pfn → Nat} {r : Pfn} {s s' : Vcpu} {pt : PtType} {va : BitVec 64}
  {D : Set (BitVec 64)}

/-- A step of a vcpu in a paging mode, with constant guest tables: a call of the fault handler, `INVLPG`, the withdrawal
of write access, or the guest and the host doing something else. -/
inductive PagingStep : Vcpu → Vcpu → Prop
  | pageFault {s : Vcpu} {addr : BitVec 64} {errorCode : BitVec 32} {fuel : Nat} {out : Vcpu × Bool}
      (h : mmuPageFault s addr errorCode fuel = some out) : PagingStep s out.1
  | invalPage (s : Vcpu) (addr : BitVec 64) : PagingStep s (mmuInvalPage s addr)
  | slotRemoveWriteAccess (s : Vcpu) (slot : Fin 4) : PagingStep s (kvmMmuSlotRemoveWriteAccess s slot)
  | other {s s' : Vcpu} (h : SameShadow s s') (hg : SamePaging s.mmu.ops.ptType s s') : PagingStep s s'

/-! ### The slot bitmaps -/

/-- Only pages of level one have memory of slots. -/
def UpperSlots (s : Vcpu) : Prop := ∀ va l p, OnPath s va (l + 2) p → (s.header p).slotBitmap = 0

theorem UpperSlots.congr (h : UpperSlots s) (hpath : ∀ va l p, OnPath s' va (l + 2) p → OnPath s va (l + 2) p)
    (hheader : ∀ va l p, OnPath s va (l + 2) p → (s'.header p).slotBitmap = (s.header p).slotBitmap) :
    UpperSlots s' := fun va l p hp => (hheader va l p (hpath va l p hp)).trans (h va l p (hpath va l p hp))

theorem UpperSlots.of_same (h : UpperSlots s) (hmmu : s'.mmu = s.mmu) (hshadow : s'.shadow = s.shadow)
    (hheader : s'.header = s.header) : UpperSlots s' :=
  h.congr (fun _ _ _ => (OnPath.congr (by rw [hmmu]) (by rw [hmmu]) hshadow).1) fun _ _ _ _ => by rw [hheader]

theorem UpperSlots.of_newRoot {q : Pfn} (h : NewRoot pool q s s') : UpperSlots s' := by
  intro va l p hp
  obtain ⟨-, rfl⟩ := h.onPath hp
  rw [h.header]

/-- An entry of level one is written, and the header of its page. -/
theorem UpperSlots.writeLeaf {p : Pfn} {i : Fin 512} {e : BitVec 64} (hu : UpperSlots s) (h : MmuInv pool lvl r s)
    (hp : OnPath s va 1 p) (hmmu : s'.mmu = s.mmu) (hshadow : s'.shadow = (s.writePte ⟨p, i⟩ e).shadow)
    (hheader : ∀ q ≠ p, s'.header q = s.header q) : UpperSlots s' := by
  have hlev := (h.active_of_onPath hp).2
  refine hu.congr (fun va' l q hq => ?_) fun va' l q hq => ?_
  · exact (h.onPath_writeLeaf hlev _ e).1 ((OnPath.congr (by rw [hmmu]; rfl) (by rw [hmmu]; rfl) hshadow).1 hq)
  · have hlev' := (h.active_of_onPath hq).2
    rw [hheader q (by rintro rfl; omega)]

/-- A page is linked. -/
theorem UpperSlots.linkPage {l : Nat} {p q : Pfn} {rest : List Pfn} {flags : BitVec 64} (hu : UpperSlots s)
    (h : MmuInv pool lvl r s) (hp : OnPath s va (l + 2) p) (hf : s.freePages = q :: rest) (h0 : flags.hasBit 0 = true)
    (haddr : ∀ i, 12 ≤ i → i < 52 → flags.hasBit i = false) :
    UpperSlots (s.linkPage ⟨p, pt64Index va (l + 2)⟩ q rest flags) := by
  intro va' k x hx
  rcases onPath_of_linkPage h hp hf h0 haddr hx with hx' | rfl
  · have hne : x ≠ q := by
      rintro rfl
      exact h.tables.not_free_of_active (h.active_of_onPath hx').1 (hf ▸ List.mem_cons_self)
    refine Eq.trans ?_ (hu va' k x hx')
    simp [Vcpu.linkPage, Vcpu.activate, Vcpu.writePte, hne]
  · simp [Vcpu.linkPage, Vcpu.activate, Vcpu.writePte]

theorem FaultStep.upperSlots (h : MmuInv pool lvl r s) (hpool : pool ≠ []) (hu : UpperSlots s)
    (hstep : FaultStep pt va s s') : UpperSlots s' := by
  cases hstep with
  | accessed => exact hu.of_same rfl rfl rfl
  | @link l p q rest hp hz hf hg =>
    obtain ⟨h0, haddr, -⟩ := @hasBit_linkFlags pt s (l + 2) _ hg
    exact hu.linkPage h hp hf h0 haddr
  | mark hp he => exact hu.congr (fun _ _ _ => onPath_of_markLarge) fun _ _ _ _ => rfl
  | @leaf p hp hz hg => exact hu.writeLeaf h hp (e := leafPte pt s va) rfl rfl fun q hq => if_neg hq
  | flush =>
    obtain ⟨lvl', q, -, h1, -⟩ := nonpagingFlush_spec h hpool
    exact .of_newRoot h1
  | @dirty p hp =>
    exact hu.writeLeaf h hp (e := dirtyPte (s.shadow p (pt64Index va 1))) rfl rfl fun _ _ => rfl
  | zap hp => exact hu.writeLeaf h hp (e := 0) rfl rfl fun _ _ => rfl
  | @user p hp => exact hu.writeLeaf h hp (e := userPte (s.shadow p (pt64Index va 1))) rfl rfl fun _ _ => rfl
  | inject errCode =>
    rw [injectPageFault_frame]
    exact hu.of_same rfl rfl rfl

/-! ### Dropping entries -/

/-- Pages are released and entries emptied without the guest noticing. -/
theorem Released.sameGuest (h : Released s s') : SameGuest pt s s' := by
  rw [h.frame]
  exact .of_eq rfl rfl rfl (fun gpa => gpaToHpa_congr rfl rfl rfl gpa) rfl fun _ _ => rfl

theorem MmuInv.sameGuest_invalPage (h : MmuInv pool lvl r s) (addr : BitVec 64) : SameGuest pt s (mmuInvalPage s addr) := by
  have hpage : SameGuest pt s (pagingInvalPage addr s.mmu.shadowRootLevel s r) := by
    obtain ⟨s1, -, hrel, heq⟩ := pagingInvalPage_spec addr h (.root h.root)
    rcases heq with heq | ⟨v, heq⟩
    · rw [heq]
      exact hrel.sameGuest
    · rw [heq]
      refine hrel.sameGuest.trans (.of_eq rfl rfl rfl (fun _ => rfl) rfl fun f hf => vmcsReadl_vmcsWritel_of_ne ?_)
      rintro rfl
      simp at hf
  rw [← h.rootPage_eq] at hpage
  unfold mmuInvalPage
  split
  · exact .refl s
  · exact hpage
  · exact hpage

/-! ### Every step keeps the tables sound -/

/-- What holds between two steps. -/
structure PagingInv (pool : List Pfn) (D : Set (BitVec 64)) (s : Vcpu) : Prop where
  inv : ∃ lvl r, MmuInv pool lvl r s
  ops : s.mmu.ops ≠ .nonpaging
  sound : ShadowSound s.mmu.ops.ptType D s
  upperSlots : UpperSlots s

namespace PagingInv

theorem isFor (h : PagingInv pool D s) : s.mmu.IsFor s.mmu.ops.ptType := by
  obtain ⟨lvl, r, hinv⟩ := h.inv
  exact hinv.levels.isFor h.ops

theorem faultSteps (h : PagingInv pool D s) (hpool : pool ≠ []) (hD : IndexClosed s.mmu.shadowRootLevel D)
    (hrun : ReflTransGen (FaultStep s.mmu.ops.ptType va) s s') :
    PagingInv pool D s' ∧ s'.mmu = { s.mmu with rootHpa := s'.mmu.rootHpa } := by
  obtain ⟨lvl, r, hinv⟩ := h.inv
  obtain ⟨hinv', -, hmmu, hs'⟩ := FaultStep.run_sound hpool hinv h.isFor hD h.sound hrun
  have hu := (FaultStep.run hpool (fun h' hu hstep => hstep.upperSlots h' hpool hu) hinv h.upperSlots hrun).2
  have hops : s'.mmu.ops = s.mmu.ops := by rw [hmmu]
  exact ⟨⟨hinv', hops ▸ h.ops, hops ▸ hs', hu⟩, hmmu⟩

theorem pageFault_steps (h : PagingInv pool D s) (hpool : pool ≠ []) {addr : BitVec 64} {errorCode : BitVec 32}
    {fuel : Nat} {out : Vcpu × Bool} (hs : mmuPageFault s addr errorCode fuel = some out) :
    ReflTransGen (FaultStep s.mmu.ops.ptType addr) s out.1 := by
  obtain ⟨lvl, r, hinv⟩ := h.inv
  exact hinv.faultSteps hpool h.ops hs

theorem invalPage (h : PagingInv pool D s) (addr : BitVec 64) :
    PagingInv pool D (mmuInvalPage s addr) ∧ (mmuInvalPage s addr).mmu = s.mmu := by
  obtain ⟨lvl, r, hinv⟩ := h.inv
  have hsame := @MmuInv.sameGuest_invalPage _ _ _ _ s.mmu.ops.ptType hinv addr
  obtain ⟨s1, v, hrel, h1, heq⟩ := hinv.released_invalPage addr
  have hframe := hrel.frame
  have hmmu : s1.mmu = s.mmu := by rw [hframe]
  have hpath : ∀ va l p, OnPath (mmuInvalPage s addr) va l p → OnPath s va l p := fun va l p hp => by
    rw [heq] at hp
    exact .of_released hrel ((@OnPath.congr s1 { s1 with vmcs := v } _ _ _ rfl rfl rfl).1 hp)
  rw [heq] at hsame hpath ⊢
  refine ⟨⟨⟨lvl, r, h1.congr rfl rfl rfl (fun _ => rfl) (fun _ _ => Or.inl) rfl rfl⟩, hmmu ▸ h.ops, ?_, ?_⟩, hmmu⟩
  · have := h.sound.mono h.isFor hsame.sameWalks hpath hrel.shadow
    rwa [← hmmu] at this
  · exact h.upperSlots.congr (fun va l p => hpath va _ p) fun va l p _ => by
      show (s1.header p).slotBitmap = _
      rw [hframe]

/-- The entries of upper pages stay as they are when write access to a slot is withdrawn. -/
theorem slotRemoveWriteAccess (h : PagingInv pool D s) (slot : Fin 4) :
    PagingInv pool D (kvmMmuSlotRemoveWriteAccess s slot) := by
  obtain ⟨lvl, r, hinv⟩ := h.inv
  have hinv' := kvmMmuSlotRemoveWriteAccess_spec hinv slot
  have hentry : ∀ p i, (kvmMmuSlotRemoveWriteAccess s slot).shadow p i = s.shadow p i ∨
      (kvmMmuSlotRemoveWriteAccess s slot).shadow p i = clearWritable (s.shadow p i) ∧
        (s.header p).slotBitmap ≠ 0 := by
    intro p i
    rw [shadow_slotRemoveWriteAccess]
    split
    · rename_i hbit
      exact Or.inr ⟨rfl, BitVec.ne_zero_of_hasBit hbit.2⟩
    · exact Or.inl rfl
  have hsame : SameGuest s.mmu.ops.ptType s (kvmMmuSlotRemoveWriteAccess s slot) := by
    rw [kvmMmuSlotRemoveWriteAccess_eq]
    exact .of_eq rfl rfl rfl (fun _ => rfl) rfl fun _ _ => rfl
  have hpath : ∀ va l p, OnPath (kvmMmuSlotRemoveWriteAccess s slot) va l p → OnPath s va l p := fun _ _ _ =>
    onPath_slotRemoveWriteAccess.1
  have hmmu := mmu_slotRemoveWriteAccess s slot
  have hheader := header_slotRemoveWriteAccess s slot
  generalize kvmMmuSlotRemoveWriteAccess s slot = s' at *
  have hroot := h.isFor.one_le_rootLevel
  refine ⟨⟨lvl, r, hinv'⟩, hmmu ▸ h.ops, ?_, h.upperSlots.congr (fun va l p => hpath va _ p) fun _ _ p _ => by rw [hheader]⟩
  rw [hmmu]
  refine ⟨fun va l p hp hpres hg => ?_, fun va p hD hp hne => ?_⟩
  · have hp := hpath va _ p hp
    rw [hsame.sameWalks.present_iff hroot] at hg
    have he := (hentry p (pt64Index va (l + 2))).resolve_right fun he => he.2 (h.upperSlots va l p hp)
    rw [he] at hpres ⊢
    exact (h.sound.upper va l p hp hpres hg).sameWalks h.isFor (by omega) hp.level_le hsame.sameWalks
  · have hp := hpath va _ p hp
    rcases hentry p (pt64Index va 1) with he | ⟨he, -⟩
    · rw [he] at hne ⊢
      exact (h.sound.leaf va p hD hp hne).sameWalks hroot hsame.sameWalks
    · rw [he] at hne ⊢
      refine ((h.sound.leaf va p hD hp fun h0 => hne ?_).clearWritable).sameWalks hroot hsame.sameWalks
      rw [h0]
      rfl

theorem other (h : PagingInv pool D s) (hs : SameShadow s s') (hg : SamePaging s.mmu.ops.ptType s s') :
    PagingInv pool D s' := by
  obtain ⟨lvl, r, hinv⟩ := h.inv
  have hr : s'.mmu.rootHpa = s.mmu.rootHpa := by rw [hs.mmu]
  have hl : s'.mmu.shadowRootLevel = s.mmu.shadowRootLevel := by rw [hs.mmu]
  refine ⟨⟨lvl, r, hinv.congr hs.freePages hs.active hs.shadow (fun p => by rw [hs.header])
    (fun p _ hgl => Or.inl (by rwa [hs.header] at hgl)) hs.mmu hs.failed⟩, hs.mmu ▸ h.ops, ?_,
    h.upperSlots.congr (fun _ _ _ => (OnPath.congr hr hl hs.shadow).1) fun _ _ _ _ => by rw [hs.header]⟩
  rw [hs.mmu]
  exact h.sound.congr h.isFor (hg.sameWalks (by rw [hs.mmu])) hr hl hs.shadow

theorem step (h : PagingInv pool D s) (hpool : pool ≠ []) (hD : IndexClosed s.mmu.shadowRootLevel D)
    (hs : PagingStep s s') : PagingInv pool D s' ∧ s'.mmu = { s.mmu with rootHpa := s'.mmu.rootHpa } := by
  cases hs with
  | pageFault hs => exact h.faultSteps hpool hD (h.pageFault_steps hpool hs)
  | invalPage addr =>
    obtain ⟨h1, h2⟩ := h.invalPage addr
    exact ⟨h1, by rw [h2]⟩
  | slotRemoveWriteAccess slot =>
    refine ⟨h.slotRemoveWriteAccess slot, ?_⟩
    rw [kvmMmuSlotRemoveWriteAccess_eq]
  | other hs hg => exact ⟨h.other hs hg, by rw [hs.mmu]⟩

theorem run (h : PagingInv pool D s) (hpool : pool ≠ []) (hD : IndexClosed s.mmu.shadowRootLevel D)
    (hs : ReflTransGen PagingStep s s') :
    PagingInv pool D s' ∧ s'.mmu = { s.mmu with rootHpa := s'.mmu.rootHpa } := by
  induction hs with
  | refl => exact ⟨h, rfl⟩
  | tail _ hstep ih =>
    obtain ⟨h1, h2⟩ := ih
    obtain ⟨h3, h4⟩ := h1.step hpool (by rw [h2]; exact hD) hstep
    exact ⟨h3, by rw [h4, h2]⟩

end PagingInv

/-- A vcpu in a paging mode, after `kvm_mmu_reset_context` in the state `s₀`. -/
structure Started (s₀ s : Vcpu) : Prop where
  reachable : MmuReachable s₀
  paging : isPaging s₀.vmcs = true
  run : ReflTransGen PagingStep (kvmMmuResetContext s₀) s

theorem ops_contextFor {v : Vmcs} (h : isPaging v = true) (root : Option Pfn) : (contextFor v root).ops ≠ .nonpaging := by
  unfold contextFor
  rw [h]
  simp only [Bool.not_true, Bool.false_eq_true, if_false]
  split
  · simp
  · split <;> simp

theorem Started.inv {s₀ : Vcpu} (h : Started s₀ s) : ∃ pool, pool.length = 256 ∧ PagingInv pool Set.univ s := by
  obtain ⟨pool, lvl, r, h0, hlen⟩ := h.reachable.inv
  have hpool : pool ≠ [] := List.ne_nil_of_length_pos (by omega)
  obtain ⟨lvl1, q, h1, h2, h3⟩ := kvmMmuResetContext_spec h0 hpool
  have hreset : PagingInv pool Set.univ (kvmMmuResetContext s₀) :=
    ⟨⟨lvl1, q, h1⟩, h3 ▸ ops_contextFor h.paging _, .of_newRoot h2, .of_newRoot h2⟩
  exact ⟨pool, hlen, (hreset.run hpool (indexClosed_univ _) h.run).1⟩

/-- A new vcpu in a paging mode is started by `kvm_mmu_init` and a reset. -/
theorem Started.init (s₀ : Vcpu) (hfree : s₀.freePages = []) (hactive : s₀.kvm.activeMmuPages = [])
    (hfailed : s₀.failed = []) (hpaging : isPaging s₀.vmcs = true) {alloc : Fin 256 → Option Pfn}
    (hdistinct : ∀ i j p, alloc i = some p → alloc j = some p → i = j) (halloc : ∀ i, (alloc i).isSome = true) :
    Started (kvmMmuInit alloc s₀).1 (kvmMmuResetContext (kvmMmuInit alloc s₀).1) ∧
      (kvmMmuResetContext (kvmMmuInit alloc s₀).1).mmu.ops = (contextFor s₀.vmcs none).ops ∧
      (∀ f, f ≠ .guestCr3 → (kvmMmuResetContext (kvmMmuInit alloc s₀).1).vmcs f = s₀.vmcs f) ∧
      ∀ pt, SameGuest pt { s₀ with mmu := contextFor s₀.vmcs none } (kvmMmuResetContext (kvmMmuInit alloc s₀).1) := by
  have hinit := kvmMmuInit_of_alloc halloc s₀
  obtain ⟨hlen, lvl, q, h1, h2, h3⟩ := kvmMmuInit_spec hdistinct hfree hactive hfailed hinit
  have hreach : MmuReachable (kvmMmuInit alloc s₀).1 :=
    ⟨alloc, s₀, _, hdistinct, hfree, hactive, hfailed, hinit, .refl⟩
  generalize (kvmMmuInit alloc s₀).1 = s1 at *
  obtain ⟨lvl', q', h4, h5, h6⟩ := kvmMmuResetContext_spec h1 (List.ne_nil_of_length_pos (by omega))
  have hfields : ∀ f, f ≠ .guestCr3 → (kvmMmuResetContext s1).vmcs f = s₀.vmcs f := fun f hf =>
    (h5.vmcs f hf).trans (h2.vmcs f hf)
  have hmodes : ∀ root, contextFor s1.vmcs root = contextFor s₀.vmcs root ∧ isPaging s1.vmcs = isPaging s₀.vmcs := by
    intro root
    have hf := h2.vmcs
    unfold contextFor isPaging isLongMode isPae vmcsRead32 guestCr0 LearnKvm.guestCr4 vmcsReadl
    simp only [hf .cr0ReadShadow (by decide), hf .guestCr0 (by decide), hf .vmEntryControls (by decide),
      hf .cr4ReadShadow (by decide), hf .guestCr4 (by decide), and_self]
  have hroot : ∀ root, (contextFor s₀.vmcs root).ops = (contextFor s₀.vmcs none).ops ∧
      (contextFor s₀.vmcs root).rootLevel = (contextFor s₀.vmcs none).rootLevel := by
    intro root
    unfold contextFor
    split
    · exact ⟨rfl, rfl⟩
    · split
      · exact ⟨rfl, rfl⟩
      · split <;> exact ⟨rfl, rfl⟩
  refine ⟨⟨hreach, (hmodes none).2.trans hpaging, .refl⟩, ?_, hfields, fun pt => .of_eq ?_ ?_ ?_ (fun gpa => ?_) ?_ fun f hf => ?_⟩
  · rw [h6, (hmodes _).1, (hroot _).1]
  · rw [h6, (hmodes _).1]
    exact (hroot _).2
  · exact h5.cr3.trans h2.cr3
  · exact h5.badPage.trans h2.badPage
  · rw [h5.kvm, h2.kvm]
    exact gpaToHpa_congr rfl rfl rfl gpa
  · exact h5.mem.trans h2.mem
  · refine hfields f ?_
    rintro rfl
    simp at hf

/-- The fault handler maps an address that the guest maps to a page of a slot. -/
theorem Started.maps_of_pageFault {s₀ : Vcpu} (h : Started s₀ s) {errorCode : BitVec 32} {fuel : Nat} {out : Vcpu × Bool}
    (hg : (guestPte s.mmu.ops.ptType s va 1).hasBit 0 = true)
    (hf : (gpaFrame s.kvm (guestGaddr s.mmu.ops.ptType s va)).isSome = true)
    (hout : mmuPageFault s va errorCode fuel = some out) :
    Started s₀ out.1 ∧ out.1.mmu.ops = s.mmu.ops ∧ SameGuest s.mmu.ops.ptType s out.1 ∧
      ∃ p, OnPath out.1 va 1 p ∧ (out.1.shadow p (pt64Index va 1)).hasBit 0 = true := by
  obtain ⟨pool, hlen, hinv⟩ := h.inv
  have hpool : pool ≠ [] := List.ne_nil_of_length_pos (by omega)
  obtain ⟨lvl, r, h1⟩ := hinv.inv
  have hroot := hinv.isFor.one_le_rootLevel
  have hsteps := hinv.pageFault_steps hpool hout
  obtain ⟨hinv', hmmu⟩ := hinv.faultSteps hpool (indexClosed_univ _) hsteps
  have hops : out.1.mmu.ops = s.mmu.ops := by rw [hmmu]
  have hguest := (FaultStep.run_sameGuest hpool h1 hsteps).2
  have hsame := hguest.sameWalks
  obtain ⟨p, hp, hne⟩ : ∃ p, OnPath out.1 va 1 p ∧ out.1.shadow p (pt64Index va 1) ≠ 0 := by
    have hfor := hinv.isFor
    have hout' := hout
    unfold mmuPageFault at hout'
    cases hc : s.mmu.ops with
    | nonpaging => exact absurd hc hinv.ops
    | paging64 =>
      rw [hc] at hout' hfor hg
      exact pageFault_found hpool h1 hfor hg hout'
    | paging32 =>
      rw [hc] at hout' hfor hg
      exact pageFault_found hpool h1 hfor hg hout'
  refine ⟨⟨h.reachable, h.paging, h.run.tail (.pageFault hout)⟩, hops, hguest, p, hp, ?_⟩
  have hleaf := hinv'.sound.leaf va p trivial hp hne
  rw [hops] at hleaf
  rwa [hleaf.mapped, hsame.guestGaddr_eq hroot, hsame.gpaFrame_eq]

/-- So there is a state in which the address is mapped. -/
theorem Started.pageFault_maps {s₀ : Vcpu} (h : Started s₀ s) (errorCode : BitVec 32)
    (hg : (guestPte s.mmu.ops.ptType s va 1).hasBit 0 = true)
    (hf : (gpaFrame s.kvm (guestGaddr s.mmu.ops.ptType s va)).isSome = true) :
    ∃ s' p, Started s₀ s' ∧ s'.mmu.ops = s.mmu.ops ∧ OnPath s' va 1 p ∧
      (s'.shadow p (pt64Index va 1)).hasBit 0 = true := by
  obtain ⟨pool, hlen, hinv⟩ := h.inv
  obtain ⟨lvl, r, h1⟩ := hinv.inv
  obtain ⟨out, hout⟩ := Option.isSome_iff_exists.1 (mmuPageFault_isSome h1 (by omega) va errorCode 0)
  obtain ⟨hstart, hops, -, p, hp, he⟩ := h.maps_of_pageFault hg hf hout
  exact ⟨out.1, p, hstart, hops, hp, he⟩

/-! ### The tables as a whole -/

/-- Some entry of the shadow tables on the path of `va` forbids execution. -/
def ShadowNx (s : Vcpu) (va : BitVec 64) : Prop :=
  ∃ l p, OnPath s va l p ∧ (s.shadow p (pt64Index va l)).hasBit 63 = true

/-- Some entry of the guest walk of `va` forbids execution; a page-directory pointer of the PAE format has no such
bit. -/
def GuestNx (pt : PtType) (s : Vcpu) (va : BitVec 64) : Prop :=
  ∃ k, guestLevel pt s va ≤ k ∧ k ≤ s.mmu.rootLevel ∧ (k ≠ 3 ∨ isLongMode s.vmcs = true) ∧
    (guestPte pt s va k).hasBit 63 = true

/-- The shadow tables forbid execution where the guest tables do. -/
theorem ShadowSound.nx_iff (hs : ShadowSound pt D s) (h : MmuInv pool lvl r s) (hfor : s.mmu.IsFor pt) {p : Pfn}
    (hD : va ∈ D) (hp : OnPath s va 1 p) (hne : s.shadow p (pt64Index va 1) ≠ 0) : ShadowNx s va ↔ GuestNx pt s va := by
  have hleaf := hs.leaf va p hD hp hne
  have hupper := fun l q hq he => hs.upper va l q hq he hleaf.present
  have hgl := guestLevel_of_present s va hfor.one_le_rootLevel hleaf.present
  have hgl1 := @one_le_guestLevel pt s va hfor.one_le_rootLevel
  have hglR : guestLevel pt s va ≤ s.mmu.rootLevel :=
    (level_fetchGuest s (initWalker s) va hfor.one_le_rootLevel).2
  have hpteL := @guestPte_of_le_guestLevel pt s va _ hgl1 hglR le_rfl
  cases pt with
  | pt32 =>
    refine iff_of_false ?_ ?_
    · rintro ⟨l, q, hq, hnx⟩
      obtain ⟨q', hq', hpres⟩ := hp.above l (h.pos_of_onPath hq) hq.level_le
      obtain rfl := hq'.page_unique hq
      match l, h.pos_of_onPath hq with
      | 1, _ =>
        obtain rfl := hq.page_unique hp
        rw [hleaf.nx] at hnx
        simp at hnx
      | l + 2, _ =>
        rw [(hupper l q' hq (hpres (by omega))).nx] at hnx
        simp at hnx
    · rintro ⟨k, -, -, -, hnx⟩
      have := @entryBits_readEntry .pt32 s _ 63 hnx
      simp [PtType.bytes] at this
  | pt64 =>
    obtain ⟨hroot, -⟩ := hfor
    constructor
    · rintro ⟨l, q, hq, hnx⟩
      obtain ⟨q', hq', hpres⟩ := hp.above l (h.pos_of_onPath hq) hq.level_le
      obtain rfl := hq'.page_unique hq
      match l, h.pos_of_onPath hq with
      | 1, _ =>
        obtain rfl := hq.page_unique hp
        rw [hleaf.nx] at hnx
        refine ⟨guestLevel .pt64 s va, le_rfl, hglR, Or.inl (by omega), ?_⟩
        rw [hpteL]
        simpa using hnx
      | l + 2, _ =>
        rw [(hupper l q' hq (hpres (by omega))).nx] at hnx
        simp only [decide_true, Bool.true_and, Bool.and_eq_true, Bool.or_eq_true, decide_eq_true_eq] at hnx
        exact ⟨l + 2, by omega, hroot ▸ hq.level_le, hnx.1, hnx.2⟩
    · rintro ⟨k, hk, hk', hk3, hnx⟩
      rcases Nat.eq_or_lt_of_le (hgl1.trans hk) with rfl | h1
      · refine ⟨1, p, hp, ?_⟩
        rw [hleaf.nx, hnx]
        rfl
      · obtain ⟨l, rfl⟩ : ∃ l, k = l + 2 := ⟨k - 2, by omega⟩
        obtain ⟨q, hq, hpres⟩ := hp.above (l + 2) (by omega) (hroot ▸ hk')
        refine ⟨l + 2, q, hq, ?_⟩
        rw [(hupper l q hq (hpres (by omega))).nx, hnx]
        simpa using hk3

/-- What an entry that is present in the shadow tables for `va` says about the guest tables. -/
structure SoundAt (pt : PtType) (s : Vcpu) (va : BitVec 64) (e : BitVec 64) : Prop where
  /-- The guest walk is present at every level. -/
  walk : ∀ k, guestLevel pt s va ≤ k → k ≤ s.mmu.rootLevel → isPresentPte (guestPte pt s va k) = true
  mapped : gvaToGpa pt s va ≠ unmappedGva ∧ isErrorHpa (gpaToHpa s.kvm (gvaToGpa pt s va)) = false
  frame : frameOf e = frameOf (gpaToHpa s.kvm (gvaToGpa pt s va))
  user : e.hasBit 2 = true → GuestGrants pt s va 2
  writable : e.hasBit 1 = true → (guestPte pt s va 1).hasBit 6 = true ∧
    (GuestGrants pt s va 1 ∨ isWriteProtection s.vmcs = false ∧ e.hasBit 2 = false)
  nx : ShadowNx s va ↔ GuestNx pt s va

/-- **Shadow soundness.**  After `kvm_mmu_reset_context` in a paging mode and any run with constant guest tables, every
present entry of level one that an address reaches is explained by the guest tables. -/
theorem shadow_sound {s₀ : Vcpu} (h : Started s₀ s) (va : BitVec 64) {p : Pfn} (hp : OnPath s va 1 p)
    (he : isPresentPte (s.shadow p (pt64Index va 1)) = true) :
    SoundAt s.mmu.ops.ptType s va (s.shadow p (pt64Index va 1)) := by
  obtain ⟨pool, -, hinv'⟩ := h.inv
  obtain ⟨lvl, r, hinv⟩ := hinv'.inv
  have hfor := hinv'.isFor
  have hs := hinv'.sound
  rw [isPresentPte_eq] at he
  have hne := BitVec.ne_zero_of_hasBit he
  have hleaf := hs.leaf va p trivial hp hne
  have hroot := hfor.one_le_rootLevel
  generalize s.mmu.ops.ptType = pt at *
  obtain ⟨f, hf⟩ := Option.isSome_iff_exists.1 (hleaf.mapped.symm.trans he)
  have hgfn := gfnOf_gvaToGpa hleaf.present
  have hf' : gpaFrame s.kvm (gvaToGpa pt s va) = some f := (gpaFrame_congr hgfn).trans hf
  refine ⟨fun k hk hk' => ?_, ⟨?_, ?_⟩, ?_, fun hu => ?_, fun hw => ⟨hleaf.dirty hw, ?_⟩,
    hs.nx_iff hinv hfor trivial hp hne⟩
  · by_contra hn
    rw [isPresentPte_eq, Bool.not_eq_true] at hn
    have h1 := @one_le_guestLevel pt s va hroot
    have := guestPte_not_present s va (h1.trans hk) hk' hn
    rw [← this, hleaf.present] at hn
    cases hn
  · -- the page of the address is below bit 52
    intro hun
    have hlt : gfnOf (guestGaddr pt s va) < 2 ^ 40 :=
      gfnOf_lt_of_addrBits (addrBits_leafGaddr _ (entryBits_readEntry s _) va)
    rw [hun] at hgfn
    exact absurd (hgfn.trans_lt hlt) (by decide)
  · rw [isErrorHpa_gpaToHpa, hf']
    rfl
  · rw [hleaf.frame f hf, frameOf_gpaToHpa hf']
  · exact (hasBit_leafRights s va hroot (Or.inr rfl) hleaf.present).1 (hleaf.shadowUser.symm.trans (hleaf.user hu))
  · rcases hleaf.writable hw with h10 | h10
    · exact Or.inl ((hasBit_leafRights s va hroot (Or.inl rfl) hleaf.present).1 (hleaf.shadowWritable.symm.trans h10))
    · exact Or.inr h10

/-- A guest with one slot of 16 pages at address 0, given by the 64-bit words in its memory. -/
def smallVcpu (vmcs : Vmcs) (cr3 : BitVec 64) (words : Nat → BitVec 64) : Vcpu :=
  { (default : Vcpu) with
    kvm := { (default : Kvm) with
      nmemslots := 1
      memslots := fun _ => { baseGfn := 0, npages := 16, flags := 0, physMem := 1, dirtyBitmap := 0 }
      pageArray := fun _ n => BitVec.ofNat 40 (n + 0x1000) }
    vmcs := vmcs
    cr3 := cr3
    badPage := 0x2000
    mem := fun a => Bits.field (8 * (a.toNat % 8)) 8 (words (a.toNat / 8)) }

/-- 32-bit paging with write protection off. -/
def vmcs32 : Vmcs := Function.update (fun _ => 0) .cr0ReadShadow (cr0PgMask ||| cr0PeMask)

/-- A fault at address 0 in a guest all of whose entries are present, accessed and dirty and point to page 0. -/
theorem shadow_sound_fault : ∃ s p, OnPath s 0 1 p ∧ SoundAt s.mmu.ops.ptType s 0 (s.shadow p (pt64Index 0 1)) := by
  obtain ⟨hstart, hops, -, hsame⟩ := Started.init (smallVcpu vmcs32 0 fun _ => 0x6700000067) rfl rfl rfl
    (by decide) somePages_injective fun _ => rfl
  generalize kvmMmuResetContext _ = s at hstart hops hsame
  rw [show (contextFor (smallVcpu vmcs32 0 fun _ => 0x6700000067).vmcs none).ops = .paging32 by decide] at hops
  -- the walk is present and ends in a page of the slot
  have hg : (guestPte .pt32 s 0 1).hasBit 0 = true := ((hsame .pt32).guestPte_le 0 1).le 0 (by decide)
  have hf : (gpaFrame s.kvm (guestGaddr .pt32 s 0)).isSome = true := by
    rw [(hsame .pt32).sameWalks.guestGaddr_eq (by decide), (hsame .pt32).sameWalks.gpaFrame_eq]
    decide
  obtain ⟨s', p, hstart', -, hp, he⟩ := hstart.pageFault_maps 0 (by rw [hops]; exact hg) (by rw [hops]; exact hf)
  exact ⟨s', p, hp, shadow_sound hstart' 0 hp ((isPresentPte_eq _).trans he)⟩

end LearnKvm
