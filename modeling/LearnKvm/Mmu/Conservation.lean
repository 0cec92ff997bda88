import LearnKvm.Mmu.Nonpaging

/-!
# Conservation of shadow pages

A vcpu whose MMU has been initialised handles faults, invalidates pages, loads CR3, changes its mode and loses write
access to slots, in any order (`MmuCall`); between two calls the guest and the rest of the host may change everything
that is not a shadow page.  `Conservation` says of the pool of shadow pages what then holds in every state.
-/

namespace LearnKvm

open Relation LinkForest

variable {pool : List Pfn} {lvl : Pfn → Nat} {r : Pfn} {s s' : Vcpu}

/-- The pool of shadow pages is used without loss. -/
structure Conservation (pool : List Pfn) (s : Vcpu) : Prop where
  /-- Each page header is on exactly one of the two lists. -/
  lists : pool.Nodup ∧ (s.freePages ++ s.kvm.activeMmuPages).Perm pool
  /-- The active pages are those reached from the root. -/
  reached : ∀ p, p ∈ s.kvm.activeMmuPages ↔ ∃ l, Reaches s l p
  /-- A page other than the root is referenced by one entry, the one its header names. -/
  linked : ∀ q ∈ s.kvm.activeMmuPages, s.mmu.rootHpa ≠ some q → ∃ p i,
    (s.header q).parentPte = some ⟨p, i⟩ ∧
      ∀ p' j, (∃ l, Reaches s (l + 2) p' ∧ (s.shadow p' j).hasBit 0 = true ∧ frameOf (s.shadow p' j) = q) ↔
        p' = p ∧ j = i
  /-- Free pages are empty. -/
  free_zero : ∀ p ∈ s.freePages, ∀ i, s.shadow p i = 0
  leaf : ∀ p, Reaches s 1 p → ∀ i, LeafEntry (s.shadow p i)
  asserts : s.failed = []

/-- Every active page is reached from the root. -/
theorem MmuInv.reaches (h : MmuInv pool lvl r s) {p : Pfn} (hp : p ∈ s.kvm.activeMmuPages) : Reaches s (lvl p) p := by
  -- climbing along the back pointers raises the level, up to that of the root
  induction hn : s.mmu.shadowRootLevel - lvl p generalizing p with
  | zero =>
    have hle := h.tables.forest.level_le p hp
    simp only [linksOf] at hle
    have hR := h.tables.forest.root_of_level_top hp (show lvl p = _ by omega)
    obtain rfl : p = r := hR
    rw [h.level_root]
    exact .root h.root
  | succ n ih =>
    have hne : p ∉ ({r} : Set Pfn) := by
      rintro rfl
      have := h.level_root
      omega
    obtain ⟨q, i, hq, hc⟩ := h.tables.forest.linked p hp hne
    have hlev := h.tables.forest.child_level q i p hq hc
    simp only [linksOf] at hlev
    obtain ⟨hlev2, hpres, rfl⟩ := Tables.child_some_iff.1 hc
    have hreach := ih hq (by omega)
    obtain ⟨l, hl⟩ : ∃ l, lvl q = l + 2 := ⟨lvl q - 2, by omega⟩
    rw [hl] at hreach
    rw [show lvl (frameOf (s.shadow q i)) = l + 1 by omega]
    exact .down hreach hpres

theorem MmuInv.conservation (h : MmuInv pool lvl r s) : Conservation pool s where
  lists := ⟨h.tables.nodup, h.tables.perm⟩
  reached p := ⟨fun hp => ⟨lvl p, h.reaches hp⟩, fun ⟨_, hp⟩ => (h.active_of_reaches hp).1⟩
  linked q hq hne := by
    have hR : q ∉ ({r} : Set Pfn) := by
      rintro rfl
      exact hne h.root
    obtain ⟨p, i, hp, hc⟩ := h.tables.forest.linked q hq hR
    refine ⟨p, i, h.tables.parentPte_eq hp hc, fun p' j => ⟨?_, ?_⟩⟩
    · rintro ⟨l, hreach, hpres, rfl⟩
      obtain ⟨hact, hlev⟩ := h.active_of_reaches hreach
      exact h.tables.forest.link_unique hact hp (Tables.child_eq (by omega) hpres) hc
    · rintro ⟨rfl, rfl⟩
      obtain ⟨hlev, hpres, hframe⟩ := Tables.child_some_iff.1 hc
      refine ⟨lvl p' - 2, ?_, hpres, hframe⟩
      rw [show lvl p' - 2 + 2 = lvl p' by omega]
      exact h.reaches hp
  free_zero := h.tables.free_zero
  leaf p hp := by
    obtain ⟨hact, hlev⟩ := h.active_of_reaches hp
    exact h.tables.leaf p hact hlev
  asserts := h.failed

/-- The parts of the state that belong to the shadow pages are the same. -/
structure SameShadow (s s' : Vcpu) : Prop where
  mmu : s'.mmu = s.mmu
  freePages : s'.freePages = s.freePages
  active : s'.kvm.activeMmuPages = s.kvm.activeMmuPages
  header : s'.header = s.header
  shadow : s'.shadow = s.shadow
  failed : s'.failed = s.failed

/-- A call into the MMU, or a change of anything but the shadow pages between two calls.  Without paging the CPU raises
faults at 32-bit addresses only. -/
inductive MmuCall : Vcpu → Vcpu → Prop
  | pageFault {s : Vcpu} {addr : BitVec 64} {errorCode : BitVec 32} {fuel : Nat} {out : Vcpu × Bool}
      (haddr : s.mmu.ops = .nonpaging → addr.toNat < 2 ^ 32) (h : mmuPageFault s addr errorCode fuel = some out) :
      MmuCall s out.1
  | invalPage (s : Vcpu) (addr : BitVec 64) : MmuCall s (mmuInvalPage s addr)
  | newCr3 (s : Vcpu) : MmuCall s (mmuNewCr3 s)
  | resetContext (s : Vcpu) : MmuCall s (kvmMmuResetContext s)
  | slotRemoveWriteAccess (s : Vcpu) (slot : Fin 4) : MmuCall s (kvmMmuSlotRemoveWriteAccess s slot)
  | other {s s' : Vcpu} (h : SameShadow s s') : MmuCall s s'

/-- In a paging mode a call of the fault handler is a sequence of its steps. -/
theorem MmuInv.faultSteps (h : MmuInv pool lvl r s) (hpool : pool ≠ []) (hops : s.mmu.ops ≠ .nonpaging) {addr : BitVec 64}
    {errorCode : BitVec 32} {fuel : Nat} {out : Vcpu × Bool} (hs : mmuPageFault s addr errorCode fuel = some out) :
    ReflTransGen (FaultStep s.mmu.ops.ptType addr) s out.1 := by
  have hfor := h.levels.isFor hops
  unfold LearnKvm.mmuPageFault at hs
  cases hc : s.mmu.ops with
  | nonpaging => exact absurd hc hops
  | paging64 =>
    rw [hc] at hs hfor
    exact pageFault_steps hpool h hfor hs
  | paging32 =>
    rw [hc] at hs hfor
    exact pageFault_steps hpool h hfor hs

/-- A fault is handled by steps of the context. -/
theorem MmuInv.pageFault_run (h : MmuInv pool lvl r s) (hpool : pool ≠ []) {addr : BitVec 64} {errorCode : BitVec 32}
    {fuel : Nat} {out : Vcpu × Bool} (hs : mmuPageFault s addr errorCode fuel = some out) :
    out = (s, true) ∨
      (s.mmu.ops = .nonpaging ∧ isErrorHpa (gpaToHpa s.kvm (addr &&& pt64BaseAddrMask)) = false ∧
        ReflTransGen (NonpagingStep (addr &&& pageMask) (gpaToHpa s.kvm (addr &&& pt64BaseAddrMask))) s out.1) ∨
      s.mmu.ops ≠ .nonpaging ∧ ReflTransGen (FaultStep s.mmu.ops.ptType addr) s out.1 := by
  by_cases hops : s.mmu.ops = .nonpaging
  · unfold LearnKvm.mmuPageFault at hs
    rw [hops] at hs
    have hlev := h.levels
    unfold KvmMmu.LevelsOk at hlev
    rw [hops] at hlev
    rcases nonpagingPageFault_spec hpool h hlev.2 hs with ⟨-, heq⟩ | ⟨herr, hsteps⟩
    · exact Or.inl heq
    · exact Or.inr (Or.inl ⟨hops, herr, hsteps⟩)
  · exact Or.inr (Or.inr ⟨hops, h.faultSteps hpool hops hs⟩)

theorem MmuInv.mmuPageFault (h : MmuInv pool lvl r s) (hpool : pool ≠ []) {addr : BitVec 64} {errorCode : BitVec 32}
    {fuel : Nat} {out : Vcpu × Bool} (hs : mmuPageFault s addr errorCode fuel = some out) :
    ∃ lvl' r', MmuInv pool lvl' r' out.1 := by
  rcases h.pageFault_run hpool hs with rfl | ⟨-, -, hsteps⟩ | ⟨-, hsteps⟩
  · exact ⟨lvl, r, h⟩
  · exact (NonpagingStep.run (P := fun _ => True) hpool (fun _ _ _ => trivial) h trivial hsteps).1
  · exact (FaultStep.run_sameGuest hpool h hsteps).1

/-- `paging_inval_page` empties entries and drops pages; it may write GUEST_CR3. -/
theorem MmuInv.released_invalPage (h : MmuInv pool lvl r s) (addr : BitVec 64) :
    ∃ s1 v, Released s s1 ∧ MmuInv pool lvl r s1 ∧ mmuInvalPage s addr = { s1 with vmcs := v } := by
  have hpage : ∃ s1 v, Released s s1 ∧ MmuInv pool lvl r s1 ∧
      pagingInvalPage addr s.mmu.shadowRootLevel s (rootPage s) = { s1 with vmcs := v } := by
    rw [h.rootPage_eq]
    obtain ⟨s1, h1, hrel, heq | ⟨v, heq⟩⟩ := pagingInvalPage_spec addr h (.root h.root)
    · exact ⟨s1, s1.vmcs, hrel, h1, heq⟩
    · exact ⟨s1, _, hrel, h1, heq⟩
  unfold mmuInvalPage
  split
  · exact ⟨s, s.vmcs, .refl s, h, rfl⟩
  · exact hpage
  · exact hpage

theorem MmuInv.released_newCr3 (h : MmuInv pool lvl r s) : MmuInv pool lvl r (mmuNewCr3 s) ∧ Released s (mmuNewCr3 s) := by
  unfold mmuNewCr3 pagingNewCr3
  split
  · exact ⟨h, .refl s⟩
  · exact ⟨(kvmMmuFlushTlb_spec h).1, (kvmMmuFlushTlb_spec h).2.1⟩
  · exact ⟨(kvmMmuFlushTlb_spec h).1, (kvmMmuFlushTlb_spec h).2.1⟩

/-- Every call keeps the invariant. -/
theorem MmuCall.inv (h : MmuInv pool lvl r s) (hpool : pool ≠ []) (hs : MmuCall s s') :
    ∃ lvl' r', MmuInv pool lvl' r' s' := by
  cases hs with
  | pageFault _ hs => exact h.mmuPageFault hpool hs
  | invalPage addr =>
    obtain ⟨s1, v, -, h1, heq⟩ := h.released_invalPage addr
    exact ⟨lvl, r, heq ▸ h1.congr rfl rfl rfl (fun _ => rfl) (fun _ _ => Or.inl) rfl rfl⟩
  | newCr3 => exact ⟨lvl, r, h.released_newCr3.1⟩
  | resetContext =>
    obtain ⟨lvl', q, h1, -, -⟩ := kvmMmuResetContext_spec h hpool
    exact ⟨lvl', q, h1⟩
  | slotRemoveWriteAccess slot => exact ⟨lvl, r, kvmMmuSlotRemoveWriteAccess_spec h slot⟩
  | other hs =>
    exact ⟨lvl, r, h.congr hs.freePages hs.active hs.shadow (fun p => by rw [hs.header])
      (fun p _ hg => Or.inl (by rwa [hs.header] at hg)) hs.mmu hs.failed⟩

theorem MmuCall.run_inv (h : MmuInv pool lvl r s) (hpool : pool ≠ []) (hs : ReflTransGen MmuCall s s') :
    ∃ lvl' r', MmuInv pool lvl' r' s' := by
  induction hs with
  | refl => exact ⟨lvl, r, h⟩
  | tail _ hstep ih =>
    obtain ⟨lvl', r', h'⟩ := ih
    exact hstep.inv h' hpool

/-- A fault is handled in at most two attempts, so calls of the fault handler return. -/
theorem mmuPageFault_isSome (h : MmuInv pool lvl r s) (hpool : 4 ≤ pool.length) (addr : BitVec 64)
    (errorCode : BitVec 32) (fuel : Nat) : (mmuPageFault s addr errorCode (fuel + 2)).isSome = true := by
  unfold mmuPageFault
  have hfor := h.levels.isFor
  cases hops : s.mmu.ops with
  | nonpaging =>
    have hlev := h.levels
    unfold KvmMmu.LevelsOk at hlev
    rw [hops] at hlev
    exact nonpagingPageFault_isSome hpool fuel h hlev.2
  | paging64 =>
    rw [hops] at hfor
    exact pageFault_isSome hpool fuel h (hfor (by decide)) errorCode
  | paging32 =>
    rw [hops] at hfor
    exact pageFault_isSome hpool fuel h (hfor (by decide)) errorCode

/-- A state of a vcpu whose `kvm_mmu_init` succeeded. -/
def MmuReachable (s : Vcpu) : Prop :=
  ∃ (alloc : Fin 256 → Option Pfn) (s₀ s₁ : Vcpu), (∀ i j p, alloc i = some p → alloc j = some p → i = j) ∧
    s₀.freePages = [] ∧ s₀.kvm.activeMmuPages = [] ∧ s₀.failed = [] ∧ kvmMmuInit alloc s₀ = (s₁, true) ∧
    ReflTransGen MmuCall s₁ s

theorem MmuReachable.inv (h : MmuReachable s) : ∃ pool lvl r, MmuInv pool lvl r s ∧ pool.length = 256 := by
  obtain ⟨alloc, s₀, s₁, hdistinct, hfree, hactive, hfailed, hinit, hrun⟩ := h
  obtain ⟨hlen, lvl, q, h, -, -⟩ := kvmMmuInit_spec hdistinct hfree hactive hfailed hinit
  obtain ⟨lvl', r', h'⟩ := MmuCall.run_inv h (List.ne_nil_of_length_pos (by omega)) hrun
  exact ⟨mmuPool alloc, lvl', r', h', hlen⟩

/-- The pages 1 to 256. -/
def somePages (i : Fin 256) : Option Pfn := some (BitVec.ofNat 40 (i + 1))

theorem somePages_injective : ∀ i j p, somePages i = some p → somePages j = some p → i = j := by
  intro i j p hi hj
  have h := congrArg BitVec.toNat (Option.some.inj (hi.trans hj.symm))
  rw [BitVec.toNat_ofNat, BitVec.toNat_ofNat, Nat.mod_eq_of_lt (by omega), Nat.mod_eq_of_lt (by omega)] at h
  omega

/-- **Conservation of shadow pages**, for every vcpu whose `kvm_mmu_init` succeeded and every sequence of calls. -/
theorem shadow_pages_conserved {alloc : Fin 256 → Option Pfn}
    (hdistinct : ∀ i j p, alloc i = some p → alloc j = some p → i = j) {s₀ s₁ : Vcpu} (hfree : s₀.freePages = [])
    (hactive : s₀.kvm.activeMmuPages = []) (hfailed : s₀.failed = []) (hinit : kvmMmuInit alloc s₀ = (s₁, true))
    {s : Vcpu} (hrun : ReflTransGen MmuCall s₁ s) :
    (mmuPool alloc).length = kvmNumMmuPages ∧ Conservation (mmuPool alloc) s := by
  obtain ⟨hlen, lvl, q, h, -, -⟩ := kvmMmuInit_spec hdistinct hfree hactive hfailed hinit
  obtain ⟨lvl', r', h'⟩ := MmuCall.run_inv h (List.ne_nil_of_length_pos (by omega)) hrun
  exact ⟨hlen, h'.conservation⟩

theorem shadow_pages_conserved_reset :
    (mmuPool somePages).length = kvmNumMmuPages ∧
      Conservation (mmuPool somePages) (kvmMmuResetContext (kvmMmuInit somePages default).1) :=
  shadow_pages_conserved somePages_injective rfl rfl rfl (kvmMmuInit_of_alloc (fun _ => rfl) default)
    (.single (.resetContext _))

end LearnKvm
