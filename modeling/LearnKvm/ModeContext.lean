import LearnKvm.CrShadow
import LearnKvm.Mmu.ContextKept
import LearnKvm.Mmu.Conservation

/-!
# The context matches the mode (`kvm_mmu_reset_context`)

The mode of the guest is determined by CR0.PG, CR4.PAE and the IA32E bit of the entry controls, and every operation on
them either keeps the mode or replaces the context.  So along every run of a vcpu that has been set up, with writes of
the guest and of user space to its registers, faults, INVLPG and changes of the memory slots in any order, the context
is the one that `init_kvm_mmu` would choose, its root is active, and GUEST_CR3 holds the address of the root
(`context_matches_mode`).
-/

namespace LearnKvm

open Relation

variable {pool : List Pfn} {s t : KvmVcpu}

/-- The rest of the machine changes: the commit of `KVM_SET_MEMORY_REGION`, and the guest's own memory and registers. -/
structure Unrelated (s t : KvmVcpu) : Prop where
  shadow : SameShadow s.toVcpu t.toVcpu
  modes : ModesKept s t
  guestCr3 : t.vmcs .guestCr3 = s.vmcs .guestCr3

/-- A step of a vcpu.  `resetContext` is what `KVM_SET_MEMORY_REGION` does to each vcpu after its commit.  Without paging
the CPU raises faults at 32-bit addresses only. -/
inductive VcpuStep : KvmVcpu → KvmVcpu → Prop
  | op {s t : KvmVcpu} (op : ModeOp) (h : op.run s = some t) : VcpuStep s t
  | pageFault {s : KvmVcpu} {addr : BitVec 64} {errorCode : BitVec 32} {fuel : Nat} {out : Vcpu × Bool}
      (haddr : s.mmu.ops = .nonpaging → addr.toNat < 2 ^ 32)
      (h : mmuPageFault s.toVcpu addr errorCode fuel = some out) : VcpuStep s { s with toVcpu := out.1 }
  | invalPage (s : KvmVcpu) (addr : BitVec 64) : VcpuStep s { s with toVcpu := mmuInvalPage s.toVcpu addr }
  | resetContext (s : KvmVcpu) : VcpuStep s s.resetContext
  | other {s t : KvmVcpu} (h : Unrelated s t) : VcpuStep s t

/-- What the context should be. -/
structure MatchesMode (s : KvmVcpu) : Prop where
  /-- `init_kvm_mmu` would choose the same functions and levels. -/
  context : s.mmu = { (initKvmMmu s.toVcpu).mmu with rootHpa := s.mmu.rootHpa }
  root : ∃ r, s.mmu.rootHpa = some r ∧ r ∈ s.kvm.activeMmuPages ∧ frameOf (vmcsReadl s.vmcs .guestCr3) = r

structure ContextInv (pool : List Pfn) (s : KvmVcpu) : Prop where
  mmu : ∃ lvl r, MmuInv pool lvl r s.toVcpu
  context : s.mmu = contextFor s.vmcs s.mmu.rootHpa
  loaded : RootLoaded s.toVcpu
  ia32e : isLongMode s.vmcs = s.shadowEfer.hasBit 10

theorem contextFor_root (v : Vmcs) (x y : Option Pfn) : { contextFor v x with rootHpa := y } = contextFor v y := by
  unfold contextFor
  split
  · rfl
  · split
    · rfl
    · split <;> rfl

theorem ContextInv.matchesMode (h : ContextInv pool s) : MatchesMode s := by
  obtain ⟨lvl, r, hinv⟩ := h.mmu
  refine ⟨?_, r, hinv.root, hinv.tables.forest.root_live r (Set.mem_singleton r), h.loaded r hinv.root⟩
  rw [(initKvmMmu_loaded s.toVcpu).1, contextFor_root]
  exact h.context

namespace ContextInv

/-- Only the VMCS, registers and the memory of the machine change. -/
theorem mmu_of_sameShadow (h : ContextInv pool s) (hs : SameShadow s.toVcpu t.toVcpu) (hpool : pool ≠ []) :
    ∃ lvl r, MmuInv pool lvl r t.toVcpu := by
  obtain ⟨lvl, r, hinv⟩ := h.mmu
  exact MmuCall.inv hinv hpool (.other hs)

/-- A step after which the mode is the same. -/
theorem kept (h : ContextInv pool s) (hmmu : ∃ lvl r, MmuInv pool lvl r t.toVcpu)
    (hctx : t.mmu = { s.mmu with rootHpa := t.mmu.rootHpa }) (hload : RootLoaded t.toVcpu)
    (hp : isPaging t.vmcs = isPaging s.vmcs) (hl : isLongMode t.vmcs = isLongMode s.vmcs)
    (he : isPae t.vmcs = isPae s.vmcs) (hefer : t.shadowEfer.hasBit 10 = s.shadowEfer.hasBit 10) :
    ContextInv pool t where
  mmu := hmmu
  context := by
    rw [contextFor_congr hp hl he, ← contextFor_root s.vmcs s.mmu.rootHpa, ← h.context]
    exact hctx
  loaded := hload
  ia32e := by rw [hl, h.ia32e, hefer]

/-- A step that replaces the context. -/
theorem reset (hpool : pool ≠ []) (hmmu : ∃ lvl r, MmuInv pool lvl r s.toVcpu)
    (hia32e : isLongMode s.vmcs = s.shadowEfer.hasBit 10) : ContextInv pool s.resetContext := by
  obtain ⟨lvl, r, hinv⟩ := hmmu
  obtain ⟨lvl', q, h1, h2, h3⟩ := kvmMmuResetContext_spec hinv hpool
  have hmodes := ModesKept.resetContext s
  refine ⟨⟨lvl', q, h1⟩, ?_, ?_, ?_⟩
  · rw [contextFor_congr hmodes.isPaging hmodes.isLongMode hmodes.isPae]
    show (kvmMmuResetContext s.toVcpu).mmu = contextFor s.vmcs (kvmMmuResetContext s.toVcpu).mmu.rootHpa
    rw [h3, rootHpa_contextFor]
  · exact (initKvmMmu_loaded _).2
  · rw [hmodes.isLongMode, hia32e]
    rfl

/-- A write to the VMCS that does not touch GUEST_CR3. -/
theorem keptVmcs (h : ContextInv pool s) (hpool : pool ≠ []) (heq : t.toVcpu = { s.toVcpu with vmcs := t.vmcs })
    (hcr3 : t.vmcs .guestCr3 = s.vmcs .guestCr3) (hp : isPaging t.vmcs = isPaging s.vmcs)
    (hl : isLongMode t.vmcs = isLongMode s.vmcs) (he : isPae t.vmcs = isPae s.vmcs)
    (hefer : t.shadowEfer.hasBit 10 = s.shadowEfer.hasBit 10) : ContextInv pool t := by
  have hmmu : t.mmu = s.mmu := by rw [heq]
  refine h.kept (h.mmu_of_sameShadow ?_ hpool) (by rw [hmmu]) ?_ hp hl he hefer
  · rw [heq]
    exact ⟨rfl, rfl, rfl, rfl, rfl, rfl⟩
  · intro r hr
    unfold vmcsReadl
    rw [hcr3]
    exact h.loaded r (hmmu ▸ hr)

theorem injectGp (h : ContextInv pool s) (hpool : pool ≠ []) : ContextInv pool s.injectGp := by
  have hmodes := ModesKept.injectGp s
  exact h.keptVmcs hpool rfl (injectGp_guestCr3 s) hmodes.isPaging hmodes.isLongMode hmodes.isPae rfl

/-- The switches of the mode keep the entry controls in step with EFER. -/
theorem rawSetCr0_ia32e {v : BitVec 64} (hs : isLongMode s.vmcs = s.shadowEfer.hasBit 10) (h : rawSetCr0 s v = some t) :
    isLongMode t.vmcs = t.shadowEfer.hasBit 10 := by
  obtain ⟨s1, h1, rfl⟩ := Option.map_eq_some_iff.1 h
  have hu := switchRmode_lmodeKept s v
  have hmode : isLongMode s1.vmcs = s1.shadowEfer.hasBit 10 := by
    have hlma : eferLma.hasBit 10 = true := by decide
    rcases switchLmode_cases h1 with ⟨rfl, -⟩ | ⟨-, -, -, henter⟩ | ⟨-, -, -, rfl⟩
    · rw [hu.isLongMode, hu.shadowEfer, hs]
    · rw [henter.longMode, henter.eq, BitVec.hasBit_or, hlma, Bool.or_true]
    · refine (isLongMode_clear _ _).trans ?_
      show false = (_ &&& ~~~eferLma : BitVec 64).hasBit 10
      simp [hlma]
  rw [isLongMode_eq] at hmode ⊢
  exact hmode

theorem cr0 (h : ContextInv pool s) (hpool : pool ≠ []) {v : BitVec 64} (hs : setCr0 s v = some t) :
    ContextInv pool t := by
  rcases setCr0_cases hs with ⟨-, rfl⟩ | ⟨-, s1, h1, rfl⟩
  · exact h.injectGp hpool
  · refine reset hpool (h.mmu_of_sameShadow ?_ hpool) (rawSetCr0_ia32e h.ia32e h1)
    obtain ⟨s2, h2, rfl⟩ := rawSetCr0_spec h1
    rw [h2.eq]
    exact ⟨rfl, rfl, rfl, rfl, rfl, rfl⟩

theorem cr3 (h : ContextInv pool s) (hpool : pool ≠ []) {v : BitVec 64} (hs : s.setCr3 v = some t) :
    ContextInv pool t := by
  rcases setCr3_cases hs with rfl | rfl
  · exact h.injectGp hpool
  · have hset : ContextInv pool { s with cr3 := v } :=
      h.kept (h.mmu_of_sameShadow ⟨rfl, rfl, rfl, rfl, rfl, rfl⟩ hpool) rfl h.loaded rfl rfl rfl rfl
    obtain ⟨lvl, r, hinv⟩ := hset.mmu
    have hctx := ContextKept.mmuNewCr3 { s.toVcpu with cr3 := v }
    have hmodes : ModesKept { s with cr3 := v } { s with toVcpu := mmuNewCr3 { s.toVcpu with cr3 := v } } :=
      .contextOnly (.mmuNewCr3 _)
    exact hset.kept (MmuCall.inv hinv hpool (.newCr3 _)) hctx.mmu (hctx.root hset.loaded) hmodes.isPaging
      hmodes.isLongMode hmodes.isPae rfl

theorem cr4 (h : ContextInv pool s) (hpool : pool ≠ []) {v : BitVec 64} (hs : setCr4 s v = some t) :
    ContextInv pool t := by
  obtain ⟨s1, hs1, ht⟩ := setCr4_cases hs
  have h1 : ContextInv pool s1 := by
    rcases hs1 with rfl | rfl
    · exact h
    · exact h.injectGp hpool
  rcases ht with rfl | rfl
  · exact h1.injectGp hpool
  · refine reset hpool (h1.mmu_of_sameShadow ⟨rfl, rfl, rfl, rfl, rfl, rfl⟩ hpool) ?_
    rw [(rawSetCr4_lmodeKept s1 v).isLongMode, h1.ia32e]
    rfl

theorem efer (h : ContextInv pool s) (hpool : pool ≠ []) {v : BitVec 64} (hs : setEfer s v = some t) :
    ContextInv pool t := by
  obtain ⟨heq, hcr3⟩ := setEfer_toVcpu hs
  rcases setEfer_cases hs with hkept | ⟨-, i, efer, -, rfl, hkept⟩
  · exact h.keptVmcs hpool heq hcr3 hkept.isPaging hkept.isLongMode hkept.isPae (by rw [hkept.shadowEfer])
  · refine h.keptVmcs hpool heq hcr3 hkept.isPaging hkept.isLongMode hkept.isPae ?_
    have hlma : eferLma.hasBit 10 = true := by decide
    rw [hkept.shadowEfer]
    show (v &&& ~~~eferLma ||| s.shadowEfer &&& eferLma).hasBit 10 = _
    simp [hlma]

theorem lmsw (h : ContextInv pool s) (hpool : pool ≠ []) (msw : BitVec 64) : ContextInv pool (LearnKvm.lmsw s msw) := by
  have hkept := lmsw_lmodeKept s msw
  refine h.keptVmcs hpool ?_ ?_ hkept.isPaging hkept.isLongMode ?_ (by rw [hkept.shadowEfer])
  · unfold LearnKvm.lmsw
    dsimp only
    split <;> rfl
  · unfold LearnKvm.lmsw
    dsimp only
    split <;> rfl
  · rw [isPae_eq, isPae_eq]
    unfold LearnKvm.lmsw
    dsimp only
    split <;> rfl

/-- When none of CR3, EFER, CR0 and CR4 differs, the mode is the same. -/
theorem setSregs (h : ContextInv pool s) (hpool : pool ≠ []) {sregs : KvmSregs}
    (hs : LearnKvm.setSregs s sregs = some t) : ContextInv pool t := by
  obtain ⟨s1, hl, rfl⟩ := setSregs_spec hs
  have hshadow : SameShadow s.toVcpu s1.toVcpu := by
    rw [hl.toVcpu]
    exact ⟨rfl, rfl, rfl, rfl, rfl, rfl⟩
  have hia32e : isLongMode s1.vmcs = s1.shadowEfer.hasBit 10 := by rw [hl.longMode, hl.shadowEfer]
  split
  · exact reset hpool (h.mmu_of_sameShadow hshadow hpool) hia32e
  · rename_i hsame
    simp only [sregsDiffer, Bool.or_eq_true, bne_iff_ne, ne_eq, not_or, not_not] at hsame
    obtain ⟨⟨⟨-, hefer⟩, hcr0⟩, hcr4⟩ := hsame
    have hmmu : s1.mmu = s.mmu := by rw [hl.toVcpu]
    refine h.kept (h.mmu_of_sameShadow hshadow hpool) (by rw [hmmu]) ?_ ?_ ?_ ?_ (by rw [hl.shadowEfer, hefer])
    · intro r hr
      unfold vmcsReadl
      rw [hl.guestCr3]
      exact h.loaded r (hmmu ▸ hr)
    · rw [isPaging_eq, isPaging_eq, hl.cr0ReadShadow, ← hcr0, hasBit_guestCr0 _ (by decide)]
    · rw [hl.longMode, h.ia32e, hefer]
    · rw [isPae_eq, isPae_eq, hl.cr4ReadShadow, ← hcr4, hasBit_guestCr4 _ (by decide)]

/-- Every step keeps the invariant. -/
theorem step (h : ContextInv pool s) (hpool : pool ≠ []) (hs : VcpuStep s t) : ContextInv pool t := by
  obtain ⟨lvl, r, hinv⟩ := h.mmu
  have hcall : ∀ v, MmuCall s.toVcpu v → ContextKept s.toVcpu v → ContextInv pool { s with toVcpu := v } := by
    intro v hcall hctx
    have hmodes : ModesKept s { s with toVcpu := v } := ⟨hctx.modes, rfl, rfl, rfl, rfl⟩
    exact h.kept (MmuCall.inv hinv hpool hcall) hctx.mmu (hctx.root h.loaded) hmodes.isPaging hmodes.isLongMode
      hmodes.isPae rfl
  cases hs with
  | op op hop =>
    match op, hop with
    | .write (.cr0 v), hop => exact h.cr0 hpool hop
    | .write (.cr3 v), hop => exact h.cr3 hpool hop
    | .write (.cr4 v), hop => exact h.cr4 hpool hop
    | .write (.efer v), hop => exact h.efer hpool hop
    | .write (.lmsw v), hop =>
      obtain rfl := Option.some.inj hop
      exact h.lmsw hpool v
    | .setSregs sregs, hop => exact h.setSregs hpool hop
  | pageFault haddr hf => exact hcall _ (.pageFault haddr hf) (.mmuPageFault hinv hpool hf)
  | invalPage addr => exact hcall _ (.invalPage _ addr) (.mmuInvalPage _ addr)
  | resetContext => exact reset hpool h.mmu h.ia32e
  | other hu =>
    refine h.kept (h.mmu_of_sameShadow hu.shadow hpool) (by rw [hu.shadow.mmu]) ?_ hu.modes.isPaging
      hu.modes.isLongMode hu.modes.isPae (by rw [hu.modes.shadowEfer])
    intro r hr
    unfold vmcsReadl
    rw [hu.guestCr3]
    exact h.loaded r (hu.shadow.mmu ▸ hr)

theorem run (h : ContextInv pool s) (hpool : pool ≠ []) (hs : ReflTransGen VcpuStep s t) : ContextInv pool t := by
  induction hs with
  | refl => exact h
  | tail _ hstep ih => exact ih.step hpool hstep

end ContextInv

/-! ### Runs -/

/-- The state after a successful set-up of a vcpu that had no shadow pages; `alloc_page` gives distinct pages. -/
def FirstSetUp (s : KvmVcpu) : Prop :=
  ∃ (host : Host) (allocs : Allocs) (c c' : VcpuAlloc), (initRmodeTss c.toVcpu).isSome = true ∧
    kvmVcpuSetup host allocs c = some (c', 0) ∧ s = c'.toKvmVcpu ∧
    (c.freePages = [] ∧ c.kvm.activeMmuPages = [] ∧ c.failed = []) ∧
    ∀ i j p, allocs.mmuPages i = some p → allocs.mmuPages j = some p → i = j

theorem kvmMmuInit_loaded {alloc : Fin 256 → Option Pfn} {v v' : Vcpu} (h : kvmMmuInit alloc v = (v', true)) :
    RootLoaded v' := by
  unfold kvmMmuInit at h
  split at h
  · cases h
  · obtain rfl := congrArg Prod.fst h
    exact (initKvmMmu_loaded _).2

theorem FirstSetUp.contextInv (h : FirstSetUp s) : ∃ pool, pool ≠ [] ∧ ContextInv pool s := by
  obtain ⟨host, allocs, c, c', htss, hsetup, rfl, ⟨hfree, hactive, hfailed⟩, hdistinct⟩ := h
  have hstart : RealModeStart c'.toKvmVcpu := SetUp.start ⟨host, allocs, c, c', htss, hsetup, rfl⟩
  obtain ⟨t, ht⟩ := kvmVcpuSetup_done htss hsetup
  obtain ⟨hl1, hl2, hl3⟩ := ht.lists
  obtain ⟨hlen, lvl, q, hinv, hroot, hmmu⟩ :=
    kvmMmuInit_spec hdistinct (hl1.trans hfree) (hl2.trans hactive) (hl3.trans hfailed) ht.mmu
  have hmodes : ModesKept t c'.toKvmVcpu := by
    have hctx := ContextOnly.kvmMmuInit allocs.mmuPages t.toVcpu
    rw [ht.mmu] at hctx
    rw [ht.eq]
    exact .contextOnly hctx
  refine ⟨mmuPool allocs.mmuPages, List.ne_nil_of_length_pos (by omega), ⟨lvl, q, hinv⟩, ?_, kvmMmuInit_loaded ht.mmu, ?_⟩
  · rw [contextFor_congr hmodes.isPaging hmodes.isLongMode hmodes.isPae, hmmu, rootHpa_contextFor]
  · rw [hstart.longMode, hstart.efer]
    decide

/-- **The MMU context always matches the CPU mode.** -/
theorem context_matches_mode {s₀ : KvmVcpu} (h₀ : FirstSetUp s₀) (hrun : ReflTransGen VcpuStep s₀ s) : MatchesMode s := by
  obtain ⟨pool, hpool, h⟩ := h₀.contextInv
  exact (h.run hpool hrun).matchesMode

/-- Right after set-up and one replacement of the context. -/
theorem context_matches_mode_reset : ∃ s, FirstSetUp s ∧ MatchesMode s.resetContext := by
  obtain ⟨c', hc'⟩ := @kvmVcpuSetup_ok eferHost someAllocs smallVm smallVm_tss rfl rfl (fun _ => rfl) rfl
  have hfirst : FirstSetUp c'.toKvmVcpu :=
    ⟨eferHost, someAllocs, smallVm, c', smallVm_tss, hc', rfl, ⟨rfl, rfl, rfl⟩, somePages_injective⟩
  exact ⟨c'.toKvmVcpu, hfirst, context_matches_mode hfirst (.single (.resetContext _))⟩

end LearnKvm
