import LearnKvm.Mmu.Frame
import LearnKvm.Mmu.Conservation

/-!
# The context between two replacements

Between two calls of `kvm_mmu_reset_context` the function pointers and the levels of the context stay what they are, in
whatever state the functions of the MMU are called; the root can be exchanged, and GUEST_CR3 then gets its address
(`ContextKept`).
-/

namespace LearnKvm

/-- GUEST_CR3 holds the address of the root. -/
def RootLoaded (s : Vcpu) : Prop := ∀ r, s.mmu.rootHpa = some r → frameOf (vmcsReadl s.vmcs .guestCr3) = r

/-- The context and the VMCS are the same. -/
structure Quiet (s s' : Vcpu) : Prop where
  mmu : s'.mmu = s.mmu
  vmcs : s'.vmcs = s.vmcs

namespace Quiet

variable {s s' s'' : Vcpu}

theorem refl (s : Vcpu) : Quiet s s := ⟨rfl, rfl⟩

theorem trans (h : Quiet s s') (h' : Quiet s' s'') : Quiet s s'' := ⟨h'.mmu.trans h.mmu, h'.vmcs.trans h.vmcs⟩

theorem foldl {α : Type*} {f : Vcpu → α → Vcpu} (hf : ∀ s a, Quiet s (f s a)) (l : List α) (s : Vcpu) :
    Quiet s (l.foldl f s) := by
  induction l generalizing s with
  | nil => exact refl s
  | cons a l ih => exact (hf s a).trans (ih (f s a))

theorem writePte (s : Vcpu) (ptr : PtePtr) (e : BitVec 64) : Quiet s (s.writePte ptr e) := ⟨rfl, rfl⟩

theorem kvmMmuAllocPage (s : Vcpu) (ptr : Option PtePtr) : Quiet s (kvmMmuAllocPage s ptr).1 := by
  unfold LearnKvm.kvmMmuAllocPage
  split
  · exact refl s
  · unfold Vcpu.assert
    dsimp only
    split <;> exact ⟨rfl, rfl⟩

theorem kvmMmuFreePage (s : Vcpu) (page : Pfn) : Quiet s (kvmMmuFreePage s page) := ⟨rfl, rfl⟩

theorem releasePtPage64 (level : Nat) (s : Vcpu) (page : Pfn) : Quiet s (releasePtPage64 level s page) := by
  induction level using Nat.strong_induction_on generalizing s page with
  | _ level ih =>
    match level with
    | 0 => exact kvmMmuFreePage s page
    | 1 => exact ⟨rfl, rfl⟩
    | level + 2 =>
      unfold LearnKvm.releasePtPage64
      refine (foldl (fun s i => ?_) _ s).trans (kvmMmuFreePage _ page)
      dsimp only
      split
      · exact (writePte s _ _).trans (ih (level + 1) (by omega) _ _)
      · exact writePte s _ _

theorem pageHeaderUpdateSlot (s : Vcpu) (page : Pfn) (gpa : BitVec 64) : Quiet s (pageHeaderUpdateSlot s page gpa) := by
  unfold LearnKvm.pageHeaderUpdateSlot
  split
  · exact refl s
  · exact ⟨rfl, rfl⟩

end Quiet

/-- The context is the same but for its root, and a new root is loaded. -/
structure ContextKept (s s' : Vcpu) : Prop where
  mmu : s'.mmu = { s.mmu with rootHpa := s'.mmu.rootHpa }
  root : RootLoaded s → RootLoaded s'
  modes : ∀ f ∈ [VmcsField.cr0ReadShadow, .guestCr0, .cr4ReadShadow, .guestCr4, .vmEntryControls], s'.vmcs f = s.vmcs f

namespace ContextKept

variable {s s' s'' : Vcpu}

theorem trans (h : ContextKept s s') (h' : ContextKept s' s'') : ContextKept s s'' where
  mmu := by rw [h'.mmu, h.mmu]
  root hr := h'.root (h.root hr)
  modes f hf := (h'.modes f hf).trans (h.modes f hf)

theorem refl (s : Vcpu) : ContextKept s s := ⟨rfl, id, fun _ _ => rfl⟩

end ContextKept

/-- A change of the VMCS outside of GUEST_CR3 and the fields for the mode. -/
theorem ContextKept.of_vmcs {s s' : Vcpu} (hm : s'.mmu = s.mmu)
    (hv : ∀ f ∈ [VmcsField.guestCr3, .cr0ReadShadow, .guestCr0, .cr4ReadShadow, .guestCr4, .vmEntryControls],
      s'.vmcs f = s.vmcs f) : ContextKept s s' where
  mmu := by rw [hm]
  root hr r hroot := by
    unfold vmcsReadl
    rw [hv .guestCr3 (by decide)]
    exact hr r (hm ▸ hroot)
  modes f hf := hv f (List.mem_cons_of_mem _ hf)

theorem Quiet.contextKept {s s' : Vcpu} (h : Quiet s s') : ContextKept s s' :=
  .of_vmcs h.mmu fun f _ => by rw [h.vmcs]

/-- The address of a root, with the cache flags of CR3. -/
theorem frameOf_root (r : Pfn) (flags : BitVec 64) (h : ∀ i, 12 ≤ i → i < 52 → flags.hasBit i = false) :
    frameOf (hpaOf r ||| flags) = r :=
  frameOf_eq fun i h12 h52 => by rw [BitVec.hasBit_or, h i h12 h52, Bool.or_false]

theorem cr3PageFlags_high (s : Vcpu) (i : Nat) (h12 : 12 ≤ i) (_ : i < 52) : (cr3PageFlags s).hasBit i = false := by
  have hmask : (cr3PcdMask ||| cr3WptMask).hasBit i = false := by
    unfold cr3PcdMask cr3WptMask
    rw [BitVec.hasBit_or, Bits.hasBit_one_shiftLeft (by decide), Bits.hasBit_one_shiftLeft (by decide)]
    simp
    omega
  unfold cr3PageFlags
  rw [BitVec.hasBit_and, hmask, Bool.and_false]

/-- A state whose GUEST_CR3 has just been written for its root. -/
theorem rootLoaded_write {s : Vcpu} {v : Vmcs} (flags : BitVec 64) (hflags : ∀ i, 12 ≤ i → i < 52 → flags.hasBit i = false)
    (h : s.vmcs = vmcsWritel v .guestCr3 (hpaOfOption s.mmu.rootHpa ||| flags)) : RootLoaded s := by
  intro r hr
  rw [h, vmcsReadl_vmcsWritel_self, hr]
  exact frameOf_root r flags hflags

theorem nonpagingFlush_contextKept (s : Vcpu) : ContextKept s (nonpagingFlush s) := by
  unfold nonpagingFlush
  dsimp only
  have hrelease := Quiet.releasePtPage64 s.mmu.shadowRootLevel s (rootPage s)
  generalize releasePtPage64 s.mmu.shadowRootLevel s (rootPage s) = s1 at hrelease
  have halloc := Quiet.kvmMmuAllocPage s1 none
  generalize kvmMmuAllocPage s1 none = out at halloc
  obtain ⟨s2, root⟩ := out
  have hquiet := hrelease.trans halloc
  have hmmu : s2.mmu = s.mmu := hquiet.mmu
  have hvmcs : s2.vmcs = s.vmcs := hquiet.vmcs
  refine ⟨?_, fun _ => ?_, fun f hf => ?_⟩
  · show { s2.mmu with rootHpa := root } = _
    rw [hmmu]
  · dsimp only
    split
    · exact rootLoaded_write _ (cr3PageFlags_high _) rfl
    · refine rootLoaded_write (v := s2.vmcs) 0 (fun i _ _ => BitVec.hasBit_zero i) ?_
      rw [show (0 : BitVec 64) = 0#64 from rfl, BitVec.or_zero]
  · rw [← hvmcs]
    refine vmcsReadl_vmcsWritel_of_ne ?_
    rintro rfl
    revert hf
    decide

theorem injectPageFault_contextKept (s : Vcpu) (addr : BitVec 64) (errCode : BitVec 32) :
    ContextKept s (injectPageFault s addr errCode) := by
  have hwrite : ∀ (e x : BitVec 32), ∀ f ∈ [VmcsField.guestCr3, .cr0ReadShadow, .guestCr0, .cr4ReadShadow, .guestCr4,
      .vmEntryControls], vmcsWrite32 (vmcsWrite32 s.vmcs .vmEntryExceptionErrorCode e) .vmEntryIntrInfoField x f =
        s.vmcs f := by
    intro e x f hf
    refine (vmcsReadl_vmcsWritel_of_ne ?_).trans (vmcsReadl_vmcsWritel_of_ne ?_)
    · rintro rfl
      revert hf
      decide
    · rintro rfl
      revert hf
      decide
  unfold injectPageFault
  split
  · exact .of_vmcs rfl (hwrite _ _)
  · exact .of_vmcs rfl (hwrite _ _)

/-! ### The operations -/

namespace ContextKept

variable {s s' : Vcpu}

theorem faultStep {pt : PtType} {va : BitVec 64} (h : FaultStep pt va s s') : ContextKept s s' := by
  cases h with
  | accessed _ _ _ => exact Quiet.contextKept ⟨rfl, rfl⟩
  | link _ _ _ _ => exact Quiet.contextKept ⟨rfl, rfl⟩
  | mark _ _ => exact Quiet.contextKept ⟨rfl, rfl⟩
  | leaf _ _ _ => exact Quiet.contextKept ⟨rfl, rfl⟩
  | flush => exact nonpagingFlush_contextKept s
  | dirty _ _ _ _ _ _ => exact Quiet.contextKept ⟨rfl, rfl⟩
  | zap _ _ => exact Quiet.contextKept ⟨rfl, rfl⟩
  | user _ _ _ _ => exact Quiet.contextKept ⟨rfl, rfl⟩
  | inject errCode => exact injectPageFault_contextKept s va errCode

theorem nonpagingStep {v hpa : BitVec 64} (h : NonpagingStep v hpa s s') : ContextKept s s' := by
  cases h with
  | link _ _ _ => exact Quiet.contextKept ⟨rfl, rfl⟩
  | leaf _ =>
    have hmark : Quiet s { s with kvm := markPageDirty s.kvm (gfnOf v) } := ⟨rfl, rfl⟩
    exact (hmark.trans ((Quiet.pageHeaderUpdateSlot _ _ _).trans (.writePte _ _ _))).contextKept
  | flush => exact nonpagingFlush_contextKept s

theorem run {R : Vcpu → Vcpu → Prop} (hR : ∀ s s', R s s' → ContextKept s s') (h : Relation.ReflTransGen R s s') :
    ContextKept s s' := by
  induction h with
  | refl => exact refl s
  | tail _ hstep ih => exact ih.trans (hR _ _ hstep)

theorem mmuPageFault {pool : List Pfn} {lvl : Pfn → Nat} {r : Pfn} (h : MmuInv pool lvl r s) (hpool : pool ≠ [])
    {addr : BitVec 64} {errorCode : BitVec 32} {fuel : Nat} {out : Vcpu × Bool}
    (hs : mmuPageFault s addr errorCode fuel = some out) : ContextKept s out.1 := by
  rcases h.pageFault_run hpool hs with rfl | ⟨-, -, hsteps⟩ | ⟨-, hsteps⟩
  · exact refl s
  · exact run (fun _ _ => nonpagingStep) hsteps
  · exact run (fun _ _ => faultStep) hsteps

theorem pagingInvalPage (addr : BitVec 64) (level : Nat) (s : Vcpu) (page : Pfn) :
    ContextKept s (pagingInvalPage addr level s page) := by
  induction level using Nat.strong_induction_on generalizing page with
  | _ level ih =>
    match level with
    | 0 => exact refl s
    | 1 => exact (Quiet.writePte s _ _).contextKept
    | level + 2 =>
      unfold LearnKvm.pagingInvalPage
      dsimp only
      split
      · exact refl s
      · split
        · have hquiet := (Quiet.writePte s ⟨page, pt64Index addr (level + 2)⟩ 0).trans (.releasePtPage64 1 _
            (frameOf (s.readPte ⟨page, pt64Index addr (level + 2)⟩)))
          generalize releasePtPage64 1 (s.writePte ⟨page, pt64Index addr (level + 2)⟩ 0)
            (frameOf (s.readPte ⟨page, pt64Index addr (level + 2)⟩)) = s1 at hquiet
          refine ⟨by rw [← hquiet.mmu], fun _ => rootLoaded_write _ (cr3PageFlags_high s1) rfl, fun f hf => ?_⟩
          rw [← hquiet.vmcs]
          refine vmcsReadl_vmcsWritel_of_ne ?_
          rintro rfl
          revert hf
          decide
        · exact ih (level + 1) (by omega) _

theorem mmuInvalPage (s : Vcpu) (addr : BitVec 64) : ContextKept s (mmuInvalPage s addr) := by
  unfold LearnKvm.mmuInvalPage
  split
  · exact refl s
  · exact pagingInvalPage _ _ _ _
  · exact pagingInvalPage _ _ _ _

theorem mmuNewCr3 (s : Vcpu) : ContextKept s (mmuNewCr3 s) := by
  have hflush : Quiet s (pagingNewCr3 s) := by
    unfold pagingNewCr3 kvmMmuFlushTlb
    refine Quiet.foldl (fun s page => ?_) _ s
    split
    · exact .refl s
    · split
      · exact .refl s
      · exact (Quiet.writePte s _ _).trans (.releasePtPage64 _ _ _)
  unfold LearnKvm.mmuNewCr3
  split
  · exact refl s
  · exact hflush.contextKept
  · exact hflush.contextKept

end ContextKept

/-- A new context is the one for the mode, and its root is loaded. -/
theorem initKvmMmu_loaded (s : Vcpu) :
    (initKvmMmu s).mmu = contextFor s.vmcs (initKvmMmu s).mmu.rootHpa ∧ RootLoaded (initKvmMmu s) := by
  generalize halloc : kvmMmuAllocPage s none = out
  obtain ⟨s1, root⟩ := out
  rw [initKvmMmu_eq halloc]
  refine ⟨by rw [rootHpa_contextFor], ?_⟩
  cases hp : isPaging s.vmcs with
  | true =>
    refine rootLoaded_write (v := s1.vmcs) _ (cr3PageFlags_high s1) ?_
    rw [rootHpa_contextFor]
    rfl
  | false =>
    refine rootLoaded_write (v := s1.vmcs) 0 (fun i _ _ => BitVec.hasBit_zero i) ?_
    rw [rootHpa_contextFor, show (0 : BitVec 64) = 0#64 from rfl, BitVec.or_zero]
    rfl

theorem contextFor_congr {v v' : Vmcs} (h : isPaging v' = isPaging v) (h' : isLongMode v' = isLongMode v)
    (h'' : isPae v' = isPae v) (root : Option Pfn) : contextFor v' root = contextFor v root := by
  unfold contextFor
  rw [h, h', h'']

end LearnKvm
