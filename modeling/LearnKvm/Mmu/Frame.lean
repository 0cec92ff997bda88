import LearnKvm.Mmu.Context

/-!
# What the operations on contexts leave alone

Replacing the context, `MOV CR3` and `INVLPG` change the shadow pages, their lists and headers, the context, and in the
VMCS the field GUEST_CR3; in whatever state they are called, the guest's registers and memory stay as they are
(`ContextOnly`).
-/

namespace LearnKvm

/-- The states differ at most in the context, the shadow pages and GUEST_CR3. -/
structure ContextOnly (s s' : Vcpu) : Prop where
  vmcs : ∀ f, f ≠ .guestCr3 → s'.vmcs f = s.vmcs f
  kvm : s'.kvm = { s.kvm with activeMmuPages := s'.kvm.activeMmuPages }
  cr2 : s'.cr2 = s.cr2
  cr3 : s'.cr3 = s.cr3
  mem : s'.mem = s.mem
  badPage : s'.badPage = s.badPage

namespace ContextOnly

variable {s s' s'' : Vcpu}

theorem refl (s : Vcpu) : ContextOnly s s := ⟨fun _ _ => rfl, rfl, rfl, rfl, rfl, rfl⟩

theorem trans (h : ContextOnly s s') (h' : ContextOnly s' s'') : ContextOnly s s'' where
  vmcs f hf := (h'.vmcs f hf).trans (h.vmcs f hf)
  kvm := by
    rw [h'.kvm, h.kvm]
  cr2 := h'.cr2.trans h.cr2
  cr3 := h'.cr3.trans h.cr3
  mem := h'.mem.trans h.mem
  badPage := h'.badPage.trans h.badPage

/-- A loop each of whose rounds changes only the context. -/
theorem foldl {α : Type*} {f : Vcpu → α → Vcpu} (hf : ∀ s a, ContextOnly s (f s a)) (l : List α) (s : Vcpu) :
    ContextOnly s (l.foldl f s) := by
  induction l generalizing s with
  | nil => exact refl s
  | cons a l ih => exact (hf s a).trans (ih (f s a))

theorem pages (s : Vcpu) (active freePages : List Pfn) (header : Pfn → KvmMmuPage) (shadow : Pfn → Fin 512 → BitVec 64) :
    ContextOnly s { s with
      kvm := { s.kvm with activeMmuPages := active }
      freePages := freePages
      header := header
      shadow := shadow } :=
  ⟨fun _ _ => rfl, rfl, rfl, rfl, rfl, rfl⟩

theorem writePte (s : Vcpu) (ptr : PtePtr) (e : BitVec 64) : ContextOnly s (s.writePte ptr e) :=
  ⟨fun _ _ => rfl, rfl, rfl, rfl, rfl, rfl⟩

theorem kvmMmuFreePage (s : Vcpu) (page : Pfn) : ContextOnly s (kvmMmuFreePage s page) :=
  ⟨fun _ _ => rfl, rfl, rfl, rfl, rfl, rfl⟩

theorem kvmMmuAllocPage (s : Vcpu) (ptr : Option PtePtr) : ContextOnly s (kvmMmuAllocPage s ptr).1 := by
  unfold LearnKvm.kvmMmuAllocPage
  split
  · exact refl s
  · unfold Vcpu.assert
    dsimp only
    split <;> exact ⟨fun _ _ => rfl, rfl, rfl, rfl, rfl, rfl⟩

theorem releasePtPage64 (level : Nat) (s : Vcpu) (page : Pfn) : ContextOnly s (releasePtPage64 level s page) := by
  induction level using Nat.strong_induction_on generalizing s page with
  | _ level ih =>
    match level with
    | 0 => exact kvmMmuFreePage s page
    | 1 =>
      unfold LearnKvm.releasePtPage64
      exact (pages s s.kvm.activeMmuPages s.freePages s.header _).trans (kvmMmuFreePage _ page)
    | level + 2 =>
      unfold LearnKvm.releasePtPage64
      refine (foldl (fun s i => ?_) _ s).trans (kvmMmuFreePage _ page)
      dsimp only
      split
      · exact (writePte s _ _).trans (ih (level + 1) (by omega) _ _)
      · exact writePte s _ _

theorem setContext (s : Vcpu) (m : KvmMmu) (x : BitVec 64) :
    ContextOnly s { s with mmu := m, vmcs := vmcsWritel s.vmcs .guestCr3 x } :=
  ⟨fun _ hf => vmcsReadl_vmcsWritel_of_ne hf, rfl, rfl, rfl, rfl, rfl⟩

theorem setMmu (s : Vcpu) (m : KvmMmu) : ContextOnly s { s with mmu := m } := ⟨fun _ _ => rfl, rfl, rfl, rfl, rfl, rfl⟩

theorem nonpagingFlush (s : Vcpu) : ContextOnly s (nonpagingFlush s) := by
  unfold LearnKvm.nonpagingFlush
  exact (releasePtPage64 _ s _).trans ((kvmMmuAllocPage _ none).trans (setContext _ _ _))

theorem destroyKvmMmu (s : Vcpu) : ContextOnly s (destroyKvmMmu s) := by
  unfold LearnKvm.destroyKvmMmu nonpagingFree
  cases s.mmu.rootHpa with
  | none => exact refl s
  | some root => exact (releasePtPage64 _ s root).trans ((setMmu _ _).trans (setMmu _ _))

theorem initKvmMmu (s : Vcpu) : ContextOnly s (initKvmMmu s) := by
  have hroot := kvmMmuAllocPage s none
  unfold LearnKvm.initKvmMmu
  split
  · exact hroot.trans (setContext _ _ _)
  · split
    · exact hroot.trans (setContext _ _ _)
    · split
      · exact hroot.trans ((setContext _ _ _).trans (setMmu _ _))
      · exact hroot.trans (setContext _ _ _)

theorem kvmMmuResetContext (s : Vcpu) : ContextOnly s (kvmMmuResetContext s) := (destroyKvmMmu s).trans (initKvmMmu _)

theorem allocMmuPages (alloc : Fin 256 → Option Pfn) (l : List (Fin 256)) (s : Vcpu) :
    ContextOnly s (allocMmuPages alloc l s).1 := by
  induction l generalizing s with
  | nil => exact refl s
  | cons i rest ih =>
    unfold LearnKvm.allocMmuPages
    split
    · exact pages s s.kvm.activeMmuPages [] s.header s.shadow
    · exact (pages s s.kvm.activeMmuPages _ s.header _).trans (ih _)

theorem kvmMmuInit (alloc : Fin 256 → Option Pfn) (s : Vcpu) : ContextOnly s (kvmMmuInit alloc s).1 := by
  have halloc := allocMmuPages alloc (List.finRange 256) s
  unfold LearnKvm.kvmMmuInit
  split
  · rename_i heq
    rw [heq] at halloc
    exact halloc
  · rename_i heq
    rw [heq] at halloc
    exact halloc.trans (initKvmMmu _)

theorem mmuNewCr3 (s : Vcpu) : ContextOnly s (mmuNewCr3 s) := by
  have hflush : ContextOnly s (pagingNewCr3 s) := by
    unfold pagingNewCr3 kvmMmuFlushTlb
    refine foldl (fun s page => ?_) _ s
    split
    · exact refl s
    · split
      · exact refl s
      · exact (writePte s _ _).trans (releasePtPage64 _ _ _)
  unfold LearnKvm.mmuNewCr3
  split
  · exact refl s
  · exact hflush
  · exact hflush

end ContextOnly

end LearnKvm
