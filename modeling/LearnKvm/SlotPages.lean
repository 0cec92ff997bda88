import LearnKvm.Mmu.GuestPhysical
import LearnKvm.MemoryOwnership

/-!
# The layout of the slots

The frames of a slot end below the top of the guest physical addresses, and its pages are distinct (`SlotLayout`): the
first is one of the sanity checks, and the pages of a new slot are allocated one after the other.  A commit keeps this as
long as it finds the slot that the checks have seen (`SlotsLaidOut.run`).
-/

namespace LearnKvm

open Relation

variable {kvm : Kvm} {mem : KvmMemoryRegion} {slot : Fin 4} {old : KvmMemorySlot} {x : Allocated}
  {allocs : RegionAllocs} {s s' : MemSystem} {t : Nat} {c : MemCall}

structure SlotLayout (kvm : Kvm) (m : KvmMemorySlot) : Prop where
  fits : m.baseGfn + m.npages < 2 ^ 52
  distinct : m.physMem ≠ 0 → (slotPages kvm m).Nodup

/-- A request that has passed the sanity checks, and the pages that have been allocated for it. -/
def CallLayout : MemCall → Prop
  | .raced mem _ => mem.baseGfn + mem.npages < 2 ^ 52
  | .checked mem _ _ _ _ => mem.baseGfn + mem.npages < 2 ^ 52
  | .allocated mem _ old x _ _ => mem.baseGfn + mem.npages < 2 ^ 52 ∧ (NewArray x.slot old → x.pages.Nodup)
  | _ => True

structure SlotsLaidOut (s : MemSystem) : Prop where
  slots : ∀ i, SlotLayout s.kvm (s.kvm.memslots i)
  calls : ∀ t c, s.calls t = some c → CallLayout c

theorem slotsLaidOut_opened : SlotsLaidOut .opened where
  slots _ := ⟨Nat.two_pow_pos 52, fun h => absurd rfl h⟩
  calls _ _ h := by cases h

/-- The sanity checks refuse a region that wraps around. -/
theorem fits_of_sanityChecks (h : mem.sanityChecks = some slot) : mem.baseGfn + mem.npages < 2 ^ 52 := by
  have hwrap : ¬mem.guestPhysAddr + mem.memorySize < mem.guestPhysAddr := by
    unfold KvmMemoryRegion.sanityChecks at h
    split_ifs at h with _ _ _ hno
    exact hno
  have hsum := BitVec.toNat_add mem.guestPhysAddr mem.memorySize
  have ha := mem.guestPhysAddr.isLt
  have hm := mem.memorySize.isLt
  rw [BitVec.lt_def, hsum] at hwrap
  unfold KvmMemoryRegion.baseGfn KvmMemoryRegion.npages
  rw [gfnOf_eq, gfnOf_eq]
  omega

/-! ### Steps -/

theorem SlotsLaidOut.setCall (h : SlotsLaidOut s) {kvm : Kvm} {live : List Resource} (hslots : kvm.memslots = s.kvm.memslots)
    (harrays : kvm.pageArray = s.kvm.pageArray) (hc : CallLayout c) :
    SlotsLaidOut ({ s with kvm := kvm, live := live }.setCall t c) where
  slots i := by
    have hi := h.slots i
    have hpages : slotPages kvm (kvm.memslots i) = slotPages s.kvm (s.kvm.memslots i) := by
      unfold slotPages
      rw [hslots, harrays]
    refine ⟨?_, fun hne => ?_⟩
    · show (kvm.memslots i).baseGfn + (kvm.memslots i).npages < _
      rw [hslots]
      exact hi.fits
    · show (slotPages kvm (kvm.memslots i)).Nodup
      rw [hpages]
      refine hi.distinct ?_
      rw [← hslots]
      exact hne
  calls u c' hu := by
    by_cases hut : u = t
    · subst hut
      rw [MemSystem.setCall_self] at hu
      exact Option.some.inj hu ▸ hc
    · rw [MemSystem.setCall_of_ne hut] at hu
      exact h.calls u c' hu

/-- The arrays of the slots are live, so the allocations leave them alone. -/
theorem SlotsLaidOut.allocate (h : SlotsLaidOut s) (ho : MemOwned s) (version : BitVec 32) (start : Nat)
    (hfresh : allocs.Fresh s.live) (hx : x = allocRegion allocs (newSlot mem old))
    (hfits : mem.baseGfn + mem.npages < 2 ^ 52) :
    SlotsLaidOut ({ s with kvm := x.store old s.kvm, live := runOps s.live x.ops }.setCall t
      (.allocated mem slot old x version start)) := by
  have hkeep := @othersKept_allocate mem slot old x allocs s t version start hfresh hx
  have hmem := allocRegion_memory allocs mem old
  rw [← hx] at hmem
  refine ⟨fun i => ⟨(h.slots i).fits, fun hne => ?_⟩, fun u c hu => ?_⟩
  · have hlive : .array (s.kvm.memslots i).physMem ∈ s.live :=
      ho.owned.held_live (.inl i) _ (mem_slotMemory.2 (Or.inl ⟨hne, Or.inl rfl⟩))
    have harray : (x.store old s.kvm).pageArray (s.kvm.memslots i).physMem = _ := hkeep.arrays _ hlive
    show (slotPages (x.store old s.kvm) (s.kvm.memslots i)).Nodup
    unfold slotPages
    rw [harray]
    exact (h.slots i).distinct hne
  · by_cases hut : u = t
    · subst hut
      rw [MemSystem.setCall_self] at hu
      obtain rfl := Option.some.inj hu
      exact ⟨hfits, fun _ => hmem.nodup hfresh.pages⟩
    · rw [MemSystem.setCall_of_ne hut] at hu
      exact h.calls u c hu

/-- The new slot has the pages of the call, or those of the old slot. -/
theorem SlotsLaidOut.commit (h : SlotsLaidOut s) (ho : MemOwned s) {version : BitVec 32} {start : Nat}
    (hcall : s.calls t = some (.allocated mem slot old x version start)) (hok : x.ok = true)
    (hx : x = allocRegion allocs (newSlot mem old)) (hold : s.kvm.memslots slot = old)
    (hcheck : checkRegion s.kvm mem slot = none) :
    SlotsLaidOut ({ s with kvm := commitRegion s.kvm slot x.slot, commits := s.commits + 1 }.setCall t
      (.committed old x.slot)) := by
  have hcommit := commitable hok hx (ho.calls t _ hcall) hold (hold ▸ ho.slots slot) hcheck
  obtain ⟨hfits, hpages⟩ := h.calls t _ hcall
  have hnew : SlotLayout s.kvm x.slot := by
    refine ⟨?_, fun hne => ?_⟩
    · rw [hx, allocRegion_baseGfn, (allocRegion_spec allocs mem old).npages]
      exact hfits
    · by_cases heq : x.slot.physMem = old.physMem
      · have hsame : slotPages s.kvm x.slot = slotPages s.kvm old := by
          unfold slotPages
          rw [heq, hcommit.kept heq hne]
        rw [hsame, ← hold]
        refine (h.slots slot).distinct ?_
        rw [hold, ← heq]
        exact hne
      · rw [hcommit.slotPages ⟨heq, hne⟩]
        exact hpages ⟨heq, hne⟩
  refine ⟨fun i => ?_, fun u c hu => ?_⟩
  · have hall : SlotLayout s.kvm (Function.update s.kvm.memslots slot x.slot i) := by
      by_cases hi : i = slot
      · subst hi
        rw [Function.update_self]
        exact hnew
      · rw [Function.update_of_ne hi]
        exact h.slots i
    exact ⟨hall.fits, hall.distinct⟩
  · by_cases hut : u = t
    · subst hut
      rw [MemSystem.setCall_self] at hu
      obtain rfl := Option.some.inj hu
      trivial
    · rw [MemSystem.setCall_of_ne hut] at hu
      exact h.calls u c hu

theorem SlotsLaidOut.call (h : SlotsLaidOut s) (ho : MemOwned s) (hi : MemInv s) (hfew : FewCommits s)
    (hcall : s.calls t = some c) (hfresh : allocs.Fresh s.live) (copied : Bool) :
    SlotsLaidOut (c.step s t allocs copied) := by
  have hc := hi.calls t c hcall
  have hl := h.calls t c hcall
  cases c with
  | raced mem slot =>
    rcases step_raced s t allocs copied mem slot with ⟨r, -, heq⟩ | ⟨-, heq⟩
    · exact heq ▸ h.setCall rfl rfl trivial
    · rw [heq]
      exact h.setCall (c := .checked ..) rfl rfl hl
  | checked mem slot old version start => exact h.allocate ho version start hfresh rfl hl
  | allocated mem slot old x version start =>
    rcases step_allocated s t allocs copied mem slot old x version start with ⟨live, c', hc', -, heq⟩ | ⟨hok, hv, -, heq⟩
    · rw [heq]
      refine h.setCall rfl rfl ?_
      rcases hc' with ⟨rfl, -⟩ | ⟨r, rfl⟩
      · exact hl.1
      · trivial
    · rw [heq]
      obtain ⟨hchecked, allocs', hx⟩ := hc
      obtain ⟨hold, hcheck⟩ := hchecked.current (hchecked.no_commit hi (hfew t _ start hcall rfl) hv)
      exact h.commit ho hcall hok hx hold hcheck
  | committed old new => exact h.setCall rfl rfl trivial
  | reset old new => exact h.setCall rfl rfl trivial
  | logBusy slot =>
    unfold MemCall.step
    dsimp only
    split
    · exact h.setCall rfl rfl trivial
    · split <;> exact h.setCall rfl rfl trivial
  | logScanned slot n any =>
    cases copied with
    | false => exact h.setCall rfl rfl trivial
    | true => cases any <;> exact h.setCall rfl rfl trivial
  | logCopied slot n log => exact h.setCall rfl rfl trivial
  | logProtected slot n log => exact h.setCall rfl rfl trivial
  | logCleared slot log => exact h.setCall rfl rfl trivial
  | logOut r log => exact h.setCall rfl rfl trivial
  | returned r log => exact h.setCall rfl rfl trivial

theorem SlotsLaidOut.step (h : SlotsLaidOut s) (ho : MemOwned s) (hi : MemInv s) (hfew : FewCommits s)
    (hstep : MemStep s s') : SlotsLaidOut s' := by
  cases hstep with
  | setMemoryRegion mem _ =>
    unfold MemSystem.setMemoryRegion
    split
    · exact h.setCall rfl rfl trivial
    · rename_i hsane
      exact h.setCall (c := .raced ..) rfl rfl (fits_of_sanityChecks hsane)
  | getDirtyLog slot _ => exact h.setCall rfl rfl trivial
  | call copied hcall hfresh => exact h.call ho hi hfew hcall hfresh copied
  | vcpu bitmap pages => exact ⟨fun i => ⟨(h.slots i).fits, (h.slots i).distinct⟩, h.calls⟩

/-- The slots of a machine that threads have got into. -/
theorem SlotsLaidOut.run (h : MemRun .opened s) : SlotsLaidOut s := by
  have hall : SlotsLaidOut s ∧ MemInv s ∧ MemOwned s := by
    induction h with
    | refl => exact ⟨slotsLaidOut_opened, memInv_opened, memOwned_opened⟩
    | tail _ hstep ih =>
      obtain ⟨h, hi, ho⟩ := ih
      exact ⟨h.step ho hi hstep.2 hstep.1, hi.step hstep.2 hstep.1, ho.step hi hstep.2 hstep.1⟩
  exact hall.1

end LearnKvm
