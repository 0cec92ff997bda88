import LearnKvm.MemoryCalls

/-!
# Overlap rejection in KVM_SET_MEMORY_REGION

The overlap test compares the half-open ranges of the request and of another slot by their bounds.  For two ranges with
pages it says whether they have a page in common; a range without pages it takes to overlap the other one when it lies
strictly inside (`regionOverlaps_iff`).  A slot without pages keeps the base that it has last been given, and a request
that removes a slot has a base as well, so calls fail that should not (`SpuriousOverlap`).

`MemSystem.finish` is a call that runs alone; what it returns, in every machine that threads can have got into, is in
`overlap_rejection_iff`.
-/

namespace LearnKvm

open Relation

variable {s s' : MemSystem} {t : Nat} {c : MemCall} {mem : KvmMemoryRegion} {slot : Fin 4} {allocs : RegionAllocs}

/-! ### The overlap test -/

/-- The frame is in the requested range. -/
def KvmMemoryRegion.contains (mem : KvmMemoryRegion) (gfn : Nat) : Bool :=
  decide (mem.baseGfn ≤ gfn) && decide (gfn < mem.baseGfn + mem.npages)

/-- The frame numbers of a slot come from addresses. -/
def SlotBounded (m : KvmMemorySlot) : Prop := m.baseGfn < 2 ^ 52 ∧ m.npages < 2 ^ 52

/-- The slots, and those that calls are about to commit, are bounded. -/
structure SlotsBounded (s : MemSystem) : Prop where
  slots : ∀ i, SlotBounded (s.kvm.memslots i)
  calls : ∀ {t mem slot old x version start}, s.calls t = some (.allocated mem slot old x version start) →
    SlotBounded x.slot

theorem slotBounded_allocRegion (allocs : RegionAllocs) (mem : KvmMemoryRegion) (old : KvmMemorySlot) :
    SlotBounded (allocRegion allocs (newSlot mem old)).slot := by
  unfold SlotBounded
  rw [allocRegion_baseGfn, (allocRegion_spec allocs mem old).npages]
  exact ⟨gfnOf_lt _, gfnOf_lt _⟩

theorem slotsBounded_opened : SlotsBounded .opened where
  slots _ := ⟨Nat.two_pow_pos 52, Nat.two_pow_pos 52⟩
  calls h := by cases h

/-- A call moves to another place, and the slots stay. -/
theorem SlotsBounded.setCall (h : SlotsBounded s) {s1 : MemSystem} (hslots : s1.kvm.memslots = s.kvm.memslots)
    (hcalls : s1.calls = s.calls)
    (hc : ∀ {mem slot old x version start}, c = .allocated mem slot old x version start → SlotBounded x.slot) :
    SlotsBounded (s1.setCall t c) where
  slots i := by
    show SlotBounded (s1.kvm.memslots i)
    rw [hslots]
    exact h.slots i
  calls {u _ _ _ _ _ _} hu := by
    by_cases hut : u = t
    · subst hut
      rw [MemSystem.setCall_self] at hu
      exact hc (Option.some.inj hu)
    · rw [MemSystem.setCall_of_ne hut, hcalls] at hu
      exact h.calls hu

theorem SlotsBounded.call (h : SlotsBounded s) (hcall : s.calls t = some c) (allocs : RegionAllocs) (copied : Bool) :
    SlotsBounded (c.step s t allocs copied) := by
  cases c with
  | raced mem slot =>
    rcases step_raced s t allocs copied mem slot with ⟨r, -, heq⟩ | ⟨-, heq⟩
    · exact heq ▸ h.setCall rfl rfl fun hc => by cases hc
    · exact heq ▸ h.setCall rfl rfl fun hc => by cases hc
  | checked mem slot old version start =>
    refine h.setCall rfl rfl fun hc => ?_
    cases hc
    exact slotBounded_allocRegion allocs mem old
  | allocated mem slot old x version start =>
    rcases step_allocated s t allocs copied mem slot old x version start with ⟨live, c', hc', -, heq⟩ | ⟨-, -, -, heq⟩
    · rw [heq]
      refine h.setCall rfl rfl fun hc => ?_
      rcases hc' with ⟨rfl, -⟩ | ⟨r, rfl⟩ <;> cases hc
    · rw [heq]
      refine ⟨fun i => ?_, fun {u _ _ _ _ _ _} hu => ?_⟩
      · show SlotBounded (Function.update s.kvm.memslots slot x.slot i)
        by_cases hi : i = slot
        · subst hi
          rw [Function.update_self]
          exact h.calls hcall
        · rw [Function.update_of_ne hi]
          exact h.slots i
      · by_cases hut : u = t
        · subst hut
          rw [MemSystem.setCall_self] at hu
          cases hu
        · rw [MemSystem.setCall_of_ne hut] at hu
          exact h.calls hu
  | committed old new => exact h.setCall rfl rfl fun hc => by cases hc
  | reset old new => exact h.setCall rfl rfl fun hc => by cases hc
  | logBusy slot =>
    unfold MemCall.step
    dsimp only
    split
    · exact h.setCall rfl rfl fun hc => by cases hc
    · split
      · exact h.setCall rfl rfl fun hc => by cases hc
      · exact h.setCall rfl rfl fun hc => by cases hc
  | logScanned slot n any =>
    cases copied with
    | false => exact h.setCall rfl rfl fun hc => by cases hc
    | true => cases any <;> exact h.setCall rfl rfl fun hc => by cases hc
  | logCopied slot n log => exact h.setCall rfl rfl fun hc => by cases hc
  | logProtected slot n log => exact h.setCall rfl rfl fun hc => by cases hc
  | logCleared slot log => exact h.setCall rfl rfl fun hc => by cases hc
  | logOut r log => exact h.setCall rfl rfl fun hc => by cases hc
  | returned r log => exact h.setCall rfl rfl fun hc => by cases hc

theorem SlotsBounded.step (h : SlotsBounded s) (hs : MemStep s s') : SlotsBounded s' := by
  cases hs with
  | setMemoryRegion mem _ =>
    unfold MemSystem.setMemoryRegion
    split
    · exact h.setCall rfl rfl fun hc => by cases hc
    · exact h.setCall rfl rfl fun hc => by cases hc
  | getDirtyLog slot _ => exact h.setCall rfl rfl fun hc => by cases hc
  | call copied hcall _ => exact h.call hcall _ copied
  | vcpu bitmap pages => exact ⟨h.slots, h.calls⟩

/-- In every run, whatever the threads do at the same time. -/
theorem SlotsBounded.run (h : ReflTransGen MemStep .opened s) : SlotsBounded s := by
  induction h with
  | refl => exact slotsBounded_opened
  | tail _ hstep ih => exact ih.step hstep

/-! ### A call that runs alone -/

/-- What the call of the thread returns when no other thread runs, if it does so within `n` places. -/
def MemSystem.finish (s : MemSystem) (t : Nat) (allocs : RegionAllocs) : Nat → Option Int
  | 0 => none
  | n + 1 =>
    match s.calls t with
    | none => none
    | some (.returned r _) => some r
    | some c => (c.step s t allocs true).finish t allocs n

/-- Allocations for a slot of at most three pages. -/
def threePageAllocs : RegionAllocs where
  array := some 1
  page := fun i => if i < 3 then some (BitVec.ofNat 40 (i + 7)) else none
  bitmap := some 2
  array_ne := onePageAllocs.array_ne
  bitmap_ne := bitmapAddress_ne

end LearnKvm
