import LearnKvm.MappedPages

/-!
# Withdrawing write access from a slot

`kvm_mmu_slot_remove_write_access` finds the shadow pages that map frames of a slot by their slot bitmaps, to which the
slot is added when an entry is installed.  `RecordsSlots` says that the bitmaps have all slots of the frames that are
mapped; then no entry for a frame of the slot is writable afterwards, and as pages of upper levels have empty bitmaps,
nothing else changes (`WithdrawsWriteAccess`).  This needs that a frame belongs to one slot, which `MemOwned` says as long
as the version counter does not come round during a call.  When it comes round, a slot is committed whose page is freed
and can become that of another slot (`slot_not_recorded`).
-/

namespace LearnKvm

open Relation Ownership

variable {pool : List Pfn} {lvl : Pfn → Nat} {r : Pfn} {s s' : Vcpu} {va hpa : BitVec 64} {v : Vcpu} {slot : Fin 4}

/-- The frame is one of the slot. -/
def SlotFrame (kvm : Kvm) (slot : Fin 4) (f : Pfn) : Prop := f ∈ slotPages kvm (kvm.memslots slot)

/-- A page of level one with a present entry for a frame of a slot has the slot in its bitmap. -/
def RecordsSlots (s : Vcpu) : Prop :=
  ∀ p, Reaches s 1 p → ∀ i slot, isPresentPte (s.shadow p i) = true → SlotFrame s.kvm slot (frameOf (s.shadow p i)) →
    (s.header p).slotBitmap.hasBit slot.val = true

/-- What `kvm_mmu_slot_remove_write_access` does. -/
structure WithdrawsWriteAccess (s : Vcpu) (slot : Fin 4) : Prop where
  protects : ∀ p, Reaches (kvmMmuSlotRemoveWriteAccess s slot) 1 p → ∀ i,
    isPresentPte ((kvmMmuSlotRemoveWriteAccess s slot).shadow p i) = true →
    SlotFrame s.kvm slot (frameOf ((kvmMmuSlotRemoveWriteAccess s slot).shadow p i)) →
    isWriteblePte ((kvmMmuSlotRemoveWriteAccess s slot).shadow p i) = false
  /-- No entry changes in another bit. -/
  kept : ∀ p i n, n ≠ 1 → ((kvmMmuSlotRemoveWriteAccess s slot).shadow p i).hasBit n = (s.shadow p i).hasBit n
  /-- No entry of an upper page changes. -/
  upper : ∀ p l, Reaches s (l + 2) p → ∀ i, (kvmMmuSlotRemoveWriteAccess s slot).shadow p i = s.shadow p i

/-! ### The bitmaps of upper pages -/

theorem NonpagingStep.upperSlots (h : MmuInv pool lvl r s) (hpool : pool ≠ []) (hu : UpperSlots s)
    (hstep : NonpagingStep va hpa s s') : UpperSlots s' := by
  cases hstep with
  | link hp hz hf =>
    refine hu.linkPage h hp hf (by simp [hasBit_nonpagingLinkFlags]) fun i h12 _ => ?_
    simp [hasBit_nonpagingLinkFlags]
    omega
  | @leaf p hp =>
    have hframe := (pageHeaderUpdateSlot_frame { s with kvm := markPageDirty s.kvm (gfnOf va) } p va).1
    refine hu.writeLeaf h hp (e := hpa ||| ptPresentMask ||| ptWritableMask ||| ptUserMask) (i := pt64Index va 1)
      ?_ ?_ fun q hq => ?_
    · unfold nonpagingLeaf
      rw [hframe]
      rfl
    · unfold nonpagingLeaf
      rw [hframe]
      rfl
    · show (pageHeaderUpdateSlot _ p va).header q = _
      unfold pageHeaderUpdateSlot
      split
      · rfl
      · exact if_neg hq
  | flush =>
    obtain ⟨lvl', q, -, h1, -⟩ := nonpagingFlush_spec h hpool
    exact .of_newRoot h1

/-- Every call leaves the bitmaps of upper pages empty. -/
theorem MmuCall.upperSlots (h : MmuInv pool lvl r s) (hpool : pool ≠ []) (hcall : MmuCall s s') (hu : UpperSlots s) :
    UpperSlots s' := by
  cases hcall with
  | pageFault haddr hs =>
    exact h.pageFault_keeps (P := UpperSlots) hpool hs (fun h' hu' hstep => hstep.upperSlots h' hpool hu')
      (fun _ _ h' hu' hstep => hstep.upperSlots h' hpool hu') hu
  | invalPage addr =>
    obtain ⟨s1, v, hrel, -, heq⟩ := h.released_invalPage addr
    rw [heq]
    exact (hu.congr (fun _ _ _ => .of_released hrel) fun _ _ _ _ => by rw [hrel.frame]).of_same rfl rfl rfl
  | newCr3 =>
    have hrel := h.released_newCr3.2
    exact hu.congr (fun _ _ _ => .of_released hrel) fun _ _ _ _ => by rw [hrel.frame]
  | resetContext =>
    obtain ⟨lvl', q, -, h1, -⟩ := kvmMmuResetContext_spec h hpool
    exact .of_newRoot h1
  | slotRemoveWriteAccess slot =>
    exact hu.congr (fun _ _ _ => onPath_slotRemoveWriteAccess.1) fun _ _ _ _ => by rw [header_slotRemoveWriteAccess]
  | other hsame => exact hu.of_same hsame.mmu hsame.shadow hsame.header

/-! ### A machine -/

/-- The steps of the machine are calls into the MMU, or changes of something else, for its vcpu. -/
theorem MachineStep.mmuCalls {s s' : Machine} (h : MachineStep s s') (hcreated : s.created = true) :
    s'.created = true ∧ ReflTransGen MmuCall s.vcpu s'.vcpu := by
  have hset : ∀ (v : Vcpu) (kvm : Kvm), kvm.activeMmuPages = v.kvm.activeMmuPages → MmuCall v { v with kvm := kvm } :=
    fun v kvm hact => .other ⟨rfl, rfl, hact, rfl, rfl, rfl⟩
  cases h with
  | @setMemoryRegion t mem h =>
    refine ⟨hcreated, .single (hset _ _ ?_)⟩
    unfold MemSystem.setMemoryRegion
    split <;> rfl
  | getDirtyLog slot h => exact ⟨hcreated, .single (hset _ _ rfl)⟩
  | @call t c allocs copied h hfresh =>
    have honVcpu : ReflTransGen MmuCall s.vcpu (c.onVcpu s.vcpu) := by
      cases c with
      | committed old new => exact .single (.resetContext _)
      | logCopied slot n log => exact .single (.slotRemoveWriteAccess _ _)
      | logCleared slot log => exact .single (.other ⟨rfl, rfl, rfl, rfl, rfl, rfl⟩)
      | _ => exact .refl
    unfold Machine.call
    rw [if_pos hcreated]
    exact ⟨hcreated, honVcpu.tail (hset _ _ (activeMmuPages_step _ t allocs copied c))⟩
  | create h =>
    rw [hcreated] at h
    cases h
  | vcpu h hv => exact ⟨hcreated, .single hv.mmuCall⟩
  | other h hkvm => exact ⟨hcreated, .single (.other h)⟩

/-- A vcpu that has been created is in a state that calls into the MMU lead to. -/
theorem MachineRun.mmuReachable {ok : Machine → Prop} {s : Machine} (h : MachineRun ok (.opened v) s)
    (hcreated : s.created = true) : MmuReachable s.vcpu := by
  induction h with
  | refl => cases hcreated
  | @tail s₁ s₂ hrun hstep ih =>
    cases hbefore : s₁.created with
    | true =>
      obtain ⟨-, hcalls⟩ := hstep.1.mmuCalls hbefore
      obtain ⟨alloc, v₀, v₁, h1, h2, h3, h4, h5, hrun'⟩ := ih hbefore
      exact ⟨alloc, v₀, v₁, h1, h2, h3, h4, h5, hrun'.trans hcalls⟩
    | false =>
      obtain ⟨h1, h2, h3⟩ := ((machineInv_opened v).run hrun).idle hbefore
      have hno : s₁.created ≠ true := by rw [hbefore]; decide
      cases hstep.1 with
      | @create alloc h hdistinct hfresh =>
        exact ⟨alloc, s₁.vcpu, _, hdistinct, h1, h2, h3, Prod.ext rfl hcreated, .refl⟩
      | call copied h hfresh =>
        unfold Machine.call at hcreated
        rw [if_neg hno] at hcreated
        exact absurd hcreated hno
      | setMemoryRegion mem h => exact absurd hcreated hno
      | getDirtyLog slot h => exact absurd hcreated hno
      | vcpu h hv => exact absurd h hno
      | other h hkvm => exact absurd hcreated hno

theorem MmuReachable.upperSlots (h : MmuReachable s) : UpperSlots s := by
  obtain ⟨alloc, s₀, s₁, hdistinct, hfree, hactive, hfailed, hinit, hrun⟩ := h
  obtain ⟨hlen, lvl, q, h, hnew, -⟩ := kvmMmuInit_spec hdistinct hfree hactive hfailed hinit
  have hpool : mmuPool alloc ≠ [] := List.ne_nil_of_length_pos (by omega)
  suffices hboth : (∃ lvl r, MmuInv (mmuPool alloc) lvl r s) ∧ UpperSlots s from hboth.2
  induction hrun with
  | refl => exact ⟨⟨lvl, q, h⟩, .of_newRoot hnew⟩
  | tail _ hcall ih =>
    obtain ⟨⟨lvl', r', h'⟩, hu⟩ := ih
    exact ⟨hcall.inv h' hpool, hcall.upperSlots h' hpool hu⟩

/-- The pages of a slot are held by the slot. -/
theorem held_of_slotFrame {m : MemSystem} (ho : MemOwned m) {f : Pfn} (h : SlotFrame m.kvm slot f) :
    .page f ∈ m.held (.inl slot) := by
  refine mem_slotMemory.2 (Or.inl ⟨fun h0 => ?_, Or.inr ⟨f, h, rfl⟩⟩)
  have hzero := (ho.slots slot).array.2 h0
  unfold SlotFrame LearnKvm.slotPages at h
  rw [hzero] at h
  cases h

/-- A page that may be mapped is mapped by its own slot. -/
theorem MemSystem.MappableIn.slotFrame {m : MemSystem} (ho : MemOwned m) {slots : Fin 4 → Prop} {f : Pfn}
    (hm : m.MappableIn slots f) (h : SlotFrame m.kvm slot f) : slots slot := by
  have hheld := held_of_slotFrame ho h
  rcases hm with ⟨i, hi, hr⟩ | ⟨t, old, new, -, hr⟩
  · obtain rfl := Sum.inl.inj (ho.owned.unique (.inl i) (.inl slot) _ hr hheld)
    exact hi
  · cases ho.owned.unique (.inr t) (.inl slot) _ hr hheld

/-- The bitmaps find all entries for the frames of the slot. -/
theorem RecordsSlots.withdraws (h : MmuInv pool lvl r s) (hu : UpperSlots s) (hs : RecordsSlots s) (slot : Fin 4) :
    WithdrawsWriteAccess s slot where
  protects p hp i hpres hframe := by
    have hp := reaches_slotRemoveWriteAccess.1 hp
    rw [isPresentPte_eq, hasBit_slotRemoveWriteAccess _ _ _ _ (by decide), ← isPresentPte_eq] at hpres
    rw [frameOf_slotRemoveWriteAccess] at hframe
    rw [shadow_slotRemoveWriteAccess, if_pos ⟨(h.active_of_reaches hp).1, hs p hp i slot hpres hframe⟩]
    simp
  kept p i n hn := hasBit_slotRemoveWriteAccess s slot p i hn
  upper p l hp i := by
    obtain ⟨va, hva⟩ := h.onPath_of_reaches hp
    rw [shadow_slotRemoveWriteAccess, if_neg]
    rintro ⟨-, hbit⟩
    rw [hu va l p hva] at hbit
    exact absurd hbit (by simp)

/-- **Withdrawing write access**: as long as the version counter does not come round during a call, all frames of a slot
that are mapped are recorded, and lose write access, and nothing else changes. -/
theorem slot_write_access (s : Machine) (h : MachineRun Machine.FewCommits (.opened v) s) (hcreated : s.created = true) :
    RecordsSlots s.vcpu ∧ ∀ slot, WithdrawsWriteAccess s.vcpu slot := by
  obtain ⟨-, ho⟩ := MachineRun.owned h
  have hl := RecordedInv.run h hcreated
  obtain ⟨pool, lvl, r, hinv, -⟩ := ((machineInv_opened v).run h).mmu hcreated
  have hu := (h.mmuReachable hcreated).upperSlots
  have hrec : RecordsSlots s.vcpu := by
    intro p hp i slot hpres hframe
    obtain ⟨va, hva⟩ := hinv.onPath_of_reaches hp
    exact (hl va p hva i ((isPresentPte_eq _).symm.trans hpres)).slotFrame ho hframe
  exact ⟨hrec, fun slot => hrec.withdraws hinv hu slot⟩

/-- A page of the only slot is mapped. -/
theorem slot_write_access_firstDirty : ∃ (s : Machine) (f : Pfn), Maps s.vcpu f ∧ s.created = true ∧
    RecordsSlots s.vcpu ∧ ∀ slot, WithdrawsWriteAccess s.vcpu slot := by
  obtain ⟨s, hrun, hcreated, -, -, hcommits, -, q, hq, he⟩ := firstDirty_machine
  exact ⟨s, _, ⟨0, q, _, hq, he, rfl⟩, hcreated,
    slot_write_access s (hrun.few (by rw [hcommits]; decide)) hcreated⟩

/-! ### When the version comes round -/

section Counterexample

/-- A second slot of one page, behind the first one. -/
def secondPage : KvmMemoryRegion := { onePage with slot := 1, guestPhysAddr := 0x1000 }

/-- Allocations that give it this page. -/
def reuseAllocs (p : Pfn) : RegionAllocs where
  array := some 3
  page := fun i => if i = 0 then some p else none
  bitmap := none
  array_ne := by decide
  bitmap_ne := noAllocs.bitmap_ne

theorem reuseAllocs_fresh (p : Pfn) : (reuseAllocs p).Fresh [] := by
  refine ⟨fun _ _ => List.not_mem_nil, fun b hb => (by cases hb), fun _ _ _ => List.not_mem_nil, fun i j q hi hj => ?_⟩
  simp only [reuseAllocs] at hi hj
  split at hi
  · split at hj
    · omega
    · cases hj
  · cases hi

/-- What it then has. -/
def reusedSlot (p : Pfn) : Allocated where
  slot := { baseGfn := 1, npages := 1, flags := 0, physMem := 3, dirtyBitmap := 0 }
  pages := [p]
  ops := [.vmalloc 3, .allocPage p]
  ok := true

theorem allocRegion_secondPage (p : Pfn) : allocRegion (reuseAllocs p) (newSlot secondPage noMemory) = reusedSlot p := by
  have hunneeded : dropUnneeded (newSlot secondPage noMemory) =
      { baseGfn := 1, npages := 1, flags := 0, physMem := 0, dirtyBitmap := 0 } := rfl
  have harray : allocArray (reuseAllocs p) { baseGfn := 1, npages := 1, flags := 0, physMem := 0, dirtyBitmap := 0 } =
      reusedSlot p := rfl
  unfold allocRegion
  rw [hunneeded, harray]
  unfold allocBitmap
  exact if_neg (show ¬(true && (0 : BitVec 64) &&& kvmMemLogDirtyPages != 0 && (0 : Nat) == 0) = true by decide)

/-- The pages behind a page. -/
def pagesAfter (p : Pfn) (i : Fin 256) : Option Pfn := some (p + BitVec.ofNat 40 (i + 1))

theorem pagesAfter_injective (p : Pfn) : ∀ i j q, pagesAfter p i = some q → pagesAfter p j = some q → i = j := by
  intro i j q hi hj
  have h := (BitVec.add_right_inj p).1 (Option.some.inj (hi.trans hj.symm))
  have h := congrArg BitVec.toNat h
  rw [BitVec.toNat_ofNat, BitVec.toNat_ofNat, Nat.mod_eq_of_lt (by omega), Nat.mod_eq_of_lt (by omega)] at h
  omega

theorem pagesAfter_ne (p : Pfn) (i : Fin 256) : pagesAfter p i ≠ some p := by
  intro h
  have h : p + BitVec.ofNat 40 (i + 1) = p + 0#40 := (Option.some.inj h).trans (BitVec.add_zero p).symm
  have h := congrArg BitVec.toNat ((BitVec.add_right_inj p).1 h)
  rw [BitVec.toNat_ofNat, Nat.mod_eq_of_lt (by omega)] at h
  simp at h

/-- The first slot is committed after its page has been freed, and the page becomes that of the second one. -/
theorem exists_sharedPage : ∃ (m : MemSystem) (p : Pfn), ReflTransGen ThreadStep .opened m ∧
    gfnToMemslot m.kvm 0 = some 0 ∧ gfnToPage m.kvm 0 0 = p ∧ SlotFrame m.kvm 1 p ∧ ∀ q, .page q ∈ m.live → q = p := by
  obtain ⟨s, version, hs, hn⟩ := observed_stale
  obtain ⟨p, hp⟩ : ∃ p, s.kvm.pageArray 1 0 = p := ⟨_, rfl⟩
  have hcheck : checkRegion s.kvm secondPage 1 = none := by
    have hsame : checkRegion s.kvm secondPage 1 = checkRegion { s.kvm with memslots := withSlot loggedSlot.slot } secondPage 1 :=
      checkRegion_congr hs.slots _ _
    rw [hsame]
    rfl
  have hold : s.kvm.memslots 1 = noMemory := by
    rw [hs.slots]
    rfl
  have halloc := call_allocates (t := 1) secondPage (hs.free 1 (by decide)) rfl hcheck
    (by rw [hs.live]; exact reuseAllocs_fresh p) hold (allocRegion_secondPage p).symm
  have hreturn := call_returns (MemSystem.setCall_self { s with
    kvm := (reusedSlot p).store noMemory s.kvm
    live := runOps s.live (reusedSlot p).ops } 1 (.allocated secondPage 1 noMemory (reusedSlot p)
      s.kvm.memoryConfigVersion s.commits)) rfl hs.busy
  obtain ⟨m, hrun, hkvm, hlive⟩ : ∃ m : MemSystem, ReflTransGen ThreadStep .opened m ∧
      m.kvm = commitRegion ((reusedSlot p).store noMemory s.kvm) 1 (reusedSlot p).slot ∧
      m.live = runOps s.live (reusedSlot p).ops := ⟨_, hs.run.trans (halloc.trans hreturn), rfl, rfl⟩
  have hslots : m.kvm.memslots = Function.update (withSlot loggedSlot.slot) 1 (reusedSlot p).slot := by
    rw [hkvm, ← hs.slots]
    rfl
  have hfirst : m.kvm.memslots 0 = loggedSlot.slot := congrFun hslots 0
  have hsecond : m.kvm.memslots 1 = (reusedSlot p).slot := congrFun hslots 1
  have harrays : m.kvm.pageArray = Function.update s.kvm.pageArray 3 fun i => [p].getD i 0 := by
    rw [hkvm]
    rfl
  refine ⟨m, p, hrun, gfnToMemslot_first ?_ ?_, ?_, ?_, fun q hq => ?_⟩
  · rw [hkvm]
    show 0 < (if s.kvm.nmemslots ≤ 1 then 1 + 1 else s.kvm.nmemslots)
    split <;> omega
  · rw [hfirst]
    rfl
  · unfold gfnToPage
    rw [hfirst, harrays]
    exact hp
  · unfold SlotFrame LearnKvm.slotPages
    rw [hsecond, harrays]
    exact List.mem_singleton_self p
  · rw [hlive, hs.live, show runOps [] (reusedSlot p).ops = [.page p, .array 3] from rfl] at hq
    simpa using hq

/-- A step without paging records the slot of the address only. -/
theorem NonpagingStep.not_recorded (h : MmuInv pool lvl r s) (hpool : pool ≠ []) (hstep : NonpagingStep va hpa s s')
    (hslot : gfnToMemslot s.kvm (gfnOf va) ≠ some slot)
    (hs : ∀ p ∈ s.kvm.activeMmuPages, (s.header p).slotBitmap.hasBit slot.val = false) :
    ∀ p ∈ s'.kvm.activeMmuPages, (s'.header p).slotBitmap.hasBit slot.val = false := by
  intro x hx
  cases hstep with
  | @link l p q rest hp hz hf =>
    show (if x = q then _ else _ : KvmMmuPage).slotBitmap.hasBit slot.val = false
    split
    · simp
    · rename_i hne
      exact hs x ((List.mem_cons.1 hx).resolve_left hne)
  | @leaf p hp =>
    have hx : x ∈ s.kvm.activeMmuPages := by
      have hframe := (pageHeaderUpdateSlot_frame { s with kvm := markPageDirty s.kvm (gfnOf va) } p va).1
      unfold nonpagingLeaf at hx
      rw [hframe] at hx
      change x ∈ (markPageDirty s.kvm (gfnOf va)).activeMmuPages at hx
      rwa [markPageDirty_frame] at hx
    show ((pageHeaderUpdateSlot _ p va).header x).slotBitmap.hasBit slot.val = false
    unfold pageHeaderUpdateSlot
    rw [gfnToMemslot_markPageDirty]
    cases hi : gfnToMemslot s.kvm (gfnOf va) with
    | none => exact hs x hx
    | some i =>
      have hne : slot.val ≠ i.val := fun heq => hslot (hi.trans (congrArg some (Fin.ext heq.symm)))
      have := i.isLt
      dsimp only
      split
      · rw [BitVec.hasBit_or, Bits.hasBit_one_shiftLeft (by omega)]
        simp [hs x hx, hne]
      · exact hs x hx
  | flush =>
    obtain ⟨lvl', q, -, h1, -⟩ := nonpagingFlush_spec h hpool
    rw [h1.active, List.mem_singleton] at hx
    rw [hx, h1.header]
    simp

end Counterexample

/-- Without paging, an access to the first slot maps the page that is also one of the second slot, which is not
recorded. -/
theorem slot_not_recorded : ¬∀ v s, MachineRun (fun _ => True) (.opened v) s → s.created = true →
    RecordsSlots s.vcpu ∧ ∀ slot, WithdrawsWriteAccess s.vcpu slot := by
  intro hall
  obtain ⟨m, p, hrun, hslot, hpage, hframe, hlive⟩ := exists_sharedPage
  have hfresh : ∀ i q, pagesAfter p i = some q → Resource.page q ∉ m.live := by
    intro i q hq hmem
    obtain rfl := hlive q hmem
    exact pagesAfter_ne q i hq
  obtain ⟨s, hrun, hcreated, hops, ⟨pages, hkvm⟩, -, -, -, hbitmaps⟩ :=
    exists_created hrun (pagesAfter_injective p) (fun _ => rfl) hfresh
  obtain ⟨pool, lvl, r, h, hlen⟩ := ((machineInv_opened default).run hrun).mmu hcreated
  have hpool : pool ≠ [] := List.ne_nil_of_length_pos (by omega)
  have hfirst : gfnToMemslot s.vcpu.kvm (gfnOf (0 &&& pt64BaseAddrMask)) = some 0 := by
    rw [hkvm, show gfnOf (0 &&& pt64BaseAddrMask) = 0 by decide]
    exact hslot
  have hmapped : gpaFrame s.vcpu.kvm (0 &&& pt64BaseAddrMask) = some p := by
    unfold gpaFrame
    rw [hfirst, Option.map_some, show gfnOf (0 &&& pt64BaseAddrMask) = 0 by decide, hkvm]
    exact congrArg some hpage
  have hbits : ∀ q ∈ s.vcpu.kvm.activeMmuPages, (s.vcpu.header q).slotBitmap.hasBit (1 : Fin 4).val = false := fun q hq => by
    rw [hbitmaps q hq]
    simp
  -- the fault maps the page, and records the first slot only
  obtain ⟨out, hout⟩ := Option.isSome_iff_exists.1 (mmuPageFault_isSome h (by omega) 0 0 0)
  have hrecorded : KvmGrows s.vcpu.kvm out.1.kvm ∧
      ∀ q ∈ out.1.kvm.activeMmuPages, (out.1.header q).slotBitmap.hasBit (1 : Fin 4).val = false := by
    rcases h.pageFault_run hpool hout with rfl | ⟨-, -, hsteps⟩ | ⟨hno, -⟩
    · exact ⟨.refl _, hbits⟩
    · refine (NonpagingStep.run (P := fun u => KvmGrows s.vcpu.kvm u.kvm ∧
        ∀ q ∈ u.kvm.activeMmuPages, (u.header q).slotBitmap.hasBit (1 : Fin 4).val = false) hpool (fun h' hu hstep => ?_) h
        ⟨.refl _, hbits⟩ hsteps).2
      refine ⟨hu.1.trans (.nonpagingStep h' hpool hstep), hstep.not_recorded h' hpool ?_ hu.2⟩
      rw [hu.1.gfnToMemslot, show gfnOf (0 &&& pageMask) = gfnOf (0 &&& pt64BaseAddrMask) by decide, hfirst]
      decide
    · exact absurd hops hno
  have hout' : nonpagingPageFault 0 2 s.vcpu = some out := by
    unfold mmuPageFault at hout
    rwa [hops] at hout
  have hlev := h.levels
  unfold KvmMmu.LevelsOk at hlev
  rw [hops] at hlev
  obtain ⟨-, -, ⟨lvl', r', h'⟩, q, hq, hentry⟩ := nonpagingPageFault_maps hpool h hlev.2
    (by rw [isErrorHpa_gpaToHpa, hmapped]; rfl) hout'
  -- the second slot has the page as well
  have hstep : MachineStep s { s with vcpu := out.1 } := .vcpu hcreated (.pageFault (fun _ => by decide) hout)
  obtain ⟨hrec, -⟩ := hall default _ (hrun.tail ⟨hstep, trivial⟩) hcreated
  have hbit := hrec q hq.reaches (pt64Index (0 &&& pageMask) 1) 1 (by rw [hentry]; simp) (by
    rw [hentry, frameOf_nonpaging hmapped]
    unfold SlotFrame LearnKvm.slotPages
    rw [hrecorded.1.frame, hkvm]
    exact hframe)
  have hclear := hrecorded.2 q (h'.active_of_onPath hq).1
  exact Bool.false_ne_true (hclear.symm.trans hbit)

end LearnKvm
