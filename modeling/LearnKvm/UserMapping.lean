import LearnKvm.Lib.RefCount
import LearnKvm.MappedPages
import LearnKvm.SlotPages

/-!
# Mappings of the guest's memory in user space (`kvm_dev_nopage`)

A process maps `/dev/kvm`, and a fault in the mapping maps the page that the slots have for the offset.  `kvm_dev_nopage`
takes no lock: it looks for the page, and then takes a reference to it.  Meanwhile other threads are in
KVM_SET_MEMORY_REGION, which frees pages, that is, drops the reference of the slot.

If no page is freed between the two steps of a fault, the count of a page is one for the module and one for each mapping,
so that what is mapped is never handed out again (`user_pages_counted`); otherwise it can be (`freed_page_in_process`).  If
slots are only created and their flags changed, as `libkvm` does it, a fault needs no such care, and a process sees the
memory of the guest: the page at an offset of the file is that of the guest at the same physical address
(`user_sees_guest`, `vm_mem_layout`).
-/

namespace LearnKvm

open Relation RefCount

/-! ### The code -/

/-- `struct vm_area_struct` -/
structure VmArea where
  vmStart : BitVec 64
  vmPgoff : BitVec 64

def VmArea.pgoff (vma : VmArea) (address : BitVec 64) : BitVec 64 :=
  ((address - vma.vmStart) >>> pageShift) + vma.vmPgoff

/-- `kvm_dev_nopage` before it calls `get_page`; `none` is NOPAGE_SIGBUS. -/
def kvmDevNopage (kvm : Kvm) (vma : VmArea) (address : BitVec 64) : Option Pfn :=
  let pgoff := vma.pgoff address
  match gfnToMemslot kvm pgoff.toNat with
  | none => none
  | some slot => some (gfnToPage kvm slot pgoff.toNat)

/-- `alloc_page` and `__free_page`. -/
def HeapOp.onPool (m : Pool Pfn) : HeapOp → Pool Pfn
  | allocPage p => m.alloc p
  | freePage (some p) => m.put p
  | _ => m

/-- What a call allocates and frees when it goes on. -/
def MemCall.ops (s : MemSystem) (allocs : RegionAllocs) : MemCall → List HeapOp
  | checked mem _ old _ _ => (allocRegion allocs (newSlot mem old)).ops
  | allocated _ _ old x version _ =>
    if !x.ok || version != s.kvm.memoryConfigVersion || s.kvm.busy != 0 then
      kvmFreePhysmemSlot (fun i => x.pages[i]?) x.slot (some old)
    else []
  | reset old new => kvmFreePhysmemSlot (fun i => some (s.kvm.pageArray old.physMem i)) old (some new)
  | _ => []

/-! ### The processes -/

/-- The page for an address, at an offset of the file. -/
structure UserPage where
  address : BitVec 64
  pgoff : BitVec 64
  page : Pfn
  deriving DecidableEq

/-- The machine, the page allocator, the faults that have found a page, those that have a reference to it, and the page
table entries of the processes. -/
structure UserSystem where
  mem : MemSystem
  pool : Pool Pfn
  found : Multiset UserPage
  taken : Multiset UserPage
  ptes : Multiset UserPage

def UserSystem.opened : UserSystem := ⟨.opened, .fresh, 0, 0, 0⟩

inductive UserEvent where
  | call (c : MemCall)
  | get (f : UserPage)
  | other

/-- A step of the module, or of the fault handler of the kernel.  An entry is removed by `munmap`, by the end of the
process, or to reclaim memory. -/
inductive UserStep (s : UserSystem) : UserEvent → UserSystem → Prop
  | setMemoryRegion {t : Nat} (mem : KvmMemoryRegion) (h : s.mem.Free t) :
      UserStep s .other { s with mem := s.mem.setMemoryRegion t mem }
  | getDirtyLog {t : Nat} (slot : BitVec 32) (h : s.mem.Free t) :
      UserStep s .other { s with mem := s.mem.getDirtyLog t slot }
  | call {t : Nat} {c : MemCall} {allocs : RegionAllocs} (copied : Bool) (h : s.mem.calls t = some c)
      (hfresh : allocs.Fresh s.mem.live) (hfree : ∀ i p, allocs.page i = some p → s.pool.free p = true) :
      UserStep s (.call c) { s with
        mem := c.step s.mem t allocs copied
        pool := (c.ops s.mem allocs).foldl HeapOp.onPool s.pool }
  | vcpu (bitmap : Nat → Nat → Bool) (pages : List Pfn) :
      UserStep s .other { s with
        mem := { s.mem with kvm := { s.mem.kvm with bitmap := bitmap, activeMmuPages := pages } } }
  | find (vma : VmArea) (address : BitVec 64) {p : Pfn} (h : kvmDevNopage s.mem.kvm vma address = some p) :
      UserStep s .other { s with found := ⟨address, vma.pgoff address, p⟩ ::ₘ s.found }
  | get {f : UserPage} (h : f ∈ s.found) :
      UserStep s (.get f) { s with found := s.found.erase f, taken := f ::ₘ s.taken, pool := s.pool.get f.page }
  | install {f : UserPage} (h : f ∈ s.taken) (hnone : ∀ e ∈ s.ptes, e.address ≠ f.address) :
      UserStep s .other { s with taken := s.taken.erase f, ptes := f ::ₘ s.ptes }
  | drop {f : UserPage} (h : f ∈ s.taken) :
      UserStep s .other { s with taken := s.taken.erase f, pool := s.pool.put f.page }
  | zap {e : UserPage} (h : e ∈ s.ptes) :
      UserStep s .other { s with ptes := s.ptes.erase e, pool := s.pool.put e.page }

/-- A run whose events meet a condition on the state before them. -/
def UserRun (ok : UserSystem → UserEvent → Prop) : UserSystem → UserSystem → Prop :=
  ReflTransGen fun s s' => (∃ e, UserStep s e s' ∧ ok s e) ∧ FewCommits s.mem

/-- A page that a fault has found is not freed before the fault takes its reference. -/
def Prompt (s : UserSystem) : UserEvent → Prop
  | .get f => .page f.page ∈ s.mem.live
  | _ => True

/-- Slots are created, or their flags are changed. -/
def KeepsSlots (_ : UserSystem) : UserEvent → Prop
  | .call (.allocated mem _ old _ _ _) => old.npages = 0 ∨ (mem.baseGfn = old.baseGfn ∧ mem.npages = old.npages)
  | _ => True

variable {ok : UserSystem → UserEvent → Prop} {s s' : UserSystem} {m m' : MemSystem} {t : Nat} {c : MemCall}
  {allocs : RegionAllocs} {p : Pfn} {live : List Resource} {ops : List HeapOp} {pool : Pool Pfn} {rest : Multiset Pfn}
  {kvm : Kvm} {e : UserEvent}

theorem UserStep.mem (h : UserStep s e s') : MemStep s.mem s'.mem ∨ s'.mem = s.mem := by
  cases h with
  | setMemoryRegion mem h => exact Or.inl (.setMemoryRegion mem h)
  | getDirtyLog slot h => exact Or.inl (.getDirtyLog slot h)
  | call copied h hfresh => exact Or.inl (.call copied h hfresh)
  | vcpu bitmap pages => exact Or.inl (.vcpu _ bitmap pages)
  | _ => exact Or.inr rfl

/-- What the threads do is a run of theirs. -/
theorem UserRun.mem (h : UserRun ok s s') : MemRun s.mem s'.mem := by
  induction h with
  | refl => exact .refl
  | tail _ hstep ih =>
    obtain ⟨⟨e, hs, -⟩, hfew⟩ := hstep
    rcases hs.mem with hs | hs
    · exact ih.tail ⟨hs, hfew⟩
    · rw [hs]
      exact ih

/-! ### The pages of the module -/

def Resource.pfn : Resource → Option Pfn
  | page p => some p
  | _ => none

def livePages (live : List Resource) : Multiset Pfn := live.filterMap Resource.pfn

theorem mem_livePages : p ∈ livePages live ↔ .page p ∈ live := by
  unfold livePages
  rw [Multiset.mem_coe, List.mem_filterMap]
  constructor
  · rintro ⟨r, hr, hp⟩
    cases r with
    | page q =>
      obtain rfl := Option.some.inj hp
      exact hr
    | _ => cases hp
  · exact fun h => ⟨_, h, rfl⟩

@[simp] theorem livePages_page : livePages (.page p :: live) = p ::ₘ livePages live := rfl

@[simp] theorem livePages_array (a : Nat) : livePages (.array a :: live) = livePages live := rfl

theorem livePages_cons_of_ne {r : Resource} (hr : ∀ p, r ≠ .page p) : livePages (r :: live) = livePages live := by
  cases r with
  | page p => exact absurd rfl (hr p)
  | _ => rfl

theorem livePages_erase_page (live : List Resource) (p : Pfn) :
    livePages (live.erase (.page p)) = (livePages live).erase p := by
  induction live with
  | nil => rfl
  | cons r live ih =>
    by_cases hr : r = .page p
    · subst hr
      simp
    · rw [List.erase_cons_tail (by simpa using hr)]
      cases r with
      | page q =>
        have hq : q ≠ p := fun h => hr (by rw [h])
        rw [livePages_page, livePages_page, ih, Multiset.erase_cons_tail _ hq]
      | _ => exact ih

theorem livePages_erase_array (live : List Resource) (a : Nat) : livePages (live.erase (.array a)) = livePages live := by
  induction live with
  | nil => rfl
  | cons r live ih =>
    by_cases hr : r = .array a
    · subst hr
      simp
    · rw [List.erase_cons_tail (by simpa using hr)]
      cases r with
      | page q => rw [livePages_page, livePages_page, ih]
      | _ => exact ih

/-- The pages that are freed. -/
def HeapOp.freedPage : HeapOp → Option Pfn
  | freePage p => p
  | _ => none

def freedPages (ops : List HeapOp) : List Pfn := ops.filterMap HeapOp.freedPage

theorem freedPages_cons_some (ops : List HeapOp) (p : Pfn) : freedPages (.freePage (some p) :: ops) = p :: freedPages ops :=
  rfl

theorem freed_of_mem (h : p ∈ freedPages ops) : some (.page p) ∈ freed ops := by
  obtain ⟨op, hop, hp⟩ := List.mem_filterMap.1 h
  refine List.mem_filterMap.2 ⟨op, hop, ?_⟩
  cases op with
  | freePage q =>
    have hq : q = some p := hp
    rw [hq]
    rfl
  | _ => cases hp

theorem freedPages_free (entries : Nat → Option Pfn) (m other : KvmMemorySlot) :
    freedPages (kvmFreePhysmemSlot entries m (some other)) =
      if NewArray m other then (List.range m.npages).filterMap entries else [] := by
  have hmap : ∀ l : List Nat, freedPages (l.map fun i => HeapOp.freePage (entries i)) = l.filterMap entries := fun l => by
    unfold freedPages
    rw [List.filterMap_map]
    rfl
  have hlast : freedPages (if (∀ s ∈ some other, m.dirtyBitmap ≠ s.dirtyBitmap) ∧ m.dirtyBitmap ≠ 0 then
      [.vfree m.dirtyBitmap] else []) = [] := by
    split <;> rfl
  unfold kvmFreePhysmemSlot
  rw [show ∀ l l', freedPages (l ++ l') = freedPages l ++ freedPages l' from fun _ _ => List.filterMap_append, hlast,
    List.append_nil]
  by_cases hnew : NewArray m other
  · have hcond : (∀ s ∈ some other, m.physMem ≠ s.physMem) ∧ m.physMem ≠ 0 :=
      ⟨fun s hs => Option.some.inj hs ▸ hnew.1, hnew.2⟩
    rw [if_pos hcond, if_pos hnew, show ∀ l l', freedPages (l ++ l') = freedPages l ++ freedPages l' from
      fun _ _ => List.filterMap_append, hmap]
    exact List.append_nil _
  · have hcond : ¬((∀ s ∈ some other, m.physMem ≠ s.physMem) ∧ m.physMem ≠ 0) :=
      fun h => hnew ⟨h.1 _ rfl, h.2⟩
    rw [if_neg hcond, if_neg hnew]
    rfl

/-! ### The counts of a call -/

theorem live_step (copied : Bool) (c : MemCall) : (c.step m t allocs copied).live = runOps m.live (c.ops m allocs) := by
  cases c with
  | raced mem slot =>
    rcases step_raced m t allocs copied mem slot with ⟨r, -, heq⟩ | ⟨-, heq⟩ <;> rw [heq] <;> rfl
  | allocated mem slot old x version start =>
    unfold MemCall.ops MemCall.step
    dsimp only
    cases x.ok with
    | false => rfl
    | true =>
      cases version != m.kvm.memoryConfigVersion with
      | true => rfl
      | false => cases m.kvm.busy != 0 <;> rfl
  | logBusy slot =>
    obtain ⟨c', heq, -⟩ := step_logBusy m t allocs copied slot
    rw [heq]
    rfl
  | logScanned slot n any =>
    obtain ⟨c', heq, -⟩ := step_logScanned m t allocs copied slot n any
    rw [heq]
    rfl
  | _ => rfl

theorem counts_allocs (h : Counts pool (livePages live + rest)) (hfreed : freed ops = []) (hnodup : (allocated ops).Nodup)
    (hfree : ∀ p, .page p ∈ allocated ops → pool.free p = true) :
    Counts (ops.foldl HeapOp.onPool pool) (livePages (runOps live ops) + rest) := by
  induction ops generalizing pool live with
  | nil => exact h
  | cons op ops ih =>
    cases op with
    | allocPage p =>
      have hcons : allocated (.allocPage p :: ops) = .page p :: allocated ops := rfl
      rw [hcons, List.nodup_cons] at hnodup
      rw [hcons] at hfree
      have hnext : Counts (pool.alloc p) (livePages (.page p :: live) + rest) := by
        rw [livePages_page, Multiset.cons_add]
        exact h.alloc (hfree p (List.mem_cons_self ..))
      refine ih hnext hfreed hnodup.2 fun q hq => ?_
      have hne : q ≠ p := by
        rintro rfl
        exact hnodup.1 hq
      exact (Function.update_of_ne hne _ _).trans (hfree q (List.mem_cons_of_mem _ hq))
    | vmalloc a => exact ih h hfreed (List.nodup_cons.1 hnodup).2 fun q hq => hfree q (List.mem_cons_of_mem _ hq)
    | freePage p => cases hfreed
    | vfree a => cases hfreed

theorem counts_frees (h : Counts pool (livePages live + rest)) (halloc : allocated ops = [])
    (hnodup : (freedPages ops).Nodup) (hlive : ∀ p ∈ freedPages ops, .page p ∈ live) :
    Counts (ops.foldl HeapOp.onPool pool) (livePages (runOps live ops) + rest) := by
  induction ops generalizing pool live with
  | nil => exact h
  | cons op ops ih =>
    cases op with
    | allocPage p => cases halloc
    | vmalloc a => cases halloc
    | freePage p =>
      cases p with
      | none => exact ih h halloc hnodup hlive
      | some p =>
        rw [freedPages_cons_some, List.nodup_cons] at hnodup
        rw [freedPages_cons_some] at hlive
        have hmem := mem_livePages.2 (hlive p (List.mem_cons_self ..))
        have hnext : Counts (pool.put p) (livePages (live.erase (.page p)) + rest) := by
          rw [livePages_erase_page, ← Multiset.erase_add_left_pos _ hmem]
          exact h.put (Multiset.mem_add.2 (Or.inl hmem))
        refine ih hnext halloc hnodup.2 fun q hq => ?_
        have hne : Resource.page q ≠ .page p := by
          rintro heq
          cases heq
          exact hnodup.1 hq
        exact (List.mem_erase_of_ne hne).2 (hlive q (List.mem_cons_of_mem _ hq))
    | vfree a =>
      have hnext : Counts pool (livePages (live.erase (.array a)) + rest) := by
        rw [livePages_erase_array]
        exact h
      refine ih hnext halloc hnodup fun q hq => (List.mem_erase_of_ne (by simp)).2 (hlive q hq)

/-! ### Replaced slots -/

/-- The pages of a slot that a call has replaced are distinct. -/
def MemCall.Replaced (kvm : Kvm) : MemCall → Prop
  | committed old new => NewArray old new → (slotPages kvm old).Nodup
  | reset old new => NewArray old new → (slotPages kvm old).Nodup
  | _ => True

def AllReplaced (m : MemSystem) : Prop := ∀ t c, m.calls t = some c → c.Replaced m.kvm

/-- The arrays of the other calls are live. -/
theorem AllReplaced.move (h : AllReplaced m) (ho : MemOwned m)
    (harrays : ∀ a, .array a ∈ m.live → m'.kvm.pageArray a = m.kvm.pageArray a)
    (hcalls : ∀ u, u ≠ t → m'.calls u = m.calls u) (hc : ∀ c, m'.calls t = some c → c.Replaced m'.kvm) :
    AllReplaced m' := by
  intro u c hu
  by_cases hut : u = t
  · subst hut
    exact hc c hu
  · rw [hcalls u hut] at hu
    have hold := h u c hu
    have hpages : ∀ old new : KvmMemorySlot, NewArray old new → .array old.physMem ∈ c.memory m.kvm →
        slotPages m'.kvm old = slotPages m.kvm old := fun old new hnew hmem => by
      unfold slotPages
      rw [harrays _ (ho.owned.held_live (.inr u) _ ⟨c, hu, hmem⟩)]
    cases c with
    | committed old new =>
      intro hnew
      rw [hpages old new hnew (mem_ownedOnly.2 (Or.inl ⟨hnew, Or.inl rfl⟩))]
      exact hold hnew
    | reset old new =>
      intro hnew
      rw [hpages old new hnew (mem_ownedOnly.2 (Or.inl ⟨hnew, Or.inl rfl⟩))]
      exact hold hnew
    | _ => trivial

theorem AllReplaced.setCall (h : AllReplaced m) (ho : MemOwned m) {kvm : Kvm} {live : List Resource} {commits : Nat}
    (harrays : ∀ a, .array a ∈ m.live → kvm.pageArray a = m.kvm.pageArray a) (hc : c.Replaced kvm) :
    AllReplaced ({ m with kvm := kvm, live := live, commits := commits }.setCall t c) := by
  refine h.move (t := t) ho harrays (fun u hu => MemSystem.setCall_of_ne hu) fun c' hc' => ?_
  rw [MemSystem.setCall_self] at hc'
  obtain rfl := Option.some.inj hc'
  exact hc

theorem MemCall.Logging.replaced (h : c.Logging) : c.Replaced kvm := by
  cases c <;> trivial

theorem AllReplaced.call (h : AllReplaced m) (ho : MemOwned m) (hi : MemInv m) (hl : SlotsLaidOut m) (hfew : FewCommits m)
    (hc : m.calls t = some c) (hfresh : allocs.Fresh m.live) (copied : Bool) : AllReplaced (c.step m t allocs copied) := by
  have hsame : ∀ a, .array a ∈ m.live → m.kvm.pageArray a = m.kvm.pageArray a := fun _ _ => rfl
  cases c with
  | raced mem slot =>
    rcases step_raced m t allocs copied mem slot with ⟨r, -, heq⟩ | ⟨-, heq⟩
    · rw [heq]
      exact h.setCall ho hsame trivial
    · rw [heq]
      exact h.setCall (c := .checked ..) ho hsame trivial
  | checked mem slot old version start =>
    have hmem := allocRegion_memory allocs mem old
    exact h.setCall (c := .allocated ..) ho (fun a ha => hmem.pageArray_store hfresh m.kvm ha) trivial
  | allocated mem slot old x version start =>
    rcases step_allocated m t allocs copied mem slot old x version start with ⟨live, c', hc', -, heq⟩ | ⟨-, hv, -, heq⟩
    · rw [heq]
      refine h.setCall ho hsame ?_
      rcases hc' with ⟨rfl, -⟩ | ⟨r, rfl⟩ <;> trivial
    · rw [heq]
      have hchecked := (hi.calls t _ hc).1
      obtain ⟨hold, -⟩ := hchecked.current (hchecked.no_commit hi (hfew t _ start hc rfl) hv)
      refine h.setCall (c := .committed ..) ho (fun _ _ => rfl) fun hnew => ?_
      have hdistinct := (hl.slots slot).distinct
      rw [hold] at hdistinct
      exact hdistinct hnew.2
  | committed old new =>
    have hold : NewArray old new → (slotPages m.kvm old).Nodup := h t _ hc
    exact h.setCall (c := .reset old new) ho hsame hold
  | reset old new => exact h.setCall (c := .returned ..) ho hsame trivial
  | logBusy slot =>
    obtain ⟨c', heq, hc'⟩ := step_logBusy m t allocs copied slot
    rw [heq]
    exact h.setCall ho hsame hc'.replaced
  | logScanned slot n any =>
    obtain ⟨c', heq, hc'⟩ := step_logScanned m t allocs copied slot n any
    rw [heq]
    exact h.setCall ho hsame hc'.replaced
  | logCopied slot n log => exact h.setCall (c := .logProtected ..) ho hsame trivial
  | logProtected slot n log => exact h.setCall (c := .logCleared ..) ho hsame trivial
  | logCleared slot log => exact h.setCall (c := .logOut ..) ho hsame trivial
  | logOut r log => exact h.setCall (c := .returned ..) ho hsame trivial
  | returned r log => exact h.setCall (c := .returned ..) ho hsame trivial

theorem AllReplaced.run (h : MemRun .opened m) : AllReplaced m := by
  induction h with
  | refl => exact fun _ _ hc => by cases hc
  | tail hrun hstep ih =>
    obtain ⟨hs, hfew⟩ := hstep
    obtain ⟨hi, ho⟩ := MemOwned.run hrun
    cases hs with
    | setMemoryRegion mem _ =>
      unfold MemSystem.setMemoryRegion
      split
      · exact ih.setCall ho (fun _ _ => rfl) trivial
      · exact ih.setCall (c := .raced ..) ho (fun _ _ => rfl) trivial
    | getDirtyLog slot _ => exact ih.setCall (c := .logBusy slot) ho (fun _ _ => rfl) trivial
    | call copied hc hfresh => exact ih.call ho hi (SlotsLaidOut.run hrun) hfew hc hfresh copied
    | vcpu bitmap pages => exact ih.move (t := 0) ho (fun _ _ => rfl) (fun _ _ => rfl) fun c hc => ih 0 c hc

/-! ### The counts in a run -/

/-- The references to pages: those of the module, of the faults, and of the page tables. -/
def UserSystem.refs (s : UserSystem) : Multiset Pfn :=
  livePages s.mem.live + (s.taken.map UserPage.page + s.ptes.map UserPage.page)

theorem map_erase_page {l : Multiset UserPage} {f : UserPage} (h : f ∈ l) :
    f.page ::ₘ (l.erase f).map UserPage.page = l.map UserPage.page := by
  rw [← Multiset.map_cons, Multiset.cons_erase h]

/-- What a call allocates is free before, and what it frees has been its own. -/
theorem counts_call (h : Counts pool (livePages m.live + rest)) (hrun : MemRun .opened m) (hc : m.calls t = some c)
    (hfresh : allocs.Fresh m.live) (hfree : ∀ i p, allocs.page i = some p → pool.free p = true) (copied : Bool) :
    Counts ((c.ops m allocs).foldl HeapOp.onPool pool) (livePages (c.step m t allocs copied).live + rest) := by
  obtain ⟨hi, ho⟩ := MemOwned.run hrun
  rw [live_step]
  cases c with
  | checked mem slot old version start =>
    have hspec := allocRegion_spec allocs mem old
    have hmem := allocRegion_memory allocs mem old
    refine counts_allocs h hspec.freed ?_ fun p hp => ?_
    · exact hspec.allocated.nodup_iff.2 (nodup_ownedOnly (hmem.nodup hfresh.pages) (hmem.distinct hfresh))
    · rcases mem_ownedOnly.1 (hspec.allocated.mem_iff.1 hp) with ⟨-, hcase | ⟨q, hq, heq⟩⟩ | ⟨-, hcase⟩
      · cases hcase
      · obtain ⟨i, hpage⟩ := hmem.page q hq
        cases heq
        exact hfree i p hpage
      · cases hcase
  | allocated mem slot old x version start =>
    unfold MemCall.ops
    dsimp only
    split
    · refine counts_frees h (allocated_free _ _ _) ?_ fun p hp => ?_
      · rw [freedPages_free]
        split
        · rename_i hnew
          have hpages := ((SlotsLaidOut.run hrun).calls t _ hc).2 hnew
          refine List.Nodup.filterMap (fun i j q hqi hqj => ?_) List.nodup_range
          obtain ⟨hlt, -⟩ := List.getElem?_eq_some_iff.1 hqi
          exact (List.getElem?_inj hlt hpages).1 (hqi.trans hqj.symm)
        · exact List.nodup_nil
      · refine ho.owned.held_live (.inr t) _ ⟨_, hc, ?_⟩
        exact mem_ownedOnly_of_freed (fun i _ q hq => List.mem_of_getElem? hq) (freed_of_mem hp)
    · exact h
  | reset old new =>
    unfold MemCall.ops
    dsimp only
    refine counts_frees h (allocated_free _ _ _) ?_ fun p hp => ?_
    · rw [freedPages_free]
      split
      · rename_i hnew
        show (List.filterMap (some ∘ m.kvm.pageArray old.physMem) _).Nodup
        rw [List.filterMap_eq_map]
        exact AllReplaced.run hrun t _ hc hnew
      · exact List.nodup_nil
    · refine ho.owned.held_live (.inr t) _ ⟨_, hc, ?_⟩
      refine mem_ownedOnly_of_freed (fun i hi q hq => ?_) (freed_of_mem hp)
      obtain rfl := Option.some.inj hq
      exact List.mem_map.2 ⟨i, List.mem_range.2 hi, rfl⟩
  | _ => exact h

theorem counts_step (h : Counts s.pool s.refs) (hrun : MemRun .opened s.mem) (hs : UserStep s e s')
    (hget : ∀ f, e = .get f → .page f.page ∈ s.mem.live) : Counts s'.pool s'.refs := by
  cases hs with
  | setMemoryRegion mem _ =>
    unfold MemSystem.setMemoryRegion
    split <;> exact h
  | getDirtyLog slot _ => exact h
  | call copied hc hfresh hfree => exact counts_call h hrun hc hfresh hfree copied
  | vcpu bitmap pages => exact h
  | find vma address _ => exact h
  | get hf =>
    rename_i f
    have hmem := mem_livePages.2 (hget f rfl)
    have hrefs : f.page ::ₘ s.refs =
        livePages s.mem.live + ((f ::ₘ s.taken).map UserPage.page + s.ptes.map UserPage.page) := by
      unfold UserSystem.refs
      rw [Multiset.map_cons, Multiset.cons_add, Multiset.add_cons]
    show Counts (s.pool.get f.page) _
    rw [UserSystem.refs, ← hrefs]
    exact h.get (Multiset.mem_add.2 (Or.inl hmem))
  | install hf hnone =>
    rename_i f
    have hrefs : (s.taken.erase f).map UserPage.page + (f ::ₘ s.ptes).map UserPage.page =
        s.taken.map UserPage.page + s.ptes.map UserPage.page := by
      rw [Multiset.map_cons, Multiset.add_cons, ← Multiset.cons_add, map_erase_page hf]
    show Counts s.pool _
    rw [UserSystem.refs, hrefs]
    exact h
  | drop hf =>
    rename_i f
    have hrefs : s.refs.erase f.page =
        livePages s.mem.live + ((s.taken.erase f).map UserPage.page + s.ptes.map UserPage.page) := by
      unfold UserSystem.refs
      rw [← map_erase_page hf, Multiset.cons_add, Multiset.add_cons, Multiset.erase_cons_head]
    show Counts (s.pool.put f.page) _
    rw [UserSystem.refs, ← hrefs]
    refine h.put (Multiset.mem_add.2 (Or.inr (Multiset.mem_add.2 (Or.inl ?_))))
    exact Multiset.mem_map_of_mem _ hf
  | zap he =>
    rename_i f
    have hrefs : s.refs.erase f.page =
        livePages s.mem.live + (s.taken.map UserPage.page + (s.ptes.erase f).map UserPage.page) := by
      unfold UserSystem.refs
      rw [← map_erase_page he, Multiset.add_cons, Multiset.add_cons, Multiset.erase_cons_head]
    show Counts (s.pool.put f.page) _
    rw [UserSystem.refs, ← hrefs]
    refine h.put (Multiset.mem_add.2 (Or.inr (Multiset.mem_add.2 (Or.inr ?_))))
    exact Multiset.mem_map_of_mem _ he

theorem userRun_counts (h : UserRun Prompt .opened s) : Counts s.pool s.refs := by
  induction h with
  | refl => exact counts_fresh
  | tail hrun hstep ih =>
    obtain ⟨⟨e, hs, hok⟩, -⟩ := hstep
    refine counts_step ih (UserRun.mem hrun) hs ?_
    rintro f rfl
    exact hok

/-- **The pages of a process.**  A page has a reference of the module until it is freed, one of each fault that has taken
it, and one of each mapping.  It goes back to the allocator with the last of them; what is mapped has not. -/
theorem user_pages_counted (h : UserRun Prompt .opened s) :
    (∀ e ∈ s.ptes, s.pool.free e.page = false) ∧
    ∀ p, s.pool.count p = (livePages s.mem.live).count p + (s.taken.map UserPage.page).count p +
        (s.ptes.map UserPage.page).count p ∧ (livePages s.mem.live).count p ≤ 1 ∧
      (s.pool.free p = true ↔ .page p ∉ s.mem.live ∧ (∀ f ∈ s.taken, f.page ≠ p) ∧ ∀ e ∈ s.ptes, e.page ≠ p) := by
  have hcounts := userRun_counts h
  refine ⟨fun e he => hcounts.not_free ?_, fun p => ⟨?_, ?_, ?_⟩⟩
  · exact Multiset.mem_add.2 (Or.inr (Multiset.mem_add.2 (Or.inr (Multiset.mem_map_of_mem _ he))))
  · rw [hcounts.count, UserSystem.refs, Multiset.count_add, Multiset.count_add, add_assoc]
  · refine Multiset.nodup_iff_count_le_one.1 ?_ p
    refine List.Nodup.filterMap (fun r r' q hr hr' => ?_) (MemOwned.run h.mem).2.nodup
    cases r <;> cases r' <;> simp_all [Resource.pfn]
  · rw [hcounts.free, UserSystem.refs, Multiset.mem_add, Multiset.mem_add, not_or, not_or, mem_livePages]
    simp

/-! ### Slots that stay -/

/-- The page is the one of the slots. -/
def Coherent (kvm : Kvm) (f : UserPage) : Prop := gfnToPageOrNull kvm f.pgoff = some f.page

theorem coherent_iff {f : UserPage} : Coherent kvm f ↔
    ∃ i, gfnToMemslot kvm f.pgoff.toNat = some i ∧ gfnToPage kvm i f.pgoff.toNat = f.page := by
  unfold Coherent gfnToPageOrNull
  rw [Option.map_eq_some_iff]

theorem coherent_find {vma : VmArea} {address : BitVec 64} (h : kvmDevNopage kvm vma address = some p) :
    Coherent kvm ⟨address, vma.pgoff address, p⟩ := by
  unfold kvmDevNopage at h
  dsimp only at h
  cases hslot : gfnToMemslot kvm (vma.pgoff address).toNat with
  | none =>
    rw [hslot] at h
    cases h
  | some i =>
    rw [hslot] at h
    exact coherent_iff.2 ⟨i, hslot, Option.some.inj h⟩

/-- A slot that contains a frame has a page for it. -/
theorem page_of_slot (ho : MemOwned m) {i : Fin 4} {gfn : Nat} (h : (m.kvm.memslots i).contains gfn = true) :
    (m.kvm.memslots i).physMem ≠ 0 ∧ gfnToPage m.kvm i gfn ∈ slotPages m.kvm (m.kvm.memslots i) := by
  unfold KvmMemorySlot.contains at h
  simp only [Bool.and_eq_true, decide_eq_true_eq] at h
  refine ⟨fun h0 => ?_, List.mem_map.2 ⟨gfn - (m.kvm.memslots i).baseGfn, List.mem_range.2 (by omega), rfl⟩⟩
  have := (ho.slots i).array.2 h0
  omega

theorem coherent_held (ho : MemOwned m) {f : UserPage} (h : Coherent m.kvm f) : ∃ i, .page f.page ∈ m.held (.inl i) := by
  obtain ⟨i, hi, hf⟩ := coherent_iff.1 h
  have hin := List.find?_some hi
  simp only [Bool.and_eq_true] at hin
  obtain ⟨hne, hmem⟩ := page_of_slot ho hin.2
  rw [hf] at hmem
  exact ⟨i, mem_slotMemory.2 (Or.inl ⟨hne, Or.inr ⟨_, hmem, rfl⟩⟩)⟩

/-- Two offsets have different pages. -/
theorem coherent_pgoff (hi : MemInv m) (ho : MemOwned m) (hl : SlotsLaidOut m) {f f' : UserPage} (h : Coherent m.kvm f)
    (h' : Coherent m.kvm f') (hp : f'.page = f.page) : f'.pgoff = f.pgoff := by
  obtain ⟨i, hi1, hf⟩ := coherent_iff.1 h
  obtain ⟨j, hj1, hf'⟩ := coherent_iff.1 h'
  rw [gfnToMemslot_iff hi.slots hi.nmemslots] at hi1 hj1
  obtain ⟨hne, hmem⟩ := page_of_slot ho hi1
  obtain ⟨hne', hmem'⟩ := page_of_slot ho hj1
  have hij : j = i := by
    rw [hf] at hmem
    rw [hf', hp] at hmem'
    refine Sum.inl.inj (ho.owned.unique (.inl j) (.inl i) (.page f.page) ?_ ?_)
    · exact mem_slotMemory.2 (Or.inl ⟨hne', Or.inr ⟨_, hmem', rfl⟩⟩)
    · exact mem_slotMemory.2 (Or.inl ⟨hne, Or.inr ⟨_, hmem, rfl⟩⟩)
  subst hij
  unfold KvmMemorySlot.contains at hi1 hj1
  simp only [Bool.and_eq_true, decide_eq_true_eq] at hi1 hj1
  have hdistinct := (hl.slots j).distinct hne
  have heq : m.kvm.pageArray (m.kvm.memslots j).physMem (f'.pgoff.toNat - (m.kvm.memslots j).baseGfn) =
      m.kvm.pageArray (m.kvm.memslots j).physMem (f.pgoff.toNat - (m.kvm.memslots j).baseGfn) :=
    hf'.trans (hp.trans hf.symm)
  have hidx := List.inj_on_of_nodup_map hdistinct (List.mem_range.2 (by omega)) (List.mem_range.2 (by omega)) heq
  exact BitVec.eq_of_toNat_eq (by omega)

/-- The slots that are there, and their pages, stay. -/
structure SlotsKept (kvm kvm' : Kvm) : Prop where
  frames : ∀ i, (kvm.memslots i).npages ≠ 0 → (kvm'.memslots i).baseGfn = (kvm.memslots i).baseGfn ∧
    (kvm'.memslots i).npages = (kvm.memslots i).npages
  page : ∀ i gfn, (kvm.memslots i).contains gfn = true → gfnToPage kvm' i gfn = gfnToPage kvm i gfn

theorem npages_ne_zero {slot : KvmMemorySlot} {gfn : Nat} (h : slot.contains gfn = true) : slot.npages ≠ 0 := by
  unfold KvmMemorySlot.contains at h
  simp only [Bool.and_eq_true, decide_eq_true_eq] at h
  omega

theorem SlotsKept.contains {kvm' : Kvm} (hk : SlotsKept kvm kvm') {i : Fin 4} (hn : (kvm.memslots i).npages ≠ 0)
    (gfn : Nat) : (kvm'.memslots i).contains gfn = (kvm.memslots i).contains gfn := by
  obtain ⟨hbase, hnpages⟩ := hk.frames i hn
  unfold KvmMemorySlot.contains
  rw [hbase, hnpages]

theorem SlotsKept.trans {kvm' kvm'' : Kvm} (hk : SlotsKept kvm kvm') (hk' : SlotsKept kvm' kvm'') : SlotsKept kvm kvm'' := by
  refine ⟨fun i hn => ?_, fun i gfn h => ?_⟩
  · obtain ⟨hbase, hnpages⟩ := hk.frames i hn
    obtain ⟨hbase', hnpages'⟩ := hk'.frames i (by rw [hnpages]; exact hn)
    exact ⟨hbase'.trans hbase, hnpages'.trans hnpages⟩
  · have h' : (kvm'.memslots i).contains gfn = true := (hk.contains (npages_ne_zero h) gfn).trans h
    exact (hk'.page i gfn h').trans (hk.page i gfn h)

theorem Coherent.kept {f : UserPage} (h : Coherent m.kvm f) (hi : MemInv m) (hi' : MemInv m')
    (hk : SlotsKept m.kvm m'.kvm) : Coherent m'.kvm f := by
  obtain ⟨i, hslot, hf⟩ := coherent_iff.1 h
  rw [gfnToMemslot_iff hi.slots hi.nmemslots] at hslot
  have hslot' := (hk.contains (npages_ne_zero hslot) f.pgoff.toNat).trans hslot
  exact coherent_iff.2 ⟨i, (gfnToMemslot_iff hi'.slots hi'.nmemslots _ _).2 hslot', (hk.page i _ hslot).trans hf⟩

theorem slotsKept_of_eq (ho : MemOwned m) {kvm' : Kvm} (hslots : ∀ i, kvm'.memslots i = m.kvm.memslots i)
    (harrays : ∀ a, .array a ∈ m.live → kvm'.pageArray a = m.kvm.pageArray a) : SlotsKept m.kvm kvm' := by
  refine ⟨fun i _ => by rw [hslots]; exact ⟨rfl, rfl⟩, fun i gfn h => ?_⟩
  obtain ⟨hne, -⟩ := page_of_slot ho h
  have hlive := ho.owned.held_live (.inl i) (.array _) (mem_slotMemory.2 (Or.inl ⟨hne, Or.inl rfl⟩))
  unfold gfnToPage
  rw [hslots, harrays _ hlive]

/-- The slot that is committed is new, or has the frames and the pages of the old one. -/
theorem slotsKept_commit (hi : MemInv m) (ho : MemOwned m) (hfew : FewCommits m) {mem : KvmMemoryRegion} {slot : Fin 4}
    {old : KvmMemorySlot} {x : Allocated} {version : BitVec 32} {start : Nat}
    (hc : m.calls t = some (.allocated mem slot old x version start)) (hok : x.ok = true)
    (hv : version = m.kvm.memoryConfigVersion)
    (hkeep : old.npages = 0 ∨ (mem.baseGfn = old.baseGfn ∧ mem.npages = old.npages)) :
    SlotsKept m.kvm (commitRegion m.kvm slot x.slot) := by
  obtain ⟨hchecked, allocs, hx⟩ := hi.calls t _ hc
  obtain ⟨hold, -⟩ := hchecked.current (hchecked.no_commit hi (hfew t _ start hc rfl) hv)
  have hself : (commitRegion m.kvm slot x.slot).memslots slot = x.slot := Function.update_self ..
  have hothers : ∀ i, i ≠ slot → (commitRegion m.kvm slot x.slot).memslots i = m.kvm.memslots i := fun i hi =>
    Function.update_of_ne hi ..
  have hspec := allocRegion_spec allocs mem old
  have hmem := allocRegion_memory allocs mem old
  have hbase := allocRegion_baseGfn allocs (newSlot mem old)
  rw [← hx] at hspec hmem hbase
  have hframes : old.npages ≠ 0 → x.slot.baseGfn = old.baseGfn ∧ x.slot.npages = old.npages := fun hpos => by
    obtain ⟨h1, h2⟩ := hkeep.resolve_left hpos
    exact ⟨hbase.trans h1, hspec.npages.trans h2⟩
  refine ⟨fun i hn => ?_, fun i gfn h => ?_⟩
  · by_cases his : i = slot
    · subst his
      rw [hself, hold]
      rw [hold] at hn
      exact hframes hn
    · rw [hothers i his]
      exact ⟨rfl, rfl⟩
  · unfold gfnToPage
    by_cases his : i = slot
    · subst his
      rw [hold] at h
      have hpos := npages_ne_zero h
      have hphys : old.physMem ≠ 0 := fun h0 => hpos ((hold ▸ ho.slots i).array.2 h0)
      -- the page array is not a new one
      have hsame : x.slot.physMem = old.physMem := by
        by_contra hne
        have h0 := hmem.hasPages hok (by rw [(hframes hpos).2]; exact hpos)
        exact hphys (hspec.array.1 ⟨hne, h0⟩).2.1
      rw [hself, hold, hsame, (hframes hpos).1]
      rfl
    · rw [hothers i his]
      rfl

theorem slotsKept_step (hrun : MemRun .opened s.mem) (hfew : FewCommits s.mem) (hs : UserStep s e s')
    (hkeep : KeepsSlots s e) : SlotsKept s.mem.kvm s'.mem.kvm := by
  obtain ⟨hi, ho⟩ := MemOwned.run hrun
  have hsame : ∀ {kvm' : Kvm}, kvm'.memslots = s.mem.kvm.memslots → kvm'.pageArray = s.mem.kvm.pageArray →
      SlotsKept s.mem.kvm kvm' := fun hslots harrays =>
    slotsKept_of_eq ho (fun i => congrFun hslots i) fun a _ => congrFun harrays a
  cases hs with
  | setMemoryRegion mem _ =>
    unfold MemSystem.setMemoryRegion
    split <;> exact hsame rfl rfl
  | getDirtyLog slot _ => exact hsame rfl rfl
  | call copied hc hfresh hfree =>
    rename_i t c allocs
    rcases MemCall.step_cases hc hfresh copied with hothers | ⟨mem, slot, old, x, version, start, rfl, hok, hv, heq⟩
    · exact slotsKept_of_eq ho (fun i => hothers.slots i (by simp)) hothers.arrays
    · show SlotsKept s.mem.kvm (MemCall.step s.mem t allocs copied _).kvm
      rw [heq]
      exact slotsKept_commit hi ho hfew hc hok hv hkeep
  | vcpu bitmap pages => exact hsame rfl rfl
  | _ => exact hsame rfl rfl

/-- The pages of faults and mappings are those of the slots. -/
structure UserCoherent (s : UserSystem) : Prop where
  counts : Counts s.pool s.refs
  pages : ∀ f, f ∈ s.found ∨ f ∈ s.taken ∨ f ∈ s.ptes → Coherent s.mem.kvm f

theorem userStep_page (hs : UserStep s e s') {f : UserPage} (hf : f ∈ s'.found ∨ f ∈ s'.taken ∨ f ∈ s'.ptes) :
    (f ∈ s.found ∨ f ∈ s.taken ∨ f ∈ s.ptes) ∨ s'.mem = s.mem ∧ Coherent s.mem.kvm f := by
  cases hs with
  | find vma address h =>
    rcases hf with hf | hf
    · rcases Multiset.mem_cons.1 hf with rfl | hf
      · exact Or.inr ⟨rfl, coherent_find h⟩
      · exact Or.inl (Or.inl hf)
    · exact Or.inl (Or.inr hf)
  | get h =>
    rcases hf with hf | hf | hf
    · exact Or.inl (Or.inl (Multiset.mem_of_mem_erase hf))
    · rcases Multiset.mem_cons.1 hf with rfl | hf
      · exact Or.inl (Or.inl h)
      · exact Or.inl (Or.inr (Or.inl hf))
    · exact Or.inl (Or.inr (Or.inr hf))
  | install h _ =>
    rcases hf with hf | hf | hf
    · exact Or.inl (Or.inl hf)
    · exact Or.inl (Or.inr (Or.inl (Multiset.mem_of_mem_erase hf)))
    · rcases Multiset.mem_cons.1 hf with rfl | hf
      · exact Or.inl (Or.inr (Or.inl h))
      · exact Or.inl (Or.inr (Or.inr hf))
  | drop h =>
    refine Or.inl (hf.imp_right (Or.imp_left ?_))
    exact Multiset.mem_of_mem_erase
  | zap h =>
    refine Or.inl (hf.imp_right (Or.imp_right ?_))
    exact Multiset.mem_of_mem_erase
  | _ => exact Or.inl hf

theorem userCoherent_run (h : UserRun KeepsSlots .opened s) : UserCoherent s := by
  induction h with
  | refl =>
    refine ⟨counts_fresh, fun f hf => ?_⟩
    rcases hf with hf | hf | hf <;> exact absurd hf (Multiset.notMem_zero _)
  | tail hrun hstep ih =>
    obtain ⟨⟨e, hs, hkeep⟩, hfew⟩ := hstep
    have hmem := UserRun.mem hrun
    obtain ⟨hi, ho⟩ := MemOwned.run hmem
    have hi' : MemInv _ := (MemOwned.run (UserRun.mem (hrun.tail ⟨⟨e, hs, hkeep⟩, hfew⟩))).1
    refine ⟨counts_step ih.counts hmem hs ?_, fun f hf => ?_⟩
    · rintro f rfl
      -- the page of a fault belongs to a slot
      cases hs with
      | get hf =>
        obtain ⟨i, hheld⟩ := coherent_held ho (ih.pages f (Or.inl hf))
        exact ho.owned.held_live _ _ hheld
    · rcases userStep_page hs hf with hf | ⟨hsame, hf⟩
      · exact (ih.pages f hf).kept hi hi' (slotsKept_step hmem hfew hs hkeep)
      · rw [hsame]
        exact hf

/-- **A process sees the memory of the guest.**  What is mapped at an offset of the file is the page that the guest has at
this physical address, no other offset has it, and it is not free. -/
theorem user_sees_guest (h : UserRun KeepsSlots .opened s) : ∀ e ∈ s.ptes,
    gfnToPageOrNull s.mem.kvm e.pgoff = some e.page ∧ s.pool.free e.page = false ∧
      ∀ e' ∈ s.ptes, e'.page = e.page → e'.pgoff = e.pgoff := by
  intro e he
  obtain ⟨hcounts, hpages⟩ := userCoherent_run h
  obtain ⟨hi, ho⟩ := MemOwned.run h.mem
  refine ⟨hpages e (Or.inr (Or.inr he)), hcounts.not_free ?_, fun e' he' hp => ?_⟩
  · exact Multiset.mem_add.2 (Or.inr (Multiset.mem_add.2 (Or.inr (Multiset.mem_map_of_mem _ he))))
  · exact coherent_pgoff hi ho (SlotsLaidOut.run h.mem) (hpages e (Or.inr (Or.inr he))) (hpages e' (Or.inr (Or.inr he'))) hp

theorem slotsKept_run (h₀ : UserRun KeepsSlots .opened s) (h : UserRun KeepsSlots s s') : SlotsKept s.mem.kvm s'.mem.kvm := by
  induction h with
  | refl => exact ⟨fun _ _ => ⟨rfl, rfl⟩, fun _ _ _ => rfl⟩
  | tail hrun hstep ih =>
    obtain ⟨⟨e, hs, hkeep⟩, hfew⟩ := hstep
    exact ih.trans (slotsKept_step (UserRun.mem (h₀.trans hrun)) hfew hs hkeep)

/-! ### The memory of `libkvm` -/

namespace Libkvm

def dosmem : BitVec 64 := 0xa0000
def exmem : BitVec 64 := 0xc0000

/-- `low_memory` in `kvm_create`. -/
def lowMemory (memory : BitVec 64) : KvmMemoryRegion where
  slot := 3
  flags := 0
  guestPhysAddr := 0
  memorySize := if memory < dosmem then memory else dosmem

/-- `extended_memory` in `kvm_create`, which makes no call if it is empty. -/
def extendedMemory (memory : BitVec 64) : KvmMemoryRegion where
  slot := 0
  flags := 0
  guestPhysAddr := exmem
  memorySize := if memory < exmem then 0 else memory - exmem

/-- The slots after the calls of `kvm_create`. -/
structure Created (memory : BitVec 64) (kvm : Kvm) : Prop where
  low : (kvm.memslots 3).baseGfn = (lowMemory memory).baseGfn ∧ (kvm.memslots 3).npages = (lowMemory memory).npages
  extended : exmem < memory → (kvm.memslots 0).baseGfn = (extendedMemory memory).baseGfn ∧
    (kvm.memslots 0).npages = (extendedMemory memory).npages
  others : ∀ i, i ≠ 3 → (i = 0 → ¬exmem < memory) → (kvm.memslots i).npages = 0

variable {memory vmMem a : BitVec 64}

theorem toNat_lowSize : (lowMemory memory).memorySize.toNat = min memory.toNat 0xa0000 := by
  have hdos : dosmem.toNat = 0xa0000 := rfl
  unfold lowMemory
  dsimp only
  split
  · rename_i h
    rw [BitVec.lt_def, hdos] at h
    omega
  · rename_i h
    rw [BitVec.lt_def, hdos] at h
    omega

theorem toNat_extendedSize (h : exmem < memory) : (extendedMemory memory).memorySize.toNat = memory.toNat - 0xc0000 := by
  have hex : exmem.toNat = 0xc0000 := rfl
  rw [BitVec.lt_def, hex] at h
  unfold extendedMemory
  dsimp only
  rw [if_neg (by rw [BitVec.lt_def, hex]; omega), BitVec.toNat_sub, hex]
  have := memory.isLt
  omega

/-- The frames of the first slot, and of the second one. -/
theorem Created.contains_low (h : Created memory kvm) (gfn : Nat) :
    (kvm.memslots 3).contains gfn = decide (gfn < min memory.toNat 0xa0000 / 4096) := by
  have hbase : (lowMemory memory).baseGfn = 0 := (by decide : gfnOf 0 = 0)
  have hnpages : (lowMemory memory).npages = min memory.toNat 0xa0000 / 4096 := by
    unfold KvmMemoryRegion.npages
    rw [gfnOf_eq, toNat_lowSize]
  unfold KvmMemorySlot.contains
  rw [h.low.1, h.low.2, hbase, hnpages]
  simp

theorem Created.contains_extended (h : Created memory kvm) (hex : exmem < memory) (gfn : Nat) :
    (kvm.memslots 0).contains gfn = decide (0xc0 ≤ gfn ∧ gfn < 0xc0 + (memory.toNat - 0xc0000) / 4096) := by
  have hbase : (extendedMemory memory).baseGfn = 0xc0 := (by decide : gfnOf exmem = 0xc0)
  have hnpages : (extendedMemory memory).npages = (memory.toNat - 0xc0000) / 4096 := by
    unfold KvmMemoryRegion.npages
    rw [gfnOf_eq, toNat_extendedSize hex]
  unfold KvmMemorySlot.contains
  rw [(h.extended hex).1, (h.extended hex).2, hbase, hnpages]
  simp

/-- The offset in the file is the physical address. -/
theorem kvmDevNopage_vmMem (kvm : Kvm) (vmMem a : BitVec 64) : kvmDevNopage kvm ⟨vmMem, 0⟩ (vmMem + a) = gpaFrame kvm a := by
  have hpgoff : VmArea.pgoff ⟨vmMem, 0⟩ (vmMem + a) = a >>> pageShift := by
    unfold VmArea.pgoff
    dsimp only
    rw [BitVec.add_comm vmMem, BitVec.add_sub_cancel]
    exact BitVec.add_zero _
  unfold kvmDevNopage
  rw [hpgoff]
  unfold gpaFrame gfnOf
  dsimp only
  cases gfnToMemslot kvm (a >>> pageShift).toNat <;> rfl

/-- **The memory of `libkvm` is that of the guest.**  From `kvm_create` on, an access to `vm_mem + a` and one of the guest
to the physical address `a` reach the same byte.  Between 640K and 768K there is no memory, unless a slot is added. -/
theorem vm_mem_layout (hpages : 4096 ∣ memory.toNat) (h₀ : UserRun KeepsSlots .opened s)
    (hcreated : Created memory s.mem.kvm) (h : UserRun KeepsSlots s s') (ha : a < memory) :
    (a < dosmem ∨ exmem ≤ a → ∃ p, kvmDevNopage s'.mem.kvm ⟨vmMem, 0⟩ (vmMem + a) = some p ∧
      gpaToHpa s'.mem.kvm a = hpaOf p ||| (a &&& (pageSize - 1#64)) ∧
      ∀ e ∈ s'.ptes, e.pgoff = a >>> pageShift → e.page = p) ∧
    (dosmem ≤ a → a < exmem →
      (∀ i, (s.mem.kvm.memslots i).npages = 0 → (s'.mem.kvm.memslots i).contains (gfnOf a) = false) →
      kvmDevNopage s'.mem.kvm ⟨vmMem, 0⟩ (vmMem + a) = none) := by
  have hkept := slotsKept_run h₀ h
  have hi := (MemOwned.run (UserRun.mem (h₀.trans h))).1
  have hdos : dosmem.toNat = 0xa0000 := rfl
  have hex : exmem.toNat = 0xc0000 := rfl
  have hgfn := gfnOf_eq a
  rw [BitVec.lt_def] at ha
  rw [kvmDevNopage_vmMem]
  constructor
  · intro hram
    obtain ⟨i, hcontains⟩ : ∃ i, (s.mem.kvm.memslots i).contains (gfnOf a) = true := by
      rcases hram with hlow | hhigh
      · rw [BitVec.lt_def, hdos] at hlow
        refine ⟨3, ?_⟩
        rw [hcreated.contains_low, decide_eq_true_eq]
        omega
      · rw [BitVec.le_def, hex] at hhigh
        refine ⟨0, ?_⟩
        rw [hcreated.contains_extended (by rw [BitVec.lt_def, hex]; omega), decide_eq_true_eq]
        omega
    have hslot : gfnToMemslot s'.mem.kvm (gfnOf a) = some i :=
      (gfnToMemslot_iff hi.slots hi.nmemslots _ _).2 ((hkept.contains (npages_ne_zero hcontains) _).trans hcontains)
    have hframe : gpaFrame s'.mem.kvm a = some (gfnToPage s'.mem.kvm i (gfnOf a)) := by
      unfold gpaFrame
      rw [hslot]
      rfl
    refine ⟨_, hframe, gpaToHpa_of_some hframe, fun e he hoff => ?_⟩
    have hmapped := (userCoherent_run (h₀.trans h)).pages e (Or.inr (Or.inr he))
    unfold Coherent at hmapped
    rw [hoff] at hmapped
    exact Option.some.inj (hmapped.symm.trans hframe)
  · intro hlow hhigh hempty
    rw [BitVec.le_def, hdos] at hlow
    rw [BitVec.lt_def, hex] at hhigh
    have hnone : ∀ i, (s'.mem.kvm.memslots i).contains (gfnOf a) = false := by
      intro i
      by_cases hn : (s.mem.kvm.memslots i).npages = 0
      · exact hempty i hn
      · rw [hkept.contains hn, Bool.eq_false_iff]
        intro hcontains
        by_cases h3 : i = 3
        · subst h3
          rw [hcreated.contains_low, decide_eq_true_eq] at hcontains
          omega
        · by_cases h0 : i = 0 ∧ exmem < memory
          · obtain ⟨rfl, hmem⟩ := h0
            rw [hcreated.contains_extended hmem, decide_eq_true_eq] at hcontains
            omega
          · exact hn (hcreated.others i h3 fun hi0 hmem => h0 ⟨hi0, hmem⟩)
    unfold gpaFrame
    rw [Option.map_eq_none_iff]
    cases hslot : gfnToMemslot s'.mem.kvm (gfnOf a) with
    | none => rfl
    | some i =>
      rw [gfnToMemslot_iff hi.slots hi.nmemslots, hnone i] at hslot
      cases hslot

end Libkvm

/-! ### A process and its fault -/

theorem UserRun.call {s₀ : UserSystem} (hrun : UserRun ok s₀ s) (hc : s.mem.calls t = some c)
    (hfresh : allocs.Fresh s.mem.live) (hpool : ∀ i p, allocs.page i = some p → s.pool.free p = true) (hok : ok s (.call c))
    (hfew : s.mem.commits < 2 ^ 32) (hm : c.step s.mem t allocs true = m) :
    UserRun ok s₀ { s with mem := m, pool := (c.ops s.mem allocs).foldl HeapOp.onPool s.pool } := by
  subst hm
  exact hrun.tail ⟨⟨_, .call true hc hfresh hpool, hok⟩, fewCommits_of_lt hfew⟩

/-- A call that runs alone replaces the slot. -/
theorem userRun_call {mem : KvmMemoryRegion} {slot : Fin 4} {old : KvmMemorySlot} {x : Allocated} (hfree : s.mem.Free t)
    (hsane : mem.sanityChecks = some slot) (hcheck : checkRegion s.mem.kvm mem slot = none)
    (hfresh : allocs.Fresh s.mem.live) (hpool : ∀ i p, allocs.page i = some p → s.pool.free p = true)
    (hold : s.mem.kvm.memslots slot = old) (hx : x = allocRegion allocs (newSlot mem old)) (hxok : x.ok = true)
    (hbusy : s.mem.kvm.busy = 0) (hfew : s.mem.commits + 1 < 2 ^ 32) (hother : ∀ s, ok s .other)
    (hcall : ∀ s c, (∀ mem' slot' old' x' v n, c = .allocated mem' slot' old' x' v n → mem' = mem ∧ old' = old) →
      ok s (.call c)) :
    ∃ s', UserRun ok s s' ∧ s'.mem.Free t ∧ s'.mem.commits = s.mem.commits + 1 ∧
      s'.mem.kvm = commitRegion (x.store old s.mem.kvm) slot x.slot ∧
      s'.mem.live = runOps (runOps s.mem.live x.ops)
        (kvmFreePhysmemSlot (fun i => some ((x.store old s.mem.kvm).pageArray old.physMem i)) old (some x.slot)) ∧
      s'.found = s.found ∧ s'.taken = s.taken ∧ s'.ptes = s.ptes := by
  have hnone : ∀ pool : Pool Pfn, ∀ i p, noAllocs.page i = some p → pool.free p = true := fun _ _ _ h => by cases h
  have hraced : UserRun ok s { s with mem := s.mem.setCall t (.raced mem slot) } := by
    have h := UserStep.setMemoryRegion mem hfree
    unfold MemSystem.setMemoryRegion at h
    rw [hsane] at h
    exact .single ⟨⟨_, h, hother _⟩, fewCommits_of_lt (by omega)⟩
  have hstep1 := (step_raced (s.mem.setCall t (.raced mem slot)) t noAllocs true mem slot).resolve_left fun ⟨r, hr, _⟩ => by
    have hr : checkRegion s.mem.kvm mem slot = some r := hr
    rw [hcheck] at hr
    cases hr
  have hchecked := hraced.call (MemSystem.setCall_self ..) (noAllocs_fresh _) (hnone _)
    (hcall _ _ fun _ _ _ _ _ _ h => by cases h) (by show s.mem.commits < _; omega) hstep1.2
  have hallocated := hchecked.call (MemSystem.setCall_self ..) hfresh hpool
    (hcall _ _ fun _ _ _ _ _ _ h => by cases h) (by show s.mem.commits < _; omega) rfl
  have hcommit : ∀ m : MemSystem, m.kvm.memoryConfigVersion = s.mem.kvm.memoryConfigVersion → m.kvm.busy = 0 →
      MemCall.step m t noAllocs true (.allocated mem slot old x s.mem.kvm.memoryConfigVersion s.mem.commits) =
        { m with kvm := commitRegion m.kvm slot x.slot, commits := m.commits + 1 }.setCall t (.committed old x.slot) := by
    intro m hversion hbusy
    unfold MemCall.step
    dsimp only
    rw [hxok, hversion, hbusy, bne_self_eq_false]
    rfl
  subst hold hx
  have hcommitted := hallocated.call (MemSystem.setCall_self ..) (noAllocs_fresh _) (hnone _)
    (hcall _ _ fun _ _ _ _ _ _ h => by cases h; exact ⟨rfl, rfl⟩) (by show s.mem.commits < _; omega) (hcommit _ rfl hbusy)
  have hreset := hcommitted.call (MemSystem.setCall_self ..) (noAllocs_fresh _) (hnone _)
    (hcall _ _ fun _ _ _ _ _ _ h => by cases h) (by show s.mem.commits + 1 < _; omega) rfl
  have hreturned := hreset.call (MemSystem.setCall_self ..) (noAllocs_fresh _) (hnone _)
    (hcall _ _ fun _ _ _ _ _ _ h => by cases h) (by show s.mem.commits + 1 < _; omega) rfl
  have hfree : ∀ m : MemSystem, (m.setCall t (.returned 0 none)).Free t := fun m c hc => by
    rw [MemSystem.setCall_self] at hc
    exact ⟨0, none, (Option.some.inj hc).symm⟩
  exact ⟨_, hreturned, hfree _, rfl, rfl, rfl, rfl, rfl, rfl⟩

theorem UserRun.mono {ok' : UserSystem → UserEvent → Prop} (hok : ∀ s e, ok s e → ok' s e) (h : UserRun ok s s') :
    UserRun ok' s s' :=
  ReflTransGen.mono (fun _ _ ⟨⟨e, hs, he⟩, hfew⟩ => ⟨⟨e, hs, hok _ e he⟩, hfew⟩) _ _ h

/-- The first page of a machine with one page, in a process. -/
def firstPage : UserPage := ⟨0x10000, 0, 7⟩

/-- A machine with one page, and the fault of a process that has found it. -/
theorem exists_found : ∃ s s', UserRun (fun s e => KeepsSlots s e ∧ Prompt s e) .opened s ∧
    UserRun (fun s e => KeepsSlots s e ∧ Prompt s e) s s' ∧ Libkvm.Created 0x1000 s.mem.kvm ∧ s'.mem = s.mem ∧
    s.mem.kvm = commitRegion (onePageSlot.store emptySlot default) 3 onePageSlot.slot ∧
    s.mem.live = runOps [] onePageSlot.ops ∧ s'.found = {firstPage} ∧ s'.taken = 0 ∧ s'.ptes = 0 ∧ s.mem.Free 0 ∧
    s.mem.commits = 1 := by
  have hkeeps : ∀ (s : UserSystem) (c : MemCall), (∀ mem' slot' old' x' v n, c = .allocated mem' slot' old' x' v n →
      mem' = Libkvm.lowMemory 0x1000 ∧ old' = emptySlot) → KeepsSlots s (.call c) ∧ Prompt s (.call c) := by
    intro s c hc
    refine ⟨?_, trivial⟩
    cases c with
    | allocated mem' slot' old' x' v n =>
      obtain ⟨-, rfl⟩ := hc _ _ _ _ _ _ rfl
      exact Or.inl rfl
    | _ => trivial
  obtain ⟨s, hrun, hfree, hcommits, hkvm, hlive, hfound, htaken, hptes⟩ :=
    @userRun_call (fun s e => KeepsSlots s e ∧ Prompt s e) .opened 0 onePageAllocs (Libkvm.lowMemory 0x1000) 3 emptySlot
      onePageSlot (fun c hc => by cases hc) (by decide) (by decide) onePageAllocs_fresh (fun _ _ _ => rfl) rfl rfl rfl rfl
      (by decide) (fun _ => ⟨trivial, trivial⟩) hkeeps
  have hpage : kvmDevNopage s.mem.kvm ⟨0x10000, 0⟩ 0x10000 = some 7 := by
    rw [hkvm]
    rfl
  refine ⟨s, _, hrun, .single ⟨⟨_, .find ⟨0x10000, 0⟩ 0x10000 hpage, trivial, trivial⟩, ?_⟩, ?_, rfl, hkvm, hlive, ?_, htaken,
    hptes, hfree, hcommits⟩
  · exact fewCommits_of_lt (by rw [hcommits]; decide)
  · rw [hkvm]
    refine ⟨⟨rfl, rfl⟩, fun h => absurd h (by decide), fun i hi _ => ?_⟩
    rw [show ∀ kvm : Kvm, (commitRegion kvm 3 onePageSlot.slot).memslots i = kvm.memslots i from fun _ =>
      Function.update_of_ne hi ..]
    rfl
  · show _ ::ₘ s.found = _
    rw [hfound]
    rfl

theorem exists_mapped : ∃ s s', UserRun (fun s e => KeepsSlots s e ∧ Prompt s e) .opened s ∧
    UserRun (fun s e => KeepsSlots s e ∧ Prompt s e) s s' ∧ Libkvm.Created 0x1000 s.mem.kvm ∧ firstPage ∈ s'.ptes := by
  obtain ⟨s, s', h, h', hcreated, hmem, -, hlive, hfound, htaken, hptes, -, hcommits⟩ := exists_found
  have hf : firstPage ∈ s'.found := by
    rw [hfound]
    exact Multiset.mem_singleton_self _
  have hpage : .page firstPage.page ∈ s'.mem.live := by
    rw [hmem, hlive]
    decide
  have hfew : FewCommits s'.mem := fewCommits_of_lt (by rw [hmem, hcommits]; decide)
  have hget := h'.tail ⟨⟨_, .get hf, trivial, hpage⟩, hfew⟩
  refine ⟨s, _, h, hget.tail ⟨⟨_, .install (Multiset.mem_cons_self _ _) fun e he => ?_, trivial, trivial⟩, hfew⟩, hcreated,
    Multiset.mem_cons_self _ _⟩
  have he : e ∈ s'.ptes := he
  rw [hptes] at he
  exact absurd he (Multiset.notMem_zero _)

theorem user_pages_counted_mapped : ∃ s : UserSystem, firstPage ∈ s.ptes ∧ s.pool.free 7 = false := by
  obtain ⟨s, s', h, h', -, hmapped⟩ := exists_mapped
  exact ⟨s', hmapped, (user_pages_counted (UserRun.mono (fun _ _ => And.right) (h.trans h'))).1 _ hmapped⟩

theorem user_sees_guest_mapped : ∃ s : UserSystem, firstPage ∈ s.ptes ∧ gfnToPageOrNull s.mem.kvm 0 = some 7 := by
  obtain ⟨s, s', h, h', -, hmapped⟩ := exists_mapped
  exact ⟨s', hmapped, (user_sees_guest (UserRun.mono (fun _ _ => And.left) (h.trans h')) _ hmapped).1⟩

theorem vm_mem_layout_mapped : ∃ (s : UserSystem) (p : Pfn), firstPage ∈ s.ptes ∧
    kvmDevNopage s.mem.kvm ⟨0x10000, 0⟩ (0x10000 + 0x234) = some p ∧ 7 = p := by
  obtain ⟨s, s', h, h', hcreated, hmapped⟩ := exists_mapped
  obtain ⟨p, hp, -, hsame⟩ := (Libkvm.vm_mem_layout (by decide) (UserRun.mono (fun _ _ => And.left) h) hcreated
    (UserRun.mono (fun _ _ => And.left) h') (by decide : (0x234 : BitVec 64) < 0x1000)).1 (Or.inl (by decide))
  exact ⟨s', p, hmapped, hp, hsame _ hmapped rfl⟩

/-- The request that removes the slot. -/
def removal : KvmMemoryRegion := { Libkvm.lowMemory 0x1000 with memorySize := 0 }

/-- Without `Prompt`, a process gets a page that has been freed. -/
theorem freed_page_in_process : ¬∀ s, UserRun (fun _ _ => True) .opened s → ∀ e ∈ s.ptes, s.pool.free e.page = false := by
  intro hall
  obtain ⟨s, s', h, h', -, hmem, hkvm, hlive, hfound, htaken, hptes, hfree, hcommits⟩ := exists_found
  have hrun := UserRun.mono (fun _ _ => And.right) (h.trans h')
  rw [← hmem] at hkvm hlive hfree hcommits
  obtain ⟨t, ht, -, htcommits, -, htlive, htfound, httaken, htptes⟩ :=
    @userRun_call Prompt s' 0 noAllocs removal 3 onePageSlot.slot
      (allocRegion noAllocs (newSlot removal onePageSlot.slot)) hfree (by decide) (by rw [hkvm]; rfl) (noAllocs_fresh _)
      (fun _ _ h => by cases h) (by rw [hkvm]; rfl) rfl rfl (by rw [hkvm]; rfl) (by rw [hcommits]; decide)
      (fun _ => trivial) fun _ _ _ => trivial
  -- the page is free now
  have hnot : t.pool.free 7 = true := by
    rw [(userRun_counts (hrun.trans ht)).free, UserSystem.refs, httaken, htptes, htaken, hptes, htlive, hkvm, hlive]
    decide
  have hf : firstPage ∈ t.found := by
    rw [htfound, hfound]
    exact Multiset.mem_singleton_self _
  have hfew : FewCommits t.mem := fewCommits_of_lt (by rw [htcommits, hcommits]; decide)
  have hany := UserRun.mono (fun _ _ _ => trivial) (hrun.trans ht)
  have hget := hany.tail ⟨⟨_, .get hf, trivial⟩, hfew⟩
  refine absurd (hall _ (hget.tail ⟨⟨_, .install (Multiset.mem_cons_self _ _) fun e he => ?_, trivial⟩, hfew⟩) firstPage
    (Multiset.mem_cons_self _ _)) ?_
  · have he : e ∈ t.ptes := he
    rw [htptes, hptes] at he
    exact absurd he (Multiset.notMem_zero _)
  · show ¬t.pool.free 7 = false
    rw [hnot]
    decide

end LearnKvm
