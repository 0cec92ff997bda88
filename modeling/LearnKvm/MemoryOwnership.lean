import LearnKvm.MemoryCalls
import LearnKvm.Lib.Ownership

/-!
# Who has the memory of the slots

At any time the page array, the pages and the bitmap of a slot belong to that slot, and a call of KVM_SET_MEMORY_REGION
has what it has allocated and not yet committed, or what it has replaced and not yet freed.  Nothing is held twice, and
what is held is allocated (`MemOwned`).  A commit exchanges the memory of a slot and a call; it does so as long as the
slot is the one that the checks have seen.
-/

namespace LearnKvm

open Relation Ownership

variable {kvm : Kvm} {mem : KvmMemoryRegion} {slot : Fin 4} {old new : KvmMemorySlot} {x : Allocated}
  {allocs : RegionAllocs} {s s' : MemSystem} {t : Nat} {c : MemCall} {r : Resource}

/-! ### Operations on the heap -/

/-- What is freed was live before; everything else stays. -/
theorem mem_runOps {ops : List HeapOp} {live : List Resource} (h : r ∈ live ∨ r ∈ allocated ops)
    (hfree : some r ∉ freed ops) : r ∈ runOps live ops := by
  induction ops generalizing live with
  | nil =>
    rcases h with h | h
    · exact h
    · cases h
  | cons op ops ih =>
    cases op with
    | allocPage p =>
      refine ih ?_ hfree
      rcases h with h | h
      · exact Or.inl (List.mem_cons_of_mem _ h)
      · rcases List.mem_cons.1 h with rfl | h
        · exact Or.inl List.mem_cons_self
        · exact Or.inr h
    | vmalloc a =>
      refine ih ?_ hfree
      rcases h with h | h
      · exact Or.inl (List.mem_cons_of_mem _ h)
      · rcases List.mem_cons.1 h with rfl | h
        · exact Or.inl List.mem_cons_self
        · exact Or.inr h
    | freePage p =>
      cases p with
      | none => exact ih h fun hno => hfree (List.mem_cons_of_mem _ hno)
      | some p =>
        refine ih (h.imp_left fun h => (List.mem_erase_of_ne ?_).2 h) fun hno => hfree (List.mem_cons_of_mem _ hno)
        rintro rfl
        exact hfree List.mem_cons_self
    | vfree a =>
      refine ih (h.imp_left fun h => (List.mem_erase_of_ne ?_).2 h) fun hno => hfree (List.mem_cons_of_mem _ hno)
      rintro rfl
      exact hfree List.mem_cons_self

theorem nodup_runOps {ops : List HeapOp} {live : List Resource} (hlive : live.Nodup) (hnew : (allocated ops).Nodup)
    (hfresh : ∀ r ∈ allocated ops, r ∉ live) : (runOps live ops).Nodup := by
  induction ops generalizing live with
  | nil => exact hlive
  | cons op ops ih =>
    have halloc : ∀ r0, allocated (op :: ops) = r0 :: allocated ops → HeapOp.run live op = r0 :: live →
        (runOps live (op :: ops)).Nodup := by
      intro r0 h0 hrun
      rw [h0] at hnew hfresh
      show (runOps (HeapOp.run live op) ops).Nodup
      rw [hrun]
      refine ih (List.nodup_cons.2 ⟨hfresh r0 List.mem_cons_self, hlive⟩) (List.nodup_cons.1 hnew).2 fun r hr hno => ?_
      rcases List.mem_cons.1 hno with rfl | hno
      · exact (List.nodup_cons.1 hnew).1 hr
      · exact hfresh r (List.mem_cons_of_mem _ hr) hno
    cases op with
    | allocPage p => exact halloc _ rfl rfl
    | vmalloc a => exact halloc _ rfl rfl
    | freePage p =>
      cases p with
      | none => exact ih hlive hnew hfresh
      | some p => exact ih (hlive.erase _) hnew fun r hr hno => hfresh r hr (List.mem_of_mem_erase hno)
    | vfree a => exact ih (hlive.erase _) hnew fun r hr hno => hfresh r hr (List.mem_of_mem_erase hno)

theorem mem_ownedOnly {pages : List Pfn} {m other : KvmMemorySlot} : r ∈ ownedOnly pages m other ↔
    NewArray m other ∧ (r = .array m.physMem ∨ ∃ p ∈ pages, r = .page p) ∨
      NewBitmap m other ∧ r = .array m.dirtyBitmap := by
  unfold ownedOnly
  rw [List.mem_append]
  refine or_congr ?_ ?_
  · split
    · rename_i h
      simp only [h, List.mem_append, List.mem_map, List.mem_singleton, true_and]
      constructor
      · rintro (⟨p, hp, rfl⟩ | rfl)
        · exact Or.inr ⟨p, hp, rfl⟩
        · exact Or.inl rfl
      · rintro (rfl | ⟨p, hp, rfl⟩)
        · exact Or.inr rfl
        · exact Or.inl ⟨p, hp, rfl⟩
    · rename_i h
      simp [h]
  · split
    · rename_i h
      simp [h]
    · rename_i h
      simp [h]

/-- The cleanup frees only what the one slot has and the other has not. -/
theorem mem_ownedOnly_of_freed {entries : Nat → Option Pfn} {pages : List Pfn} {m other : KvmMemorySlot}
    (hentries : ∀ i < m.npages, ∀ p, entries i = some p → p ∈ pages)
    (h : some r ∈ freed (kvmFreePhysmemSlot entries m (some other))) : r ∈ ownedOnly pages m other := by
  rw [freed_free, List.mem_append] at h
  rw [mem_ownedOnly]
  rcases h with h | h
  · split at h
    · rename_i hnew
      refine Or.inl ⟨hnew, ?_⟩
      rcases List.mem_append.1 h with h | h
      · obtain ⟨i, hi, hr⟩ := List.mem_map.1 h
        obtain ⟨p, hp, rfl⟩ := Option.map_eq_some_iff.1 hr
        exact Or.inr ⟨p, hentries i (List.mem_range.1 hi) p hp, rfl⟩
      · exact Or.inl (Option.some.inj (List.mem_singleton.1 h))
    · cases h
  · split at h
    · rename_i hnew
      exact Or.inr ⟨hnew, Option.some.inj (List.mem_singleton.1 h)⟩
    · cases h

/-! ### Owners -/

/-- A slot or a call. -/
abbrev MemOwner := Fin 4 ⊕ Nat

def noMemory : KvmMemorySlot where
  baseGfn := 0
  npages := 0
  flags := 0
  physMem := 0
  dirtyBitmap := 0

/-- The memory of a slot. -/
def slotMemory (kvm : Kvm) (m : KvmMemorySlot) : List Resource := ownedOnly (slotPages kvm m) m noMemory

/-- The memory that a call has allocated and not committed, or is to free. -/
def MemCall.memory (kvm : Kvm) : MemCall → List Resource
  | allocated _ _ old x _ _ => ownedOnly x.pages x.slot old
  | committed old new => ownedOnly (slotPages kvm old) old new
  | reset old new => ownedOnly (slotPages kvm old) old new
  | _ => []

def MemSystem.held (s : MemSystem) : MemOwner → Set Resource
  | .inl i => {r | r ∈ slotMemory s.kvm (s.kvm.memslots i)}
  | .inr t => {r | ∃ c, s.calls t = some c ∧ r ∈ c.memory s.kvm}

/-- A slot has a page array if it has pages, and the array is not its bitmap. -/
structure SlotShape (m : KvmMemorySlot) : Prop where
  array : m.npages = 0 ↔ m.physMem = 0
  bitmap : m.physMem ≠ 0 → m.physMem ≠ m.dirtyBitmap

/-- What a call has allocated. -/
structure NewMemory (kvm : Kvm) (old : KvmMemorySlot) (x : Allocated) : Prop where
  pages : NewArray x.slot old → kvm.pageArray x.slot.physMem = fun i => x.pages.getD i 0
  bitmap : NewArray x.slot old → NewBitmap x.slot old → x.slot.physMem ≠ x.slot.dirtyBitmap

def CallMemory (kvm : Kvm) : MemCall → Prop
  | .allocated _ _ old x _ _ => NewMemory kvm old x
  | _ => True

structure MemOwned (s : MemSystem) : Prop where
  owned : Owned s.held {r | r ∈ s.live}
  nodup : s.live.Nodup
  slots : ∀ i, SlotShape (s.kvm.memslots i)
  calls : ∀ t c, s.calls t = some c → CallMemory s.kvm c

theorem memOwned_opened : MemOwned .opened := by
  refine ⟨⟨?_, ?_⟩, List.nodup_nil, fun i => ⟨⟨fun _ => rfl, fun _ => rfl⟩, fun h => absurd rfl h⟩, fun t c h => by cases h⟩
  · rintro (i | t) r hr
    · rcases mem_ownedOnly.1 hr with ⟨⟨-, h⟩, -⟩ | ⟨⟨-, h⟩, -⟩ <;> exact absurd rfl h
    · obtain ⟨c, hc, -⟩ := hr
      cases hc
  · rintro (i | t) o r hr -
    · rcases mem_ownedOnly.1 hr with ⟨⟨-, h⟩, -⟩ | ⟨⟨-, h⟩, -⟩ <;> exact absurd rfl h
    · obtain ⟨c, hc, -⟩ := hr
      cases hc

/-! ### Owners that do not act -/

/-- The other slots and calls are the same, and so are the arrays that have been live. -/
structure OthersKept (s s' : MemSystem) (actors : Set MemOwner) : Prop where
  slots : ∀ i, .inl i ∉ actors → s'.kvm.memslots i = s.kvm.memslots i
  calls : ∀ u, .inr u ∉ actors → s'.calls u = s.calls u
  arrays : ∀ a, .array a ∈ s.live → s'.kvm.pageArray a = s.kvm.pageArray a

theorem ownedOnly_congr {kvm' : Kvm} {m other : KvmMemorySlot} {live : List Resource}
    (hlive : ∀ r ∈ ownedOnly (slotPages kvm m) m other, r ∈ live)
    (h : ∀ a, .array a ∈ live → kvm'.pageArray a = kvm.pageArray a) :
    ownedOnly (slotPages kvm' m) m other = ownedOnly (slotPages kvm m) m other := by
  by_cases hnew : NewArray m other
  · have := hlive _ (mem_ownedOnly.2 (Or.inl ⟨hnew, Or.inl rfl⟩))
    unfold slotPages
    rw [h _ this]
  · unfold ownedOnly
    rw [if_neg hnew, if_neg hnew]

theorem MemCall.memory_congr {kvm' : Kvm} {live : List Resource} (hlive : ∀ r ∈ c.memory kvm, r ∈ live)
    (h : ∀ a, .array a ∈ live → kvm'.pageArray a = kvm.pageArray a) : c.memory kvm' = c.memory kvm := by
  cases c with
  | committed old new => exact ownedOnly_congr hlive h
  | reset old new => exact ownedOnly_congr hlive h
  | _ => rfl

theorem MemOwned.held_eq (hi : MemOwned s) {actors : Set MemOwner} (h : OthersKept s s' actors) :
    ∀ o ∉ actors, s'.held o = s.held o := by
  rintro (i | u) ho
  · have hlive : ∀ r ∈ slotMemory s.kvm (s.kvm.memslots i), r ∈ s.live := hi.owned.held_live (.inl i)
    unfold MemSystem.held
    dsimp only
    rw [h.slots i ho]
    unfold slotMemory at hlive ⊢
    rw [ownedOnly_congr hlive h.arrays]
  · have hlive : ∀ c, s.calls u = some c → ∀ r ∈ c.memory s.kvm, r ∈ s.live := fun c hc r hr =>
      hi.owned.held_live (.inr u) r ⟨c, hc, hr⟩
    unfold MemSystem.held
    dsimp only
    rw [h.calls u ho]
    ext r
    constructor
    · rintro ⟨c, hc, hr⟩
      exact ⟨c, hc, by rwa [MemCall.memory_congr (hlive c hc) h.arrays] at hr⟩
    · rintro ⟨c, hc, hr⟩
      exact ⟨c, hc, by rwa [MemCall.memory_congr (hlive c hc) h.arrays]⟩

theorem MemOwned.callMemory (hi : MemOwned s) {actors : Set MemOwner} (h : OthersKept s s' actors) {u : Nat}
    (hu : .inr u ∉ actors) (hc : s'.calls u = some c) : CallMemory s'.kvm c := by
  rw [h.calls u hu] at hc
  have hmem := hi.calls u c hc
  cases c with
  | allocated mem slot old x version start =>
    refine ⟨fun hnew => ?_, hmem.bitmap⟩
    have hlive := hi.owned.held_live (.inr u) (.array x.slot.physMem) ⟨_, hc, mem_ownedOnly.2 (Or.inl ⟨hnew, Or.inl rfl⟩)⟩
    rw [h.arrays _ hlive]
    exact hmem.pages hnew
  | _ => trivial

/-- A call frees some of its memory, or keeps all of it allocated, and has none afterwards. -/
theorem MemOwned.release (hi : MemOwned s) (h : OthersKept s s' {.inr t})
    (hnone : ∀ c, s'.calls t = some c → c.memory s'.kvm = [] ∧ CallMemory s'.kvm c) (hnodup : s'.live.Nodup)
    (hfreed : ∀ r ∈ s.live, r ∉ s'.live → r ∈ s.held (.inr t)) : MemOwned s' := by
  refine ⟨hi.owned.release (hi.held_eq h) ?_ hfreed, hnodup, fun i => ?_, fun u c hc => ?_⟩
  · rintro r ⟨c, hc, hr⟩
    rw [(hnone c hc).1] at hr
    cases hr
  · rw [h.slots i (by simp)]
    exact hi.slots i
  · by_cases hu : u = t
    · subst hu
      exact (hnone c hc).2
    · exact hi.callMemory h (by simpa using hu) hc

/-! ### The allocations -/

theorem mem_allocPages {page : Nat → Option Pfn} {l : List Nat} {p : Pfn} (h : p ∈ (allocPages page l).1) :
    ∃ i ∈ l, page i = some p := by
  induction l with
  | nil => cases h
  | cons i l ih =>
    cases hi : page i with
    | none =>
      rw [allocPages, hi] at h
      cases h
    | some q =>
      rw [allocPages, hi] at h
      rcases List.mem_cons.1 h with rfl | h
      · exact ⟨i, List.mem_cons_self, hi⟩
      · obtain ⟨j, hj, hp⟩ := ih h
        exact ⟨j, List.mem_cons_of_mem _ hj, hp⟩

theorem nodup_allocPages {page : Nat → Option Pfn} {l : List Nat} (hl : l.Nodup)
    (hinj : ∀ i j p, page i = some p → page j = some p → i = j) : (allocPages page l).1.Nodup := by
  induction l with
  | nil => exact List.nodup_nil
  | cons i l ih =>
    obtain ⟨hnot, hl⟩ := List.nodup_cons.1 hl
    cases hi : page i with
    | none =>
      rw [allocPages, hi]
      exact List.nodup_nil
    | some q =>
      rw [allocPages, hi]
      refine List.nodup_cons.2 ⟨fun hq => ?_, ih hl⟩
      obtain ⟨j, hj, hp⟩ := mem_allocPages hq
      exact hnot (hinj i j q hi hp ▸ hj)

/-- Where the memory of a new slot comes from. -/
structure AllocMemory (allocs : RegionAllocs) (old : KvmMemorySlot) (x : Allocated) : Prop where
  array : NewArray x.slot old → allocs.array = some x.slot.physMem
  bitmap : NewBitmap x.slot old → allocs.bitmap = some x.slot.dirtyBitmap
  page : ∀ p ∈ x.pages, ∃ i, allocs.page i = some p
  nodup : (∀ i j p, allocs.page i = some p → allocs.page j = some p → i = j) → x.pages.Nodup
  noPages : x.slot.npages = 0 → x.slot.physMem = 0
  hasPages : x.ok = true → x.slot.npages ≠ 0 → x.slot.physMem ≠ 0

theorem allocArray_memory (allocs : RegionAllocs) (mem : KvmMemoryRegion) (old : KvmMemorySlot) :
    AllocMemory allocs old (allocArray allocs (dropUnneeded (newSlot mem old))) := by
  have hphys : (dropUnneeded (newSlot mem old)).physMem =
      if (dropUnneeded (newSlot mem old)).npages = 0 then 0 else old.physMem := by
    rw [dropUnneeded_npages]
    exact dropUnneeded_physMem _
  have hbitmap : (dropUnneeded (newSlot mem old)).dirtyBitmap = old.dirtyBitmap ∨
      (dropUnneeded (newSlot mem old)).dirtyBitmap = 0 := by
    rcases dropUnneeded_dirtyBitmap (newSlot mem old) with h | ⟨h, -⟩
    · exact Or.inl h
    · exact Or.inr h
  generalize dropUnneeded (newSlot mem old) = new at hphys hbitmap
  have hnoBitmap : ¬NewBitmap new old := by
    rintro ⟨h1, h2⟩
    rcases hbitmap with h | h
    · exact h1 h
    · exact h2 h
  have hnoArray : ¬NewArray new old := by
    rintro ⟨h1, h2⟩
    rw [hphys] at h1 h2
    split at h2
    · exact h2 rfl
    · rename_i h0
      rw [if_neg h0] at h1
      exact h1 rfl
  have hnoPages : new.npages = 0 → new.physMem = 0 := fun h => by rw [hphys, if_pos h]
  have hno : ∀ ok, (ok = true → new.npages ≠ 0 → new.physMem ≠ 0) →
      AllocMemory allocs old { slot := new, pages := [], ops := [], ok := ok } := fun ok hok =>
    ⟨fun h => absurd h hnoArray, fun h => absurd h hnoBitmap, fun _ h => absurd h List.not_mem_nil,
      fun _ => List.nodup_nil, hnoPages, hok⟩
  rcases allocArray_cases allocs new with ⟨h, heq⟩ | ⟨-, -, heq⟩ | ⟨⟨hn0, -⟩, a, ha, ha0, heq⟩
  · rw [heq]
    exact hno true fun _ hn0 hp0 => h ⟨hn0, hp0⟩
  · rw [heq]
    exact hno false fun h => by cases h
  · rw [heq]
    refine ⟨fun _ => ha, fun h => absurd h hnoBitmap, fun p hp => ?_, fun hinj => ?_, fun h => absurd h hn0, fun _ _ => ha0⟩
    · obtain ⟨i, -, hi⟩ := mem_allocPages hp
      exact ⟨i, hi⟩
    · exact nodup_allocPages List.nodup_range hinj

theorem allocRegion_memory (allocs : RegionAllocs) (mem : KvmMemoryRegion) (old : KvmMemorySlot) :
    AllocMemory allocs old (allocRegion allocs (newSlot mem old)) := by
  have h := allocArray_memory allocs mem old
  unfold allocRegion
  generalize allocArray allocs (dropUnneeded (newSlot mem old)) = x at h ⊢
  rcases allocBitmap_cases allocs x with heq | heq | ⟨hok, -, -, b, hb, -, heq⟩
  · rw [heq]
    exact h
  · rw [heq]
    exact ⟨h.array, h.bitmap, h.page, h.nodup, h.noPages, fun hok => by cases hok⟩
  · rw [heq]
    exact ⟨h.array, fun _ => hb, h.page, h.nodup, h.noPages, fun _ => h.hasPages hok⟩

theorem nodup_ownedOnly {pages : List Pfn} {m other : KvmMemorySlot} (hpages : pages.Nodup)
    (h : NewArray m other → NewBitmap m other → m.physMem ≠ m.dirtyBitmap) : (ownedOnly pages m other).Nodup := by
  have harray : (pages.map Resource.page ++ [Resource.array m.physMem]).Nodup := by
    rw [List.nodup_append]
    refine ⟨hpages.map fun p q hpq => Resource.page.inj hpq, List.nodup_singleton _, fun r hr r' hr' heq => ?_⟩
    obtain ⟨p, -, rfl⟩ := List.mem_map.1 hr
    rw [List.mem_singleton.1 hr'] at heq
    cases heq
  unfold ownedOnly
  split
  · rename_i h1
    split
    · rename_i h2
      rw [List.nodup_append]
      refine ⟨harray, List.nodup_singleton _, fun r hr r' hr' heq => ?_⟩
      rw [List.mem_singleton.1 hr'] at heq
      subst heq
      rcases List.mem_append.1 hr with hr | hr
      · obtain ⟨p, -, hp⟩ := List.mem_map.1 hr
        cases hp
      · exact h h1 h2 (Resource.array.inj (List.mem_singleton.1 hr)).symm
    · simpa using harray
  · split <;> simp

namespace AllocMemory

variable {live : List Resource}

/-- What a call allocates has not been live before. -/
theorem not_live (h : AllocMemory allocs old x) (hfresh : allocs.Fresh live) :
    ∀ r ∈ ownedOnly x.pages x.slot old, r ∉ live := by
  intro r hr
  rcases mem_ownedOnly.1 hr with ⟨hnew, rfl | ⟨p, hp, rfl⟩⟩ | ⟨hnew, rfl⟩
  · exact hfresh.array _ (h.array hnew)
  · obtain ⟨i, hpage⟩ := h.page p hp
    exact hfresh.page i p hpage
  · exact (hfresh.bitmap _ (h.bitmap hnew)).1

theorem distinct (h : AllocMemory allocs old x) (hfresh : allocs.Fresh live) :
    NewArray x.slot old → NewBitmap x.slot old → x.slot.physMem ≠ x.slot.dirtyBitmap := by
  intro h1 h2 heq
  exact (hfresh.bitmap _ (h.bitmap h2)).2 (by rw [← heq]; exact h.array h1)

theorem pageArray_store (h : AllocMemory allocs old x) (hfresh : allocs.Fresh live) (kvm : Kvm) {a : Nat}
    (ha : .array a ∈ live) : (x.store old kvm).pageArray a = kvm.pageArray a := by
  unfold Allocated.store
  dsimp only
  split
  · rename_i hnew
    have hne : a ≠ x.slot.physMem := by
      rintro rfl
      exact hfresh.array _ (h.array hnew) ha
    rw [Function.update_of_ne hne]
  · rfl

theorem newMemory (h : AllocMemory allocs old x) (hfresh : allocs.Fresh live) (kvm : Kvm) :
    NewMemory (x.store old kvm) old x := by
  refine ⟨fun hnew => ?_, h.distinct hfresh⟩
  unfold Allocated.store
  dsimp only
  rw [if_pos (show x.slot.physMem ≠ old.physMem ∧ x.slot.physMem ≠ 0 from hnew), Function.update_self]

end AllocMemory

/-- The array that a call fills has not been live before. -/
theorem othersKept_allocate (version : BitVec 32) (start : Nat) (hfresh : allocs.Fresh s.live)
    (hx : x = allocRegion allocs (newSlot mem old)) :
    OthersKept s ({ s with kvm := x.store old s.kvm, live := runOps s.live x.ops }.setCall t
      (.allocated mem slot old x version start)) {.inr t} := by
  have hmem := allocRegion_memory allocs mem old
  rw [← hx] at hmem
  refine ⟨fun i _ => rfl, fun u hu => MemSystem.setCall_of_ne (by simpa using hu), fun a ha => ?_⟩
  exact hmem.pageArray_store hfresh s.kvm ha

/-- What the call allocates becomes its own. -/
theorem MemOwned.allocate (hi : MemOwned s) (version : BitVec 32) (start : Nat) (hfresh : allocs.Fresh s.live)
    (hx : x = allocRegion allocs (newSlot mem old)) :
    MemOwned ({ s with kvm := x.store old s.kvm, live := runOps s.live x.ops }.setCall t
      (.allocated mem slot old x version start)) := by
  have hspec := allocRegion_spec allocs mem old
  have hmem := allocRegion_memory allocs mem old
  rw [← hx] at hspec hmem
  have hkeep := @othersKept_allocate mem slot old x allocs s t version start hfresh hx
  refine ⟨hi.owned.acquire (hi.held_eq hkeep) ?_ fun r hr => ?_, ?_, hi.slots, fun u c hc => ?_⟩
  · rintro r ⟨c, hc, hr⟩
    rw [MemSystem.setCall_self] at hc
    obtain rfl := Option.some.inj hc
    refine ⟨hmem.not_live hfresh r hr, mem_runOps (Or.inr (hspec.allocated.mem_iff.2 hr)) ?_⟩
    rw [hspec.freed]
    exact List.not_mem_nil
  · refine mem_runOps (Or.inl hr) ?_
    rw [hspec.freed]
    exact List.not_mem_nil
  · refine nodup_runOps hi.nodup ?_ fun r hr => hmem.not_live hfresh r (hspec.allocated.mem_iff.1 hr)
    exact hspec.allocated.nodup_iff.2 (nodup_ownedOnly (hmem.nodup hfresh.pages) (hmem.distinct hfresh))
  · by_cases hu : u = t
    · subst hu
      rw [MemSystem.setCall_self] at hc
      obtain rfl := Option.some.inj hc
      exact hmem.newMemory hfresh s.kvm
    · exact hi.callMemory hkeep (by simpa using hu) hc

/-! ### Freeing -/

/-- A call frees memory of its own and has none afterwards. -/
theorem MemOwned.free (hi : MemOwned s) {ops : List HeapOp} (halloc : allocated ops = [])
    (hfreed : ∀ r, some r ∈ freed ops → r ∈ s.held (.inr t)) (c : MemCall) (hc : c.memory s.kvm = [])
    (hc' : CallMemory s.kvm c) : MemOwned ({ s with live := runOps s.live ops }.setCall t c) := by
  have hkeep : OthersKept s ({ s with live := runOps s.live ops }.setCall t c) {.inr t} :=
    ⟨fun _ _ => rfl, fun u hu => MemSystem.setCall_of_ne (by simpa using hu), fun _ _ => rfl⟩
  refine hi.release hkeep (fun c' h => ?_) ?_ fun r hr hno => ?_
  · rw [MemSystem.setCall_self] at h
    obtain rfl := Option.some.inj h
    exact ⟨hc, hc'⟩
  · refine nodup_runOps hi.nodup ?_ fun r hr => ?_
    · rw [halloc]
      exact List.nodup_nil
    · rw [halloc] at hr
      cases hr
  · by_contra hnot
    exact hno (mem_runOps (Or.inl hr) fun h => hnot (hfreed r h))

theorem MemOwned.cleanup (hi : MemOwned s) {version : BitVec 32} {start : Nat}
    (h : s.calls t = some (.allocated mem slot old x version start)) (c : MemCall) (hc : c.memory s.kvm = [])
    (hc' : CallMemory s.kvm c) :
    MemOwned ({ s with live := runOps s.live (kvmFreePhysmemSlot (fun i => x.pages[i]?) x.slot (some old)) }.setCall t c) := by
  refine hi.free (allocated_free _ _ _) (fun r hr => ⟨_, h, ?_⟩) c hc hc'
  exact mem_ownedOnly_of_freed (fun i _ p hp => List.mem_of_getElem? hp) hr

theorem MemOwned.freeOld (hi : MemOwned s) (h : s.calls t = some (.reset old new)) (c : MemCall)
    (hc : c.memory s.kvm = []) (hc' : CallMemory s.kvm c) :
    MemOwned ({ s with live := runOps s.live (kvmFreePhysmemSlot (fun i => some (s.kvm.pageArray old.physMem i)) old
      (some new)) }.setCall t c) := by
  refine hi.free (allocated_free _ _ _) (fun r hr => ⟨_, h, ?_⟩) c hc hc'
  refine mem_ownedOnly_of_freed (fun i hi p hp => ?_) hr
  obtain rfl := Option.some.inj hp
  exact List.mem_map.2 ⟨i, List.mem_range.2 hi, rfl⟩

/-! ### The commit -/

theorem mem_slotMemory {m : KvmMemorySlot} : r ∈ slotMemory kvm m ↔
    m.physMem ≠ 0 ∧ (r = .array m.physMem ∨ ∃ p ∈ slotPages kvm m, r = .page p) ∨
      m.dirtyBitmap ≠ 0 ∧ r = .array m.dirtyBitmap := by
  unfold slotMemory
  rw [mem_ownedOnly]
  have harray : NewArray m noMemory ↔ m.physMem ≠ 0 := and_self_iff
  have hbitmap : NewBitmap m noMemory ↔ m.dirtyBitmap ≠ 0 := and_self_iff
  rw [harray, hbitmap]

/-- A slot that a call wants to commit: its page array is a new one, filled with pages, or that of the old slot. -/
structure Commitable (kvm : Kvm) (old : KvmMemorySlot) (x : Allocated) : Prop where
  memory : NewMemory kvm old x
  full : NewArray x.slot old → x.pages.length = x.slot.npages
  kept : x.slot.physMem = old.physMem → x.slot.physMem ≠ 0 → x.slot.npages = old.npages
  array : x.slot.npages = 0 ↔ x.slot.physMem = 0

theorem commitable (hok : x.ok = true) (hx : x = allocRegion allocs (newSlot mem old)) (hmem : NewMemory kvm old x)
    (hold : kvm.memslots slot = old) (hshape : SlotShape old) (hcheck : checkRegion kvm mem slot = none) :
    Commitable kvm old x := by
  have hspec := allocRegion_spec allocs mem old
  have hfrom := allocRegion_memory allocs mem old
  rw [← hx] at hspec hfrom
  have harray : x.slot.npages = 0 ↔ x.slot.physMem = 0 :=
    ⟨hfrom.noPages, fun h => by_contra fun hno => hfrom.hasPages hok hno h⟩
  refine ⟨hmem, fun h => ?_, fun heq hne => ?_, harray⟩
  · rw [hspec.npages]
    rcases hspec.pages h with ⟨-, hlen⟩ | ⟨-, -, hno⟩
    · exact hlen
    · rw [hok] at hno
      cases hno
  · have hnew : mem.npages ≠ 0 := fun h0 => hne (harray.1 (hspec.npages.trans h0))
    have hold0 : old.npages ≠ 0 := fun h0 => hne (heq.trans (hshape.array.1 h0))
    rw [hspec.npages]
    by_contra hdiff
    unfold checkRegion at hcheck
    rw [hold, if_pos ⟨hnew, hold0, hdiff⟩] at hcheck
    cases hcheck

theorem Commitable.slotPages (h : Commitable kvm old x) (hnew : NewArray x.slot old) :
    slotPages kvm x.slot = x.pages := by
  unfold LearnKvm.slotPages
  rw [h.memory.pages hnew, ← h.full hnew]
  apply List.ext_getElem
  · simp
  · intro i h1 h2
    simp [h2]

/-- The new slot has memory of the call, and what it keeps of the old slot. -/
theorem Commitable.source (h : Commitable kvm old x) (hr : r ∈ slotMemory kvm x.slot) :
    r ∈ ownedOnly x.pages x.slot old ∨
      (x.slot.physMem = old.physMem ∧ old.physMem ≠ 0 ∧
        (r = .array old.physMem ∨ ∃ p ∈ LearnKvm.slotPages kvm old, r = .page p)) ∨
      (x.slot.dirtyBitmap = old.dirtyBitmap ∧ old.dirtyBitmap ≠ 0 ∧ r = .array old.dirtyBitmap) := by
  rw [mem_ownedOnly]
  rcases mem_slotMemory.1 hr with ⟨hne, hcase⟩ | ⟨hne, rfl⟩
  · by_cases heq : x.slot.physMem = old.physMem
    · have hpages : LearnKvm.slotPages kvm x.slot = LearnKvm.slotPages kvm old := by
        unfold LearnKvm.slotPages
        rw [heq, h.kept heq hne]
      rw [hpages, heq] at hcase
      exact Or.inr (Or.inl ⟨heq, heq ▸ hne, hcase⟩)
    · have hnew : NewArray x.slot old := ⟨heq, hne⟩
      rw [h.slotPages hnew] at hcase
      exact Or.inl (Or.inl ⟨hnew, hcase⟩)
  · by_cases heq : x.slot.dirtyBitmap = old.dirtyBitmap
    · rw [heq] at hne ⊢
      exact Or.inr (Or.inr ⟨rfl, hne, rfl⟩)
    · exact Or.inl (Or.inr ⟨⟨heq, hne⟩, rfl⟩)

theorem slotMemory_of_ownedOnly (hr : r ∈ ownedOnly (slotPages kvm old) old new) : r ∈ slotMemory kvm old := by
  rw [mem_slotMemory]
  rcases mem_ownedOnly.1 hr with ⟨h, hcase⟩ | ⟨h, rfl⟩
  · exact Or.inl ⟨h.2, hcase⟩
  · exact Or.inr ⟨h.2, rfl⟩

/-- What the new slot keeps of the old one is not freed. -/
theorem Commitable.kept_not_freed (h : Commitable kvm old x) (hshape : SlotShape old)
    (hsep : ∀ r, r ∈ slotMemory kvm old → r ∉ ownedOnly x.pages x.slot old) (hr : r ∈ slotMemory kvm x.slot) :
    r ∉ ownedOnly (LearnKvm.slotPages kvm old) old x.slot := by
  intro hfree
  rcases h.source hr with hnew | ⟨heq, hne, hcase⟩ | ⟨heq, hne, rfl⟩
  · exact hsep r (slotMemory_of_ownedOnly hfree) hnew
  · rcases mem_ownedOnly.1 hfree with ⟨harray, -⟩ | ⟨-, rfl⟩
    · exact harray.1 heq.symm
    · rcases hcase with hcase | ⟨p, -, hp⟩
      · exact hshape.bitmap hne (Resource.array.inj hcase).symm
      · cases hp
  · rcases mem_ownedOnly.1 hfree with ⟨harray, hcase | ⟨p, -, hp⟩⟩ | ⟨hbitmap, -⟩
    · exact hshape.bitmap harray.2 (Resource.array.inj hcase).symm
    · cases hp
    · exact hbitmap.1 heq.symm

theorem Commitable.shape (h : Commitable kvm old x) (hshape : SlotShape old)
    (hsep : ∀ r, r ∈ slotMemory kvm old → r ∉ ownedOnly x.pages x.slot old) : SlotShape x.slot := by
  refine ⟨h.array, fun hne heq => ?_⟩
  by_cases h1 : x.slot.physMem = old.physMem
  · by_cases h2 : x.slot.dirtyBitmap = old.dirtyBitmap
    · exact hshape.bitmap (h1 ▸ hne) (h1.symm.trans (heq.trans h2))
    · -- the new bitmap is not the array that is kept
      refine hsep (.array old.physMem) (mem_slotMemory.2 (Or.inl ⟨h1 ▸ hne, Or.inl rfl⟩)) ?_
      rw [← h1, heq]
      exact mem_ownedOnly.2 (Or.inr ⟨⟨h2, heq ▸ hne⟩, rfl⟩)
  · by_cases h2 : x.slot.dirtyBitmap = old.dirtyBitmap
    · -- the new array is not the bitmap that is kept
      refine hsep (.array old.dirtyBitmap) (mem_slotMemory.2 (Or.inr ⟨h2 ▸ heq ▸ hne, rfl⟩)) ?_
      rw [← h2, ← heq]
      exact mem_ownedOnly.2 (Or.inl ⟨⟨h1, hne⟩, Or.inl rfl⟩)
    · exact h.memory.bitmap ⟨h1, hne⟩ ⟨h2, heq ▸ hne⟩ heq

/-- The commit of a slot that is as the checks have seen it. -/
theorem MemOwned.commit (hi : MemOwned s) {version : BitVec 32} {start : Nat}
    (h : s.calls t = some (.allocated mem slot old x version start)) (hok : x.ok = true)
    (hx : x = allocRegion allocs (newSlot mem old)) (hold : s.kvm.memslots slot = old)
    (hcheck : checkRegion s.kvm mem slot = none) :
    MemOwned ({ s with kvm := commitRegion s.kvm slot x.slot, commits := s.commits + 1 }.setCall t (.committed old x.slot)) := by
  have hcommit := commitable hok hx (hi.calls t _ h) hold (hold ▸ hi.slots slot) hcheck
  have hslot : s.held (.inl slot) = {r | r ∈ slotMemory s.kvm old} := by
    unfold MemSystem.held
    dsimp only
    rw [hold]
  have hcall : ∀ r ∈ ownedOnly x.pages x.slot old, r ∈ s.held (.inr t) := fun r hr => ⟨_, h, hr⟩
  have hsep : ∀ r, r ∈ slotMemory s.kvm old → r ∉ ownedOnly x.pages x.slot old := by
    intro r hr hr'
    cases hi.owned.unique (.inl slot) (.inr t) r (hslot ▸ hr) (hcall r hr')
  generalize hs' : ({ s with kvm := commitRegion s.kvm slot x.slot, commits := s.commits + 1 }.setCall t
    (.committed old x.slot)) = s'
  have hkeep : OthersKept s s' {.inl slot, .inr t} := by
    subst hs'
    refine ⟨fun i hne => Function.update_of_ne (fun heq => hne (by simp [heq])) .., fun u hu => ?_, fun _ _ => rfl⟩
    exact MemSystem.setCall_of_ne fun heq => hu (by simp [heq])
  have hslot' : s'.held (.inl slot) = {r | r ∈ slotMemory s.kvm x.slot} := by
    subst hs'
    show {r | r ∈ slotMemory _ (Function.update s.kvm.memslots slot x.slot slot)} = _
    rw [Function.update_self]
    rfl
  have hcall' : ∀ r, r ∈ s'.held (.inr t) ↔ r ∈ ownedOnly (slotPages s.kvm old) old x.slot := by
    subst hs'
    intro r
    constructor
    · rintro ⟨c, hc, hr⟩
      rw [MemSystem.setCall_self] at hc
      obtain rfl := Option.some.inj hc
      exact hr
    · intro hr
      exact ⟨_, MemSystem.setCall_self .., hr⟩
  have hlive : s'.live = s.live := by rw [← hs']; rfl
  have hsource : ∀ o ∈ ({.inl slot, .inr t} : Set MemOwner), ∀ r ∈ s'.held o,
      r ∈ s.held (.inl slot) ∨ r ∈ s.held (.inr t) := by
    rintro o (rfl | rfl) r hr
    · rw [hslot'] at hr
      rcases hcommit.source hr with hnew | ⟨-, hne, hcase⟩ | ⟨-, hne, rfl⟩
      · exact Or.inr (hcall r hnew)
      · rw [hslot]
        exact Or.inl (mem_slotMemory.2 (Or.inl ⟨hne, hcase⟩))
      · rw [hslot]
        exact Or.inl (mem_slotMemory.2 (Or.inr ⟨hne, rfl⟩))
    · rw [hslot]
      exact Or.inl (slotMemory_of_ownedOnly ((hcall' r).1 hr))
  have hdisjoint : ∀ r, r ∈ s'.held (.inl slot) → r ∉ s'.held (.inr t) := by
    intro r hr hr'
    rw [hslot'] at hr
    exact hcommit.kept_not_freed (hold ▸ hi.slots slot) hsep hr ((hcall' r).1 hr')
  refine ⟨hi.owned.transfer {.inl slot, .inr t} ⟨hi.held_eq hkeep, ?_, ?_, ?_, ?_⟩, hlive ▸ hi.nodup, fun i => ?_,
    fun u c hc => ?_⟩
  · intro o ho r hr
    rcases hsource o ho r hr with h | h
    · exact Or.inl ⟨_, Or.inl rfl, h⟩
    · exact Or.inl ⟨_, Or.inr rfl, h⟩
  · rintro o (rfl | rfl) o' (rfl | rfl) r hr hr'
    · rfl
    · exact absurd hr' (hdisjoint r hr)
    · exact absurd hr (hdisjoint r hr')
    · rfl
  · intro o ho r hr
    rw [hlive]
    rcases hsource o ho r hr with h | h <;> exact hi.owned.held_live _ r h
  · intro r hr hno
    rw [hlive] at hno
    exact absurd hr hno
  · by_cases his : i = slot
    · subst his
      have : s'.kvm.memslots i = x.slot := by
        subst hs'
        exact Function.update_self ..
      rw [this]
      exact hcommit.shape (hold ▸ hi.slots i) hsep
    · rw [hkeep.slots i (by simp [his])]
      exact hi.slots i
  · by_cases hut : u = t
    · subst hut
      subst hs'
      rw [MemSystem.setCall_self] at hc
      obtain rfl := Option.some.inj hc
      trivial
    · exact hi.callMemory hkeep (by simp [hut]) hc

/-! ### Steps and runs -/

/-- A step of a call that neither allocates nor frees, to a place where it has no memory. -/
theorem MemOwned.setCall (hi : MemOwned s) {kvm : Kvm} (hslots : kvm.memslots = s.kvm.memslots)
    (harrays : kvm.pageArray = s.kvm.pageArray) (hc : c.memory kvm = []) (hc' : CallMemory kvm c) :
    MemOwned ({ s with kvm := kvm }.setCall t c) := by
  refine hi.release (t := t) ⟨fun i _ => congrFun hslots i, fun u hu => MemSystem.setCall_of_ne (by simpa using hu),
    fun a _ => congrFun harrays a⟩ (fun c' h => ?_) hi.nodup fun r hr hno => absurd hr hno
  rw [MemSystem.setCall_self] at h
  obtain rfl := Option.some.inj h
  exact ⟨hc, hc'⟩

/-- The call still has to free the old memory. -/
theorem MemOwned.toReset (hi : MemOwned s) (h : s.calls t = some (.committed old new)) :
    MemOwned (s.setCall t (.reset old new)) := by
  have hother : ∀ u, u ≠ t → (s.setCall t (.reset old new)).calls u = s.calls u := fun u hu => MemSystem.setCall_of_ne hu
  have hheld : (s.setCall t (.reset old new)).held = s.held := by
    funext o
    rcases o with i | u
    · rfl
    · by_cases hu : u = t
      · subst hu
        unfold MemSystem.held
        dsimp only
        rw [MemSystem.setCall_self, h]
        ext r
        constructor
        · rintro ⟨c, hc, hr⟩
          obtain rfl := Option.some.inj hc
          exact ⟨_, rfl, hr⟩
        · rintro ⟨c, hc, hr⟩
          obtain rfl := Option.some.inj hc
          exact ⟨_, rfl, hr⟩
      · unfold MemSystem.held
        dsimp only
        rw [hother u hu]
        rfl
  refine ⟨by rw [hheld]; exact hi.owned, hi.nodup, hi.slots, fun u c hc => ?_⟩
  by_cases hu : u = t
  · subst hu
    rw [MemSystem.setCall_self] at hc
    obtain rfl := Option.some.inj hc
    trivial
  · rw [hother u hu] at hc
    exact hi.calls u c hc

theorem MemCall.Logging.memory {c : MemCall} (h : c.Logging) : c.memory s.kvm = [] ∧ CallMemory s.kvm c := by
  cases c <;> first | exact ⟨rfl, trivial⟩ | cases h

theorem MemOwned.call (ho : MemOwned s) (hi : MemInv s) (hfew : FewCommits s) (h : s.calls t = some c)
    (hfresh : allocs.Fresh s.live) (copied : Bool) : MemOwned (c.step s t allocs copied) := by
  have hc := hi.calls t c h
  cases c with
  | raced mem slot =>
    rcases step_raced s t allocs copied mem slot with ⟨r, -, heq⟩ | ⟨-, heq⟩
    · rw [heq]
      exact ho.setCall rfl rfl rfl trivial
    · rw [heq]
      exact ho.setCall rfl rfl rfl trivial
  | checked mem slot old version start => exact ho.allocate version start hfresh rfl
  | allocated mem slot old x version start =>
    rcases step_allocated s t allocs copied mem slot old x version start
      with ⟨live, c', hc', rfl, heq⟩ | ⟨hok, hv, -, heq⟩
    · rw [heq]
      refine ho.cleanup h c' ?_ ?_
      · rcases hc' with ⟨rfl, -⟩ | ⟨r, rfl⟩ <;> rfl
      · rcases hc' with ⟨rfl, -⟩ | ⟨r, rfl⟩ <;> trivial
    · rw [heq]
      obtain ⟨hchecked, allocs', hx⟩ := hc
      obtain ⟨hold, hcheck⟩ := hchecked.current (hchecked.no_commit hi (hfew t _ start h rfl) hv)
      exact ho.commit h hok hx hold hcheck
  | committed old new => exact ho.toReset h
  | reset old new => exact ho.freeOld h _ rfl trivial
  | logBusy slot =>
    obtain ⟨c', heq, hc'⟩ := step_logBusy s t allocs copied slot
    rw [heq]
    exact ho.setCall rfl rfl hc'.memory.1 hc'.memory.2
  | logScanned slot n any =>
    obtain ⟨c', heq, hc'⟩ := step_logScanned s t allocs copied slot n any
    rw [heq]
    exact ho.setCall rfl rfl hc'.memory.1 hc'.memory.2
  | logCopied slot n log => exact ho.setCall rfl rfl rfl trivial
  | logProtected slot n log => exact ho.setCall rfl rfl rfl trivial
  | logCleared slot log => exact ho.setCall rfl rfl rfl trivial
  | logOut r log => exact ho.setCall rfl rfl rfl trivial
  | returned r log => exact ho.setCall rfl rfl rfl trivial

theorem MemOwned.step (ho : MemOwned s) (hi : MemInv s) (hfew : FewCommits s) (h : MemStep s s') : MemOwned s' := by
  -- a thread that starts a call has no memory
  cases h with
  | setMemoryRegion mem h =>
    unfold MemSystem.setMemoryRegion
    split
    · exact ho.setCall rfl rfl rfl trivial
    · exact ho.setCall rfl rfl rfl trivial
  | getDirtyLog slot h => exact ho.setCall rfl rfl rfl trivial
  | call copied h hfresh => exact ho.call hi hfew h hfresh copied
  | vcpu bitmap pages =>
    have hkeep : OthersKept s { s with kvm := { s.kvm with bitmap := bitmap, activeMmuPages := pages } } ∅ :=
      ⟨fun _ _ => rfl, fun _ _ => rfl, fun _ _ => rfl⟩
    exact ⟨ho.owned, ho.nodup, ho.slots, fun u c hc => ho.callMemory hkeep (Set.notMem_empty _) hc⟩

theorem MemOwned.run (h : MemRun .opened s) : MemInv s ∧ MemOwned s := by
  induction h with
  | refl => exact ⟨memInv_opened, memOwned_opened⟩
  | tail _ hstep ih => exact ⟨ih.1.step hstep.2 hstep.1, ih.2.step ih.1 hstep.2 hstep.1⟩

end LearnKvm
