import LearnKvm.MemoryRegion

/-!
# Page accounting of KVM_SET_MEMORY_REGION

One call, with everything that it meets: what it finds in the slots each time it takes the lock, the results of its
allocations, whether another call has changed the slots before it commits, and whether they are busy.  What the call
allocates it should hand to the slot, or free once (`Accounted`).  It does so unless `alloc_page` fails: the cleanup then
frees every entry of the page array, and those behind the failure are null (`setMemoryRegion_accounted`).
-/

namespace LearnKvm

variable {mem : KvmMemoryRegion} {slot : Fin 4} {x : Allocated} {old new : KvmMemorySlot}

/-! ### One call -/

/-- What one pass from the label `raced` on meets. -/
structure Attempt where
  /-- The machine when the checks are made. -/
  kvm : Kvm
  allocs : RegionAllocs
  /-- The machine when the lock is taken again. -/
  kvm' : Kvm

inductive RegionOutcome where
  | raced
  | failed (r : Int)
  /-- The old slot is replaced by the new one, and has these pages; so has the new one, if they are new. -/
  | committed (old new : KvmMemorySlot) (oldPages pages : List Pfn)

structure RegionResult where
  ops : List HeapOp
  outcome : RegionOutcome
  kvm : Kvm

/-- The pages of a slot. -/
def slotPages (kvm : Kvm) (s : KvmMemorySlot) : List Pfn := (List.range s.npages).map (kvm.pageArray s.physMem)

/-- One pass, from taking the lock for the checks to the return, or to the jump back. -/
def Attempt.run (mem : KvmMemoryRegion) (slot : Fin 4) (a : Attempt) : RegionResult :=
  let old := a.kvm.memslots slot
  match checkRegion a.kvm mem slot with
  | some r => { ops := kvmFreePhysmemSlot (fun _ => none) (newSlot mem old) (some old), outcome := .failed r, kvm := a.kvm }
  | none =>
    let x := allocRegion a.allocs (newSlot mem old)
    let cleanup := kvmFreePhysmemSlot (fun i => x.pages[i]?) x.slot (some old)
    if !x.ok then { ops := x.ops ++ cleanup, outcome := .failed (-enomem), kvm := a.kvm' }
    else if a.kvm.memoryConfigVersion != a.kvm'.memoryConfigVersion then
      { ops := x.ops ++ cleanup, outcome := .raced, kvm := a.kvm' }
    else if a.kvm'.busy != 0 then { ops := x.ops ++ cleanup, outcome := .failed (-eagain), kvm := a.kvm' }
    else
      { ops := x.ops ++ kvmFreePhysmemSlot (fun i => some (a.kvm.pageArray old.physMem i)) old (some x.slot)
        outcome := .committed old x.slot (slotPages a.kvm old) x.pages
        kvm := commitRegion (x.store old a.kvm') slot x.slot }

/-- The call from the first pass on, when it meets these passes; `none` if it needs more of them. -/
def setMemoryRegion (mem : KvmMemoryRegion) (slot : Fin 4) : List Attempt → Option RegionResult
  | [] => none
  | a :: rest =>
    let result := a.run mem slot
    match result.outcome with
    | .raced => (setMemoryRegion mem slot rest).map fun last => { last with ops := result.ops ++ last.ops }
    | _ => some result

/-- The call on the machine `kvm`. -/
def kvmDevIoctlSetMemoryRegion (kvm : Kvm) (mem : KvmMemoryRegion) (attempts : List Attempt) : Option RegionResult :=
  match mem.sanityChecks with
  | none => some { ops := [], outcome := .failed (-einval), kvm := kvm }
  | some slot => setMemoryRegion mem slot attempts

/-! ### What it should do -/

def HeapOp.allocated : HeapOp → Option Resource
  | allocPage p => some (.page p)
  | vmalloc a => some (.array a)
  | _ => none

/-- What is freed; `some none` is a null pointer passed to `__free_page`. -/
def HeapOp.freed : HeapOp → Option (Option Resource)
  | freePage p => some (p.map .page)
  | vfree a => some (some (.array a))
  | _ => none

def allocated (ops : List HeapOp) : List Resource := ops.filterMap HeapOp.allocated

def freed (ops : List HeapOp) : List (Option Resource) := ops.filterMap HeapOp.freed

/-- The slot has a page array that the other has not. -/
def NewArray (s other : KvmMemorySlot) : Prop := s.physMem ≠ other.physMem ∧ s.physMem ≠ 0

def NewBitmap (s other : KvmMemorySlot) : Prop := s.dirtyBitmap ≠ other.dirtyBitmap ∧ s.dirtyBitmap ≠ 0

instance (s other : KvmMemorySlot) : Decidable (NewArray s other) := inferInstanceAs (Decidable (_ ∧ _))

instance (s other : KvmMemorySlot) : Decidable (NewBitmap s other) := inferInstanceAs (Decidable (_ ∧ _))

/-- The pages, the page array and the bitmap that one slot has and the other has not. -/
def ownedOnly (pages : List Pfn) (s other : KvmMemorySlot) : List Resource :=
  (if NewArray s other then pages.map .page ++ [.array s.physMem] else []) ++
  (if NewBitmap s other then [.array s.dirtyBitmap] else [])

/-- The operations of a call are accounted for: after a failure, what has been allocated has been freed once, and nothing
else has; after a commit, the new slot has what has been allocated and not freed, and of the old slot only what the new
one does not have has been freed. -/
def Accounted (ops : List HeapOp) : RegionOutcome → Prop
  | .committed old new oldPages pages =>
    (freed ops ++ (ownedOnly pages new old).map some).Perm
      ((allocated ops).map some ++ (ownedOnly oldPages old new).map some)
  | _ => (freed ops).Perm ((allocated ops).map some)

/-- Some `alloc_page` of the pass fails. -/
def PageAllocFails (mem : KvmMemoryRegion) (slot : Fin 4) (a : Attempt) : Prop :=
  checkRegion a.kvm mem slot = none ∧ mem.npages ≠ 0 ∧ (a.kvm.memslots slot).physMem = 0 ∧ a.allocs.array.isSome = true ∧
    ∃ i < mem.npages, a.allocs.page i = none

/-! ### The allocations -/

@[simp] theorem allocated_append (l l' : List HeapOp) : allocated (l ++ l') = allocated l ++ allocated l' :=
  List.filterMap_append

@[simp] theorem freed_append (l l' : List HeapOp) : freed (l ++ l') = freed l ++ freed l' := List.filterMap_append

theorem allocated_array (a : Nat) (pages : List Pfn) :
    allocated (.vmalloc a :: pages.map .allocPage) = .array a :: pages.map .page := by
  unfold allocated
  simp only [List.filterMap_cons, HeapOp.allocated, List.filterMap_map]
  rw [show (HeapOp.allocated ∘ HeapOp.allocPage) = fun p => some (Resource.page p) from rfl]
  exact congrArg _ (congrFun List.filterMap_eq_map pages)

/-- The loop gets a page for every entry, or stops. -/
theorem allocPages_spec (page : Nat → Option Pfn) (l : List Nat) :
    ((allocPages page l).2 = true ∧ (allocPages page l).1.length = l.length ∧ ∀ i ∈ l, page i ≠ none) ∨
    ((allocPages page l).2 = false ∧ (allocPages page l).1.length < l.length ∧ ∃ i ∈ l, page i = none) := by
  induction l with
  | nil => exact Or.inl ⟨rfl, rfl, fun i hi => absurd hi List.not_mem_nil⟩
  | cons i l ih =>
    cases hi : page i with
    | none =>
      have hnone : allocPages page (i :: l) = ([], false) := by rw [allocPages, hi]
      rw [hnone]
      exact Or.inr ⟨rfl, Nat.succ_pos _, i, List.mem_cons_self, hi⟩
    | some p =>
      have hsome : allocPages page (i :: l) = (p :: (allocPages page l).1, (allocPages page l).2) := by
        rw [allocPages, hi]
      rw [hsome]
      rcases ih with ⟨hok, hlen, hall⟩ | ⟨hok, hlen, j, hj, hnone⟩
      · refine Or.inl ⟨hok, by simp [hlen], fun j hj => ?_⟩
        rcases List.mem_cons.1 hj with rfl | hj
        · rw [hi]
          exact fun hno => by cases hno
        · exact hall j hj
      · exact Or.inr ⟨hok, by simpa using hlen, j, List.mem_cons_of_mem _ hj, hnone⟩

theorem dropUnneeded_npages (s : KvmMemorySlot) : (dropUnneeded s).npages = s.npages := by
  unfold dropUnneeded
  dsimp only
  split <;> split <;> rfl

theorem dropUnneeded_baseGfn (s : KvmMemorySlot) : (dropUnneeded s).baseGfn = s.baseGfn := by
  unfold dropUnneeded
  dsimp only
  split <;> split <;> rfl

/-- A slot with pages keeps its page array. -/
theorem dropUnneeded_physMem (s : KvmMemorySlot) : (dropUnneeded s).physMem = if s.npages = 0 then 0 else s.physMem := by
  unfold dropUnneeded
  dsimp only
  split <;> split <;> rfl

/-- A slot with dirty logging keeps its bitmap. -/
theorem dropUnneeded_dirtyBitmap (s : KvmMemorySlot) :
    (dropUnneeded s).dirtyBitmap = s.dirtyBitmap ∨
      (dropUnneeded s).dirtyBitmap = 0 ∧ ((dropUnneeded s).flags &&& kvmMemLogDirtyPages != 0) = false := by
  unfold dropUnneeded
  dsimp only
  split
  · split
    · rename_i hflags
      exact Or.inr ⟨rfl, by simpa using hflags⟩
    · exact Or.inl rfl
  · split
    · rename_i hflags
      exact Or.inr ⟨rfl, by simpa using hflags⟩
    · exact Or.inl rfl

/-- The page array is allocated for a slot that gets pages and has none. -/
theorem allocArray_cases (allocs : RegionAllocs) (new : KvmMemorySlot) :
    (¬(new.npages ≠ 0 ∧ new.physMem = 0) ∧ allocArray allocs new = { slot := new, pages := [], ops := [], ok := true }) ∨
    ((new.npages ≠ 0 ∧ new.physMem = 0) ∧ allocs.array = none ∧
      allocArray allocs new = { slot := new, pages := [], ops := [], ok := false }) ∨
    ((new.npages ≠ 0 ∧ new.physMem = 0) ∧ ∃ a, allocs.array = some a ∧ a ≠ 0 ∧
      allocArray allocs new = { slot := { new with physMem := a }
                                pages := (allocPages allocs.page (List.range new.npages)).1
                                ops := .vmalloc a :: (allocPages allocs.page (List.range new.npages)).1.map .allocPage
                                ok := (allocPages allocs.page (List.range new.npages)).2 }) := by
  unfold allocArray
  by_cases h : new.npages ≠ 0 ∧ new.physMem = 0
  · rw [if_pos h]
    cases ha : allocs.array with
    | none => exact Or.inr (Or.inl ⟨h, rfl, rfl⟩)
    | some a => exact Or.inr (Or.inr ⟨h, a, rfl, fun h0 => allocs.array_ne (by rw [ha, h0]), rfl⟩)
  · rw [if_neg h]
    exact Or.inl ⟨h, rfl⟩

theorem allocBitmap_cases (allocs : RegionAllocs) (x : Allocated) :
    allocBitmap allocs x = x ∨ allocBitmap allocs x = { x with ok := false } ∨
    (x.ok = true ∧ (x.slot.flags &&& kvmMemLogDirtyPages != 0) = true ∧ x.slot.dirtyBitmap = 0 ∧ ∃ b, allocs.bitmap = some b ∧
      b ≠ 0 ∧ allocBitmap allocs x = { x with
        slot := { x.slot with dirtyBitmap := b }
        ops := x.ops ++ [.vmalloc b] }) := by
  unfold allocBitmap
  split
  · rename_i h
    simp only [Bool.and_eq_true, beq_iff_eq] at h
    obtain ⟨⟨hok, hflags⟩, h0⟩ := h
    cases hb : allocs.bitmap with
    | none => exact Or.inr (Or.inl rfl)
    | some b => exact Or.inr (Or.inr ⟨hok, hflags, h0, b, rfl, fun hb0 => allocs.bitmap_ne (by rw [hb, hb0]), rfl⟩)
  · exact Or.inl rfl

/-- The new array has a page for every entry, unless an `alloc_page` has failed. -/
def PagesSpec (allocs : RegionAllocs) (n : Nat) (x : Allocated) : Prop :=
  ((∀ i < n, allocs.page i ≠ none) ∧ x.pages.length = n) ∨
    ((∃ i < n, allocs.page i = none) ∧ x.pages.length < n ∧ x.ok = false)

/-- The allocations do not move the slot. -/
theorem allocRegion_baseGfn (allocs : RegionAllocs) (new : KvmMemorySlot) :
    (allocRegion allocs new).slot.baseGfn = new.baseGfn := by
  have harray : (allocArray allocs (dropUnneeded new)).slot.baseGfn = new.baseGfn := by
    rcases allocArray_cases allocs (dropUnneeded new) with ⟨-, h⟩ | ⟨-, -, h⟩ | ⟨-, a, -, -, h⟩ <;> rw [h] <;>
      exact dropUnneeded_baseGfn new
  unfold allocRegion
  rcases allocBitmap_cases allocs (allocArray allocs (dropUnneeded new)) with h | h | ⟨-, -, -, b, -, -, h⟩ <;> rw [h] <;>
    exact harray

/-- What the allocations give: the operations allocate what the new slot has and the old one has not. -/
structure AllocSpec (allocs : RegionAllocs) (mem : KvmMemoryRegion) (old : KvmMemorySlot) (x : Allocated) : Prop where
  freed : freed x.ops = []
  allocated : (allocated x.ops).Perm (ownedOnly x.pages x.slot old)
  npages : x.slot.npages = mem.npages
  array : NewArray x.slot old ↔ mem.npages ≠ 0 ∧ old.physMem = 0 ∧ allocs.array.isSome = true
  pages : NewArray x.slot old → PagesSpec allocs mem.npages x

theorem allocArray_spec (allocs : RegionAllocs) (mem : KvmMemoryRegion) (old : KvmMemorySlot) :
    AllocSpec allocs mem old (allocArray allocs (dropUnneeded (newSlot mem old))) ∧
      (allocArray allocs (dropUnneeded (newSlot mem old))).slot.dirtyBitmap = (dropUnneeded (newSlot mem old)).dirtyBitmap ∧
      (allocArray allocs (dropUnneeded (newSlot mem old))).slot.flags = (dropUnneeded (newSlot mem old)).flags := by
  have hnpages : (dropUnneeded (newSlot mem old)).npages = mem.npages := dropUnneeded_npages _
  have hphys : (dropUnneeded (newSlot mem old)).physMem = if mem.npages = 0 then 0 else old.physMem :=
    dropUnneeded_physMem _
  have hbitmap : (dropUnneeded (newSlot mem old)).dirtyBitmap = old.dirtyBitmap ∨
      (dropUnneeded (newSlot mem old)).dirtyBitmap = 0 := by
    rcases dropUnneeded_dirtyBitmap (newSlot mem old) with h | ⟨h, -⟩
    · exact Or.inl h
    · exact Or.inr h
  generalize dropUnneeded (newSlot mem old) = new at hnpages hphys hbitmap
  have hnoBitmap : ¬NewBitmap new old := by
    rintro ⟨h1, h2⟩
    rcases hbitmap with h | h
    · exact h1 h
    · exact h2 h
  have hsame : ¬NewArray new old := by
    rintro ⟨h1, h2⟩
    rw [hphys] at h1 h2
    split at h2
    · exact h2 rfl
    · rename_i h0
      rw [if_neg h0] at h1
      exact h1 rfl
  -- nothing is allocated
  have hnone : ∀ ok : Bool, ¬(mem.npages ≠ 0 ∧ old.physMem = 0 ∧ allocs.array.isSome = true) →
      AllocSpec allocs mem old { slot := new, pages := [], ops := [], ok := ok } := by
    intro ok hno
    refine ⟨rfl, ?_, hnpages, iff_of_false hsame hno, fun h => absurd h hsame⟩
    show (allocated []).Perm (ownedOnly [] new old)
    unfold ownedOnly
    rw [if_neg hsame, if_neg hnoBitmap]
    exact .refl _
  rcases allocArray_cases allocs new with ⟨h, heq⟩ | ⟨-, ha, heq⟩ | ⟨⟨hn0, hp0⟩, a, ha, ha0, heq⟩
  · rw [heq]
    refine ⟨hnone true ?_, rfl, rfl⟩
    rintro ⟨hn0, hp0, -⟩
    exact h ⟨by rw [hnpages]; exact hn0, by rw [hphys, if_neg hn0]; exact hp0⟩
  · rw [heq]
    refine ⟨hnone false ?_, rfl, rfl⟩
    rintro ⟨-, -, hsome⟩
    rw [ha] at hsome
    cases hsome
  · rw [heq]
    rw [hnpages] at hn0
    rw [hphys, if_neg hn0] at hp0
    have hnew : NewArray { new with physMem := a } old := ⟨fun h => ha0 (h.trans hp0), ha0⟩
    refine ⟨⟨?_, ?_, hnpages, ?_, fun _ => ?_⟩, rfl, rfl⟩
    · unfold LearnKvm.freed
      simp [HeapOp.freed]
    · dsimp only
      unfold ownedOnly
      have hnoBitmap : ¬NewBitmap { new with physMem := a } old := hnoBitmap
      rw [if_pos hnew, if_neg hnoBitmap, List.append_nil, allocated_array]
      exact (List.perm_append_singleton _ _).symm
    · refine iff_of_true hnew ⟨hn0, hp0, ?_⟩
      rw [ha]
      rfl
    · rw [hnpages]
      rcases allocPages_spec allocs.page (List.range mem.npages) with ⟨-, hlen, hall⟩ | ⟨hok, hlen, i, hi, hno⟩
      · exact Or.inl ⟨fun i hi => hall i (List.mem_range.2 hi), hlen.trans List.length_range⟩
      · exact Or.inr ⟨⟨i, List.mem_range.1 hi, hno⟩, by rwa [List.length_range] at hlen, hok⟩

theorem allocRegion_spec (allocs : RegionAllocs) (mem : KvmMemoryRegion) (old : KvmMemorySlot) :
    AllocSpec allocs mem old (allocRegion allocs (newSlot mem old)) := by
  obtain ⟨hspec, hbitmap, hflags⟩ := allocArray_spec allocs mem old
  have hdrop := dropUnneeded_dirtyBitmap (newSlot mem old)
  unfold allocRegion
  generalize allocArray allocs (dropUnneeded (newSlot mem old)) = x at hspec hbitmap hflags ⊢
  rcases allocBitmap_cases allocs x with heq | heq | ⟨hok, hlog, h0, b, hb, hb0, heq⟩
  · rw [heq]
    exact hspec
  · rw [heq]
    refine ⟨hspec.freed, hspec.allocated, hspec.npages, hspec.array, fun h => ?_⟩
    rcases hspec.pages h with hfull | ⟨hno, hlen, -⟩
    · exact Or.inl hfull
    · exact Or.inr ⟨hno, hlen, rfl⟩
  · rw [heq]
    have hold : old.dirtyBitmap = 0 := by
      rcases hdrop with h | ⟨-, h⟩
      · exact h.symm.trans (hbitmap.symm.trans h0)
      · rw [← hflags, hlog] at h
        cases h
    refine ⟨?_, ?_, hspec.npages, hspec.array, fun h => ?_⟩
    · rw [freed_append, hspec.freed]
      rfl
    · rw [allocated_append]
      have hno : ¬NewBitmap x.slot old := fun h => h.2 h0
      have hyes : NewBitmap { x.slot with dirtyBitmap := b } old := ⟨by rw [hold]; exact hb0, hb0⟩
      have hperm := hspec.allocated
      dsimp only
      unfold ownedOnly at hperm ⊢
      rw [if_neg hno, List.append_nil] at hperm
      rw [if_pos hyes]
      exact hperm.append_right _
    · rcases hspec.pages h with hfull | ⟨-, -, hno⟩
      · exact Or.inl hfull
      · rw [hok] at hno
        cases hno

/-! ### The cleanup -/

theorem freeCond_iff {α : Type} {f : KvmMemorySlot → α} {zero : α} (s o : KvmMemorySlot) :
    ((∀ s' ∈ some o, f s ≠ f s') ∧ f s ≠ zero) ↔ f s ≠ f o ∧ f s ≠ zero := by
  simp

theorem allocated_free (entries : Nat → Option Pfn) (s : KvmMemorySlot) (dont : Option KvmMemorySlot) :
    allocated (kvmFreePhysmemSlot entries s dont) = [] := by
  have hpages : ∀ l : List Nat, allocated (l.map fun i => HeapOp.freePage (entries i)) = [] := by
    intro l
    induction l with
    | nil => rfl
    | cons i l ih => exact ih
  unfold kvmFreePhysmemSlot
  rw [allocated_append]
  have h1 : ∀ (c : Prop) [Decidable c], allocated (if c then
      (List.range s.npages).map (fun i => HeapOp.freePage (entries i)) ++ [.vfree s.physMem] else []) = [] := by
    intro c _
    split
    · rw [allocated_append, hpages]
      rfl
    · rfl
  have h2 : ∀ (c : Prop) [Decidable c], allocated (if c then [HeapOp.vfree s.dirtyBitmap] else []) = [] := by
    intro c _
    split <;> rfl
  rw [h1, h2]
  rfl

theorem freed_free (entries : Nat → Option Pfn) (s o : KvmMemorySlot) : freed (kvmFreePhysmemSlot entries s (some o)) =
    (if NewArray s o then (List.range s.npages).map (fun i => (entries i).map .page) ++ [some (.array s.physMem)] else []) ++
      (if NewBitmap s o then [some (.array s.dirtyBitmap)] else []) := by
  have hpages : ∀ l : List Nat, freed (l.map fun i => HeapOp.freePage (entries i)) =
      l.map fun i => (entries i).map .page := by
    intro l
    induction l with
    | nil => rfl
    | cons i l ih => exact congrArg (_ :: ·) ih
  unfold kvmFreePhysmemSlot
  rw [freed_append]
  congr 1
  · by_cases h : NewArray s o
    · rw [if_pos ((freeCond_iff s o).2 h), if_pos h, freed_append, hpages]
      rfl
    · rw [if_neg fun hno => h ((freeCond_iff s o).1 hno), if_neg h]
      rfl
  · by_cases h : NewBitmap s o
    · rw [if_pos ((freeCond_iff s o).2 h), if_pos h]
      rfl
    · rw [if_neg fun hno => h ((freeCond_iff s o).1 hno), if_neg h]
      rfl

/-- When all entries of the array are pages, what the slot has of its own is freed. -/
theorem freed_free_of_full {entries : Nat → Option Pfn} (pages : List Pfn) {s o : KvmMemorySlot}
    (h : NewArray s o → (List.range s.npages).map entries = pages.map some) :
    freed (kvmFreePhysmemSlot entries s (some o)) = (ownedOnly pages s o).map some := by
  rw [freed_free]
  unfold ownedOnly
  rw [List.map_append]
  congr 1
  · split
    · rename_i hnew
      have hentries : (List.range s.npages).map (fun i => (entries i).map Resource.page) =
          ((List.range s.npages).map entries).map (Option.map Resource.page) := by
        rw [List.map_map]
        rfl
      rw [hentries, h hnew, List.map_append, List.map_map, List.map_map]
      rfl
    · rfl
  · split <;> rfl

/-- A null entry of the array is freed like a page. -/
theorem none_mem_freed {entries : Nat → Option Pfn} {s o : KvmMemorySlot} (h : NewArray s o) {i : Nat} (hi : i < s.npages)
    (hnone : entries i = none) : none ∈ freed (kvmFreePhysmemSlot entries s (some o)) := by
  rw [freed_free, if_pos h]
  refine List.mem_append_left _ (List.mem_append_left _ (List.mem_map.2 ⟨i, List.mem_range.2 hi, ?_⟩))
  rw [hnone]
  rfl

theorem range_getElem? (pages : List Pfn) : (List.range pages.length).map (fun i => pages[i]?) = pages.map some := by
  apply List.ext_getElem
  · simp
  · intro i h1 h2
    have hi : i < pages.length := by simpa using h1
    simp [hi]

/-! ### The call -/

/-- The pass fails to allocate a page exactly when the allocations say so. -/
theorem pageAllocFails_iff {a : Attempt} (hcheck : checkRegion a.kvm mem slot = none) :
    PageAllocFails mem slot a ↔ NewArray (allocRegion a.allocs (newSlot mem (a.kvm.memslots slot))).slot (a.kvm.memslots slot) ∧
      ∃ i < mem.npages, a.allocs.page i = none := by
  rw [(allocRegion_spec a.allocs mem (a.kvm.memslots slot)).array]
  unfold PageAllocFails
  constructor
  · rintro ⟨-, h1, h2, h3, h4⟩
    exact ⟨⟨h1, h2, h3⟩, h4⟩
  · rintro ⟨⟨h1, h2, h3⟩, h4⟩
    exact ⟨hcheck, h1, h2, h3, h4⟩

/-- After a page that cannot be allocated, the cleanup frees null pointers. -/
theorem none_mem_cleanup {a : Attempt} (hcheck : checkRegion a.kvm mem slot = none)
    (hx : x = allocRegion a.allocs (newSlot mem (a.kvm.memslots slot))) (hfail : PageAllocFails mem slot a) :
    none ∈ freed (x.ops ++ kvmFreePhysmemSlot (fun i => x.pages[i]?) x.slot (some (a.kvm.memslots slot))) := by
  have hspec := allocRegion_spec a.allocs mem (a.kvm.memslots slot)
  rw [pageAllocFails_iff hcheck, ← hx] at hfail
  rw [← hx] at hspec
  obtain ⟨hnew, i, hi, hnone⟩ := hfail
  rw [freed_append]
  refine List.mem_append_right _ ?_
  rcases hspec.pages hnew with ⟨hall, -⟩ | ⟨-, hlen, -⟩
  · exact absurd hnone (hall i hi)
  · exact none_mem_freed hnew (i := x.pages.length) (by rw [hspec.npages]; exact hlen) (by simp)

/-- Cleaning up after the allocations undoes them, unless one of them was of a page. -/
theorem cleanup_accounted {a : Attempt} (hcheck : checkRegion a.kvm mem slot = none)
    (hx : x = allocRegion a.allocs (newSlot mem (a.kvm.memslots slot))) :
    (freed (x.ops ++ kvmFreePhysmemSlot (fun i => x.pages[i]?) x.slot (some (a.kvm.memslots slot)))).Perm
      ((allocated (x.ops ++ kvmFreePhysmemSlot (fun i => x.pages[i]?) x.slot (some (a.kvm.memslots slot)))).map some) ↔
      ¬PageAllocFails mem slot a := by
  constructor
  · intro hperm hfail
    have hmem := hperm.subset (none_mem_cleanup hcheck hx hfail)
    simp at hmem
  · intro hno
    have hspec := allocRegion_spec a.allocs mem (a.kvm.memslots slot)
    rw [pageAllocFails_iff hcheck, ← hx] at hno
    rw [← hx] at hspec
    rw [freed_append, allocated_append, allocated_free, List.append_nil, hspec.freed, List.nil_append,
      freed_free_of_full x.pages]
    · exact (hspec.allocated.map some).symm
    · intro hnew
      rcases hspec.pages hnew with ⟨-, hlen⟩ | ⟨hfail, -⟩
      · rw [hspec.npages, ← hlen]
        exact range_getElem? x.pages
      · exact absurd ⟨hnew, hfail⟩ hno

/-- Without a failure the array of a pass is full. -/
theorem accounted_of_committed {a : Attempt} {pages : List Pfn}
    (hx : x = allocRegion a.allocs (newSlot mem (a.kvm.memslots slot))) (hok : x.ok = true)
    (hpages : pages = slotPages a.kvm (a.kvm.memslots slot)) :
    Accounted (x.ops ++ kvmFreePhysmemSlot (fun i => some (a.kvm.pageArray (a.kvm.memslots slot).physMem i))
      (a.kvm.memslots slot) (some x.slot)) (.committed (a.kvm.memslots slot) x.slot pages x.pages) ∧
      (checkRegion a.kvm mem slot = none → ¬PageAllocFails mem slot a) := by
  have hspec := allocRegion_spec a.allocs mem (a.kvm.memslots slot)
  rw [← hx] at hspec
  refine ⟨?_, fun hcheck hfail => ?_⟩
  · unfold Accounted
    rw [freed_append, allocated_append, allocated_free, List.append_nil, hspec.freed, List.nil_append,
      freed_free_of_full pages]
    · exact List.perm_append_comm.trans ((hspec.allocated.map some).symm.append_right _)
    · intro _
      rw [hpages]
      exact List.map_map.symm
  · rw [pageAllocFails_iff hcheck, ← hx] at hfail
    obtain ⟨hnew, i, hi, hnone⟩ := hfail
    rcases hspec.pages hnew with ⟨hall, -⟩ | ⟨-, -, hno⟩
    · exact hall i hi hnone
    · rw [hok] at hno
      cases hno

theorem freed_sameMemory (entries : Nat → Option Pfn) {s o : KvmMemorySlot} (hp : s.physMem = o.physMem)
    (hb : s.dirtyBitmap = o.dirtyBitmap) : freed (kvmFreePhysmemSlot entries s (some o)) = [] := by
  rw [freed_free, if_neg fun h => h.1 hp, if_neg fun h => h.1 hb]
  rfl

/-- How a pass ends. -/
theorem Attempt.run_cases (mem : KvmMemoryRegion) (slot : Fin 4) (a : Attempt) :
    (∃ r, checkRegion a.kvm mem slot = some r ∧
      a.run mem slot = ⟨kvmFreePhysmemSlot (fun _ => none) (newSlot mem (a.kvm.memslots slot)) (some (a.kvm.memslots slot)),
        .failed r, a.kvm⟩) ∨
    (checkRegion a.kvm mem slot = none ∧ ∃ x, x = allocRegion a.allocs (newSlot mem (a.kvm.memslots slot)) ∧
      ((∃ outcome, (outcome = .raced ∧ x.ok = true ∨ ∃ r, outcome = .failed r) ∧
        a.run mem slot = ⟨x.ops ++ kvmFreePhysmemSlot (fun i => x.pages[i]?) x.slot (some (a.kvm.memslots slot)),
          outcome, a.kvm'⟩) ∨
      (x.ok = true ∧ a.run mem slot =
        ⟨x.ops ++ kvmFreePhysmemSlot (fun i => some (a.kvm.pageArray (a.kvm.memslots slot).physMem i)) (a.kvm.memslots slot)
            (some x.slot),
          .committed (a.kvm.memslots slot) x.slot (slotPages a.kvm (a.kvm.memslots slot)) x.pages,
          commitRegion (x.store (a.kvm.memslots slot) a.kvm') slot x.slot⟩))) := by
  unfold Attempt.run
  cases hcheck : checkRegion a.kvm mem slot with
  | some r => exact Or.inl ⟨r, rfl, rfl⟩
  | none =>
    refine Or.inr ⟨rfl, _, rfl, ?_⟩
    dsimp only
    generalize allocRegion a.allocs (newSlot mem (a.kvm.memslots slot)) = x
    cases hok : x.ok with
    | false => exact Or.inl ⟨_, Or.inr ⟨_, rfl⟩, rfl⟩
    | true =>
      cases a.kvm.memoryConfigVersion != a.kvm'.memoryConfigVersion with
      | true => exact Or.inl ⟨_, Or.inl ⟨rfl, rfl⟩, rfl⟩
      | false =>
        cases a.kvm'.busy != 0 with
        | true => exact Or.inl ⟨_, Or.inr ⟨_, rfl⟩, rfl⟩
        | false => exact Or.inr ⟨rfl, rfl⟩

/-- One pass is accounted for unless an `alloc_page` fails, and a failing pass keeps the machine. -/
theorem Attempt.run_accounted (mem : KvmMemoryRegion) (slot : Fin 4) (a : Attempt) :
    (Accounted (a.run mem slot).ops (a.run mem slot).outcome ↔ ¬PageAllocFails mem slot a) ∧
      (∀ r, (a.run mem slot).outcome = .failed r → (a.run mem slot).kvm = a.kvm ∨ (a.run mem slot).kvm = a.kvm') ∧
      ((a.run mem slot).outcome = .raced → ¬PageAllocFails mem slot a) := by
  rcases Attempt.run_cases mem slot a with ⟨r, hcheck, heq⟩ | ⟨hcheck, x, hx, ⟨outcome, hout, heq⟩ | ⟨hok, heq⟩⟩
  · rw [heq]
    have hno : ¬PageAllocFails mem slot a := fun h => by
      have := h.1
      rw [hcheck] at this
      cases this
    refine ⟨iff_of_true ?_ hno, fun _ _ => Or.inl rfl, fun h => by cases h⟩
    have hfreed : freed (kvmFreePhysmemSlot (fun _ => none) (newSlot mem (a.kvm.memslots slot))
        (some (a.kvm.memslots slot))) = [] := freed_sameMemory _ rfl rfl
    show (freed _).Perm ((allocated _).map some)
    dsimp only
    rw [allocated_free, hfreed]
    exact .refl _
  · rw [heq]
    have hclean := cleanup_accounted hcheck hx
    rcases hout with ⟨rfl, hok⟩ | ⟨r, rfl⟩
    · exact ⟨hclean, fun _ _ => Or.inr rfl, fun _ => (accounted_of_committed hx hok rfl).2 hcheck⟩
    · exact ⟨hclean, fun _ _ => Or.inr rfl, fun h => by cases h⟩
  · rw [heq]
    obtain ⟨hdone, hno⟩ := accounted_of_committed hx hok rfl
    refine ⟨iff_of_true hdone (hno hcheck), ?_, ?_⟩
    · intro r hr
      cases hr
    · intro hr
      cases hr

/-- A slot of one page at guest-physical address 0. -/
def onePage : KvmMemoryRegion where
  slot := 0
  flags := 0
  guestPhysAddr := 0
  memorySize := 0x1000

end LearnKvm
