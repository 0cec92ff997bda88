import LearnKvm.VcpuSetup

/-!
# Memory regions (`kvm_dev_ioctl_set_memory_region`)

The pieces of the call: the sanity checks, the section under `kvm->lock` that checks for overlaps, the allocations outside
of the lock, the section that commits the new slot unless another call has done so in between or the slots are busy, and
`kvm_free_physmem_slot`, which compares two slots to decide what to free.

What a call does with memory is recorded as a list of operations (`HeapOp`).  The page array of a slot holds pages only
(`Kvm.pageArray`); in the array that a call is filling, the pages allocated so far are `Allocated.pages` and the entries
behind them are null.  Frame numbers and numbers of pages are below `2 ^ 52`.
-/

namespace LearnKvm

/-! ### Memory -/

def eagain : Int := 11
def enoent : Int := 2
def efault : Int := 14

/-- An operation on host memory; `none` is a null pointer. -/
inductive HeapOp where
  | allocPage (p : Pfn)
  | freePage (p : Option Pfn)
  | vmalloc (a : Nat)
  | vfree (a : Nat)

/-- What `vmalloc` of the page array, the calls of `alloc_page` and `vmalloc` of the bitmap return. -/
structure RegionAllocs where
  array : Option Nat
  page : Nat → Option Pfn
  bitmap : Option Nat
  array_ne : array ≠ some 0
  bitmap_ne : bitmap ≠ some 0

/-- All allocations fail. -/
def noAllocs : RegionAllocs where
  array := none
  page := fun _ => none
  bitmap := none
  array_ne := by decide
  bitmap_ne := by decide

/-- Allocations for a slot of one page. -/
def onePageAllocs : RegionAllocs where
  array := some 1
  page := fun i => if i = 0 then some 7 else none
  bitmap := none
  array_ne := by decide
  bitmap_ne := noAllocs.bitmap_ne

theorem bitmapAddress_ne : (some 2 : Option Nat) ≠ some 0 := by decide

/-- Free any memory in `free` but not in `dont`; `entries` is what the page array of `free` holds. -/
def kvmFreePhysmemSlot (entries : Nat → Option Pfn) (free : KvmMemorySlot) (dont : Option KvmMemorySlot) : List HeapOp :=
  (if (∀ s ∈ dont, free.physMem ≠ s.physMem) ∧ free.physMem ≠ 0 then
      (List.range free.npages).map (fun i => HeapOp.freePage (entries i)) ++ [.vfree free.physMem]
    else []) ++
  (if (∀ s ∈ dont, free.dirtyBitmap ≠ s.dirtyBitmap) ∧ free.dirtyBitmap ≠ 0 then [.vfree free.dirtyBitmap] else [])

/-! ### The request -/

def kvmMemLogDirtyPages : BitVec 64 := 1#64

structure KvmMemoryRegion where
  slot : BitVec 32
  flags : BitVec 32
  guestPhysAddr : BitVec 64
  memorySize : BitVec 64

namespace KvmMemoryRegion

def baseGfn (mem : KvmMemoryRegion) : Nat := gfnOf mem.guestPhysAddr
def npages (mem : KvmMemoryRegion) : Nat := gfnOf mem.memorySize

/-- `mem->flags`, without dirty logging for a slot without pages. -/
def slotFlags (mem : KvmMemoryRegion) : BitVec 64 :=
  if mem.npages = 0 then mem.flags.setWidth 64 &&& ~~~kvmMemLogDirtyPages else mem.flags.setWidth 64

/-- General sanity checks; returns the slot. -/
def sanityChecks (mem : KvmMemoryRegion) : Option (Fin 4) :=
  if mem.memorySize &&& (pageSize - 1#64) != 0 then none
  else if mem.guestPhysAddr &&& (pageSize - 1#64) != 0 then none
  else if h : kvmMemorySlots ≤ mem.slot.toNat then none
  else if mem.guestPhysAddr + mem.memorySize < mem.guestPhysAddr then none
  else some ⟨mem.slot.toNat, Nat.lt_of_not_le h⟩

end KvmMemoryRegion

/-! ### The checks -/

/-- The new slot, with the memory of the old one. -/
def newSlot (mem : KvmMemoryRegion) (old : KvmMemorySlot) : KvmMemorySlot :=
  { old with baseGfn := mem.baseGfn, npages := mem.npages, flags := mem.slotFlags }

/-- The pages of the request and those of the slot have a page in common; sums are taken in an `unsigned long`. -/
def regionOverlaps (mem : KvmMemoryRegion) (s : KvmMemorySlot) : Bool :=
  !(decide ((mem.baseGfn + mem.npages) % 2 ^ 64 ≤ s.baseGfn) || decide ((s.baseGfn + s.npages) % 2 ^ 64 ≤ mem.baseGfn))

/-- The checks under the lock; returns the error. -/
def checkRegion (kvm : Kvm) (mem : KvmMemoryRegion) (slot : Fin 4) : Option Int :=
  let old := kvm.memslots slot
  -- Disallow changing a memory slot's size.
  if mem.npages ≠ 0 ∧ old.npages ≠ 0 ∧ mem.npages ≠ old.npages then some (-einval)
  else if (List.finRange 4).any fun i => i ≠ slot && regionOverlaps mem (kvm.memslots i) then some (-eexist)
  else none

/-! ### The allocations -/

/-- The new slot in the making, with the entries of a new page array and the operations so far; `ok` is false after a
failed allocation. -/
structure Allocated where
  slot : KvmMemorySlot
  pages : List Pfn
  ops : List HeapOp
  ok : Bool

/-- The loop over the entries of the page array, up to the first page that cannot be allocated. -/
def allocPages (page : Nat → Option Pfn) : List Nat → List Pfn × Bool
  | [] => ([], true)
  | i :: rest =>
    match page i with
    | none => ([], false)
    | some p =>
      let (pages, ok) := allocPages page rest
      (p :: pages, ok)

/-- Deallocate if slot is being removed, free page dirty bitmap if unneeded. -/
def dropUnneeded (new : KvmMemorySlot) : KvmMemorySlot :=
  let new := if new.npages = 0 then { new with physMem := 0 } else new
  if new.flags &&& kvmMemLogDirtyPages == 0 then { new with dirtyBitmap := 0 } else new

/-- Allocate if a slot is being created. -/
def allocArray (allocs : RegionAllocs) (new : KvmMemorySlot) : Allocated :=
  if new.npages ≠ 0 ∧ new.physMem = 0 then
    match allocs.array with
    | none => { slot := new, pages := [], ops := [], ok := false }
    | some a =>
      let (pages, ok) := allocPages allocs.page (List.range new.npages)
      { slot := { new with physMem := a }, pages := pages, ops := .vmalloc a :: pages.map .allocPage, ok := ok }
  else { slot := new, pages := [], ops := [], ok := true }

/-- Allocate page dirty bitmap if needed. -/
def allocBitmap (allocs : RegionAllocs) (x : Allocated) : Allocated :=
  if x.ok && x.slot.flags &&& kvmMemLogDirtyPages != 0 && x.slot.dirtyBitmap == 0 then
    match allocs.bitmap with
    | none => { x with ok := false }
    | some b => { x with slot := { x.slot with dirtyBitmap := b }, ops := x.ops ++ [.vmalloc b] }
  else x

def allocRegion (allocs : RegionAllocs) (new : KvmMemorySlot) : Allocated :=
  allocBitmap allocs (allocArray allocs (dropUnneeded new))

/-- The contents of a new page array and a new bitmap. -/
def Allocated.store (x : Allocated) (old : KvmMemorySlot) (kvm : Kvm) : Kvm :=
  { kvm with
    pageArray := if x.slot.physMem ≠ old.physMem ∧ x.slot.physMem ≠ 0 then
        Function.update kvm.pageArray x.slot.physMem fun i => x.pages.getD i 0
      else kvm.pageArray
    bitmap := if x.slot.dirtyBitmap ≠ old.dirtyBitmap ∧ x.slot.dirtyBitmap ≠ 0 then
        Function.update kvm.bitmap x.slot.dirtyBitmap fun _ => false
      else kvm.bitmap }

/-! ### The commit -/

def commitRegion (kvm : Kvm) (slot : Fin 4) (new : KvmMemorySlot) : Kvm :=
  { kvm with
    nmemslots := if kvm.nmemslots ≤ slot.val then slot.val + 1 else kvm.nmemslots
    memslots := Function.update kvm.memslots slot new
    memoryConfigVersion := kvm.memoryConfigVersion + 1#32 }

end LearnKvm
