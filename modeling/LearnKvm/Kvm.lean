import LearnKvm.Lib.ByteMemory
import LearnKvm.Vmx

/-!
# The virtual machine (`kvm.h`)

The state of one virtual machine as the memory management code sees it.  The host is x86-64; there is one vcpu
(`KVM_MAX_VCPUS` is 1), so `Vcpu` holds the fields of `struct kvm_vcpu` and, in `kvm`, those of its `struct kvm`.

Host pages are named by their frame number `Pfn`, 40 bits wide because physical addresses have at most 52 bits.  A
`struct kvm_mmu_page` is named by the frame of the page it describes: `page_hpa` and `page->private` are set together
when the page is allocated and are inverse to each other.  So `header p` is `page_header` of the page `p`, `shadow p`
are the 512 entries stored in it, and the lists of headers are lists of frames.  `INVALID_PAGE` is `none`.

`mem` is the memory of the host that is not in shadow pages, by physical address; a page mapped with `kmap_atomic` is
read and written there at the address of its frame.  Arrays obtained from `vmalloc` are named by a number, 0 being the
null pointer: `pageArray` and `bitmap` give their contents.
-/

namespace LearnKvm

/-- The frame number of a host page. -/
abbrev Pfn := BitVec 40

def pageShift : Nat := 12
def pageSize : BitVec 64 := 1#64 <<< pageShift
def pageMask : BitVec 64 := ~~~(pageSize - 1#64)

/-- The physical address of a host page. -/
def hpaOf (p : Pfn) : BitVec 64 := p.setWidth 64 <<< pageShift

/-- `pfn_to_page` of a physical address. -/
def pfnOf (hpa : BitVec 64) : Pfn := Bits.field pageShift 40 hpa

def kvmMaxVcpus : Nat := 1
def kvmMemorySlots : Nat := 4
def kvmNumMmuPages : Nat := 256

/-- There are slots, and general registers, so that a numeral names one. -/
instance neZeroMemorySlots : NeZero 4 := ⟨by decide⟩
instance neZeroRegs : NeZero 16 := ⟨by decide⟩

def unmappedGva : BitVec 64 := ~~~0#64

structure KvmMemorySlot where
  baseGfn : Nat
  npages : Nat
  flags : BitVec 64
  physMem : Nat
  dirtyBitmap : Nat

/-- A pointer to an entry of a shadow page. -/
structure PtePtr where
  page : Pfn
  index : Fin 512
  deriving DecidableEq

structure KvmMmuPage where
  /-- One bit set per slot which has memory in this shadow page. -/
  slotBitmap : BitVec 64
  /-- Set if all ptes in this page are global. -/
  global : Bool
  parentPte : Option PtePtr

/-- The functions `new_cr3`, `page_fault`, `inval_page`, `gva_to_gpa` and `free` of a `struct kvm_mmu`, which every
`init_context` sets together. -/
inductive MmuOps where
  | nonpaging | paging64 | paging32
  deriving DecidableEq

structure KvmMmu where
  ops : MmuOps
  rootHpa : Option Pfn
  rootLevel : Nat
  shadowRootLevel : Nat

structure Kvm where
  nmemslots : Nat
  memslots : Fin 4 → KvmMemorySlot
  activeMmuPages : List Pfn
  memoryConfigVersion : BitVec 32
  busy : BitVec 32
  pageArray : Nat → Nat → Pfn
  bitmap : Nat → Nat → Bool

/-- The assertions of `mmu.c` and `paging_tmpl.h` about the entries of shadow pages. -/
inductive AssertSite where
  | kvmMmuAllocPage | setPte | setPde
  deriving DecidableEq

structure Vcpu where
  kvm : Kvm
  vmcs : Vmcs
  cr2 : BitVec 64
  cr3 : BitVec 64
  mmu : KvmMmu
  freePages : List Pfn
  header : Pfn → KvmMmuPage
  shadow : Pfn → Fin 512 → BitVec 64
  mem : ByteMem.Mem 64
  badPage : Pfn
  /-- The assertions that failed so far. -/
  failed : List AssertSite

/-- A virtual machine without memory. -/
instance : Inhabited Kvm := ⟨{
  nmemslots := 0
  memslots := fun _ => { baseGfn := 0, npages := 0, flags := 0, physMem := 0, dirtyBitmap := 0 }
  activeMmuPages := []
  memoryConfigVersion := 0
  busy := 0
  pageArray := fun _ _ => 0
  bitmap := fun _ _ => false }⟩

/-- A vcpu of such a machine, before `kvm_mmu_init`. -/
instance : Inhabited Vcpu := ⟨{
  kvm := default
  vmcs := fun _ => 0
  cr2 := 0
  cr3 := 0
  mmu := { ops := .nonpaging, rootHpa := none, rootLevel := 0, shadowRootLevel := 0 }
  freePages := []
  header := fun _ => { slotBitmap := 0, global := false, parentPte := none }
  shadow := fun _ _ => 0
  mem := fun _ => 0
  badPage := 0
  failed := [] }⟩

/-- `ASSERT(x)`: a failure is reported, execution goes on. -/
def Vcpu.assert (s : Vcpu) (site : AssertSite) (x : Bool) : Vcpu :=
  if x then s else { s with failed := site :: s.failed }

/-- The entry `ptr` points to. -/
def Vcpu.readPte (s : Vcpu) (ptr : PtePtr) : BitVec 64 := s.shadow ptr.page ptr.index

def Vcpu.writePte (s : Vcpu) (ptr : PtePtr) (e : BitVec 64) : Vcpu :=
  { s with shadow := fun p i => if p = ptr.page ∧ i = ptr.index then e else s.shadow p i }

/-! ### Memory slots -/

def KvmMemorySlot.contains (slot : KvmMemorySlot) (gfn : Nat) : Bool :=
  slot.baseGfn ≤ gfn && gfn < slot.baseGfn + slot.npages

def gfnToMemslot (kvm : Kvm) (gfn : Nat) : Option (Fin 4) :=
  (List.finRange 4).find? fun i => i.val < kvm.nmemslots && (kvm.memslots i).contains gfn

def gfnToPage (kvm : Kvm) (slot : Fin 4) (gfn : Nat) : Pfn :=
  kvm.pageArray (kvm.memslots slot).physMem (gfn - (kvm.memslots slot).baseGfn)

/-- The guest frame of a guest physical address. -/
def gfnOf (gpa : BitVec 64) : Nat := (gpa >>> pageShift).toNat

def hpaErrMask : BitVec 64 := 1#64 <<< 63

def isErrorHpa (hpa : BitVec 64) : Bool := hpa.hasBit 63

def gpaToHpa (kvm : Kvm) (gpa : BitVec 64) : BitVec 64 :=
  match gfnToMemslot kvm (gfnOf gpa) with
  | none => gpa ||| hpaErrMask
  | some slot => hpaOf (gfnToPage kvm slot (gfnOf gpa)) ||| (gpa &&& (pageSize - 1#64))

def safeGpaToHpa (s : Vcpu) (gpa : BitVec 64) : BitVec 64 :=
  let hpa := gpaToHpa s.kvm gpa
  if isErrorHpa hpa then hpaOf s.badPage ||| (gpa &&& ~~~pageMask) else hpa

def setBit (kvm : Kvm) (nr : Nat) (map : Nat) : Kvm :=
  { kvm with bitmap := fun b n => if b = map ∧ n = nr then true else kvm.bitmap b n }

def markPageDirty (kvm : Kvm) (gfn : Nat) : Kvm :=
  match gfnToMemslot kvm gfn with
  | none => kvm
  | some i =>
    let memslot := kvm.memslots i
    if memslot.dirtyBitmap = 0 then kvm
    else
      let relGfn := gfn - memslot.baseGfn
      if kvm.bitmap memslot.dirtyBitmap relGfn then kvm else setBit kvm relGfn memslot.dirtyBitmap

end LearnKvm
