import LearnKvm.Mmu.Paging

/-!
# MMU contexts (`mmu.c`)

The contexts a vcpu can be in, the choice among them from the guest's control registers, and the entry points of the
MMU, which call through the function pointers of the current context.  `kvm_mmu_init` sets up the pool of shadow pages
and the first context; `kvm_mmu_reset_context` replaces the context by the one for the current mode.
-/

namespace LearnKvm

def nonpagingInitContext (s : Vcpu) : Vcpu :=
  let (s, root) := kvmMmuAllocPage s none
  { s with
    mmu := { ops := .nonpaging, rootHpa := root, rootLevel := 3, shadowRootLevel := 3 }
    vmcs := vmcsWritel s.vmcs .guestCr3 (hpaOfOption root) }

def paging64InitContext (s : Vcpu) : Vcpu :=
  let (s, root) := kvmMmuAllocPage s none
  { s with
    mmu := { ops := .paging64, rootHpa := root, rootLevel := 4, shadowRootLevel := 4 }
    vmcs := vmcsWritel s.vmcs .guestCr3 (hpaOfOption root ||| cr3PageFlags s) }

def paging32InitContext (s : Vcpu) : Vcpu :=
  let (s, root) := kvmMmuAllocPage s none
  { s with
    mmu := { ops := .paging32, rootHpa := root, rootLevel := 2, shadowRootLevel := 3 }
    vmcs := vmcsWritel s.vmcs .guestCr3 (hpaOfOption root ||| cr3PageFlags s) }

def paging32EInitContext (s : Vcpu) : Vcpu :=
  let s := paging64InitContext s
  { s with mmu := { s.mmu with rootLevel := 3, shadowRootLevel := 3 } }

def initKvmMmu (s : Vcpu) : Vcpu :=
  if !isPaging s.vmcs then nonpagingInitContext s
  else if isLongMode s.vmcs then paging64InitContext s
  else if isPae s.vmcs then paging32EInitContext s
  else paging32InitContext s

def destroyKvmMmu (s : Vcpu) : Vcpu :=
  match s.mmu.rootHpa with
  | none => s
  | some _ =>
    let s := nonpagingFree s
    { s with mmu := { s.mmu with rootHpa := none } }

def kvmMmuResetContext (s : Vcpu) : Vcpu := initKvmMmu (destroyKvmMmu s)

/-- Every page is cleared and put on the free list; `alloc i` is the result of the `i`-th `alloc_page`.  Returns `false`
for `-ENOMEM`, after `free_mmu_pages` has emptied the list again. -/
def allocMmuPages (alloc : Fin 256 → Option Pfn) : List (Fin 256) → Vcpu → Vcpu × Bool
  | [], s => (s, true)
  | i :: rest, s =>
    match alloc i with
    | none => ({ s with freePages := [] }, false)
    | some page =>
      allocMmuPages alloc rest
        { s with
          shadow := fun p i => if p = page then 0 else s.shadow p i
          freePages := page :: s.freePages }

/-- Returns `false` for `-ENOMEM`. -/
def kvmMmuInit (alloc : Fin 256 → Option Pfn) (s : Vcpu) : Vcpu × Bool :=
  match allocMmuPages alloc (List.finRange 256) s with
  | (s, false) => (s, false)
  | (s, true) => (initKvmMmu s, true)

/-! ### Calls through the context -/

/-- The `PTTYPE` of a context; the non-paging context uses neither copy of the template. -/
def MmuOps.ptType : MmuOps → PtType
  | nonpaging => .pt64
  | paging64 => .pt64
  | paging32 => .pt32

def mmuNewCr3 (s : Vcpu) : Vcpu :=
  match s.mmu.ops with
  | .nonpaging => s
  | .paging64 => pagingNewCr3 s
  | .paging32 => pagingNewCr3 s

def mmuPageFault (s : Vcpu) (addr : BitVec 64) (errorCode : BitVec 32) (fuel : Nat) : Option (Vcpu × Bool) :=
  match s.mmu.ops with
  | .nonpaging => nonpagingPageFault addr fuel s
  | .paging64 => pageFault .pt64 s addr errorCode fuel
  | .paging32 => pageFault .pt32 s addr errorCode fuel

def mmuInvalPage (s : Vcpu) (addr : BitVec 64) : Vcpu :=
  match s.mmu.ops with
  | .nonpaging => s
  | .paging64 => pagingInvalPage addr s.mmu.shadowRootLevel s (rootPage s)
  | .paging32 => pagingInvalPage addr s.mmu.shadowRootLevel s (rootPage s)

def mmuGvaToGpa (s : Vcpu) (vaddr : BitVec 64) : BitVec 64 :=
  match s.mmu.ops with
  | .nonpaging => vaddr
  | .paging64 => gvaToGpa .pt64 s vaddr
  | .paging32 => gvaToGpa .pt32 s vaddr

end LearnKvm
