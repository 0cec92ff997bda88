import LearnKvm.Mmu.Pte

/-!
# Shadow pages and the non-paging MMU (`mmu.c`)

Allocation and release of shadow pages, the functions of the non-paging context, which maps guest physical addresses
directly, and the functions that the paging contexts share.  Loops over the levels of a shadow table are recursions on
the level.  A loop that starts over when no shadow page is left is given `fuel`, the number of rounds it may make, and
yields `none` when that is used up.

The counters in `kvm_stat` are left out: nothing reads them.
-/

namespace LearnKvm

def kvmMmuFreePage (s : Vcpu) (page : Pfn) : Vcpu :=
  { s with
    kvm := { s.kvm with activeMmuPages := s.kvm.activeMmuPages.erase page }
    freePages := page :: s.freePages.erase page }

def isEmptyShadowPage (s : Vcpu) (page : Pfn) : Bool := decide (∀ i, s.shadow page i = 0)

/-- Takes the first page of the free list; `none` stands for `INVALID_PAGE`. -/
def kvmMmuAllocPage (s : Vcpu) (parentPte : Option PtePtr) : Vcpu × Option Pfn :=
  match s.freePages with
  | [] => (s, none)
  | page :: rest =>
    let s := { s with
      freePages := rest
      kvm := { s.kvm with activeMmuPages := page :: s.kvm.activeMmuPages } }
    let s := s.assert .kvmMmuAllocPage (isEmptyShadowPage s page)
    ({ s with header := fun p =>
        if p = page then { slotBitmap := 0, global := true, parentPte := parentPte } else s.header p },
      some page)

/-- The caller has looked up the page of `gpa`, so its slot exists. -/
def pageHeaderUpdateSlot (s : Vcpu) (page : Pfn) (gpa : BitVec 64) : Vcpu :=
  match gfnToMemslot s.kvm (gfnOf gpa) with
  | none => s
  | some slot =>
    { s with header := fun p =>
        if p = page then { s.header p with slotBitmap := (s.header p).slotBitmap ||| 1#64 <<< slot.val }
        else s.header p }

/-- `__va(vcpu->mmu.root_hpa)`. -/
def rootPage (s : Vcpu) : Pfn := s.mmu.rootHpa.getD (pfnOf (~~~0#64))

/-- Empties the page and everything below it, each entry before the page it points to. -/
def releasePtPage64 : Nat → Vcpu → Pfn → Vcpu
  | 0, s, page => kvmMmuFreePage s page
  | 1, s, page =>
    kvmMmuFreePage { s with shadow := fun p i => if p = page then 0 else s.shadow p i } page
  | level + 2, s, page =>
    kvmMmuFreePage
      ((List.finRange 512).foldl (fun s i =>
        let currentEnt := s.shadow page i
        let s := s.writePte ⟨page, i⟩ 0
        if isPresentPte currentEnt then releasePtPage64 (level + 1) s (frameOf currentEnt) else s) s)
      page

/-! ### The non-paging context -/

/-- Returns `false` for `-ENOMEM`. -/
def nonpagingMap (v p : BitVec 64) : Nat → Vcpu → Pfn → Vcpu × Bool
  | 0, s, _ => (s, true)
  | 1, s, table =>
    let s := { s with kvm := markPageDirty s.kvm (gfnOf v) }
    let s := pageHeaderUpdateSlot s table v
    (s.writePte ⟨table, pt64Index v 1⟩ (p ||| ptPresentMask ||| ptWritableMask ||| ptUserMask), true)
  | level + 2, s, table =>
    let ptr : PtePtr := ⟨table, pt64Index v (level + 2)⟩
    if s.readPte ptr = 0 then
      match kvmMmuAllocPage s (some ptr) with
      | (s, none) => (s, false)
      | (s, some newTable) =>
        let s := s.writePte ptr
          (if level + 2 = 3 then hpaOf newTable ||| ptPresentMask
            else hpaOf newTable ||| ptPresentMask ||| ptWritableMask ||| ptUserMask)
        nonpagingMap v p (level + 1) s (frameOf (s.readPte ptr))
    else nonpagingMap v p (level + 1) s (frameOf (s.readPte ptr))

def hpaOfOption (p : Option Pfn) : BitVec 64 := p.elim (~~~0#64) hpaOf

def cr3PageFlags (s : Vcpu) : BitVec 64 := s.cr3 &&& (cr3PcdMask ||| cr3WptMask)

def nonpagingFlush (s : Vcpu) : Vcpu :=
  let s := releasePtPage64 s.mmu.shadowRootLevel s (rootPage s)
  let (s, root) := kvmMmuAllocPage s none
  let s := { s with mmu := { s.mmu with rootHpa := root } }
  let cr3 := if isPaging s.vmcs then hpaOfOption root ||| cr3PageFlags s else hpaOfOption root
  { s with vmcs := vmcsWritel s.vmcs .guestCr3 cr3 }

def nonpagingPageFault (addr : BitVec 64) : Nat → Vcpu → Option (Vcpu × Bool)
  | 0, _ => none
  | fuel + 1, s =>
    let paddr := gpaToHpa s.kvm (addr &&& pt64BaseAddrMask)
    if isErrorHpa paddr then some (s, true)
    else
      match nonpagingMap (addr &&& pageMask) paddr 3 s (rootPage s) with
      | (s, false) => nonpagingPageFault addr fuel (nonpagingFlush s)
      | (s, true) => some (s, false)

def nonpagingFree (s : Vcpu) : Vcpu :=
  let s := match s.mmu.rootHpa with
    | none => s
    | some root => releasePtPage64 s.mmu.shadowRootLevel s root
  { s with mmu := { s.mmu with rootHpa := none } }

/-! ### Functions shared by the paging contexts -/

/-- The list is walked with `list_for_each_entry_safe`; a round takes at most its own page off the list. -/
def kvmMmuFlushTlb (s : Vcpu) : Vcpu :=
  s.kvm.activeMmuPages.foldl (fun s page =>
    if (s.header page).global then s
    else
      match (s.header page).parentPte with
      | none => s
      | some parentPte => releasePtPage64 1 (s.writePte parentPte 0) page) s

def pagingNewCr3 (s : Vcpu) : Vcpu := kvmMmuFlushTlb s

def markPagetableNonglobal (s : Vcpu) (page : Pfn) : Vcpu :=
  { s with header := fun p => if p = page then { s.header p with global := false } else s.header p }

def setPteCommon (s : Vcpu) (shadowPte : PtePtr) (gaddr : BitVec 64) (dirty : Bool) (accessBits : BitVec 64) : Vcpu :=
  let ent := s.readPte shadowPte ||| accessBits <<< ptShadowBitsOffset
  let accessBits := if dirty then accessBits else accessBits &&& ~~~ptWritableMask
  let s := if accessBits &&& ptWritableMask != 0 then { s with kvm := markPageDirty s.kvm (gfnOf gaddr) } else s
  let ent := ent ||| accessBits
  let paddr := gpaToHpa s.kvm (gaddr &&& pt64BaseAddrMask)
  let s := if ent &&& ptGlobalMask != 0 then s else markPagetableNonglobal s shadowPte.page
  if isErrorHpa paddr then s.writePte shadowPte ((ent ||| gaddr ||| ptShadowIoMark) &&& ~~~ptPresentMask)
  else pageHeaderUpdateSlot (s.writePte shadowPte (ent ||| paddr)) shadowPte.page gaddr

def injectPageFault (s : Vcpu) (addr : BitVec 64) (errCode : BitVec 32) : Vcpu :=
  if isPageFault (vmcsRead32 s.vmcs .idtVectoringInfoField) then
    { s with
      vmcs := vmcsWrite32 (vmcsWrite32 s.vmcs .vmEntryExceptionErrorCode 0) .vmEntryIntrInfoField
        (exceptionInfo dfVector) }
  else
    { s with
      cr2 := addr
      vmcs := vmcsWrite32 (vmcsWrite32 s.vmcs .vmEntryExceptionErrorCode errCode) .vmEntryIntrInfoField
        (exceptionInfo pfVector) }

/-- If supervisor write protect is disabled, kernel pages are shadowed as user pages so that write accesses trap. -/
def fixReadPf (s : Vcpu) (shadowEnt : PtePtr) : Vcpu × Bool :=
  let ent := s.readPte shadowEnt
  if ent &&& ptShadowUserMask != 0 && !(ent &&& ptUserMask != 0) then
    (s.writePte shadowEnt ((ent ||| ptUserMask) &&& ~~~ptWritableMask), true)
  else (s, false)

def mayAccess (pte : BitVec 64) (write user : Bool) : Bool :=
  if user && !(pte &&& ptUserMask != 0) then false
  else if write && !(pte &&& ptWritableMask != 0) then false
  else true

def pagingInvalPage (addr : BitVec 64) : Nat → Vcpu → Pfn → Vcpu
  | 0, s, _ => s
  | 1, s, page => s.writePte ⟨page, pt64Index addr 1⟩ 0
  | level + 2, s, page =>
    let ptr : PtePtr := ⟨page, pt64Index addr (level + 2)⟩
    let ent := s.readPte ptr
    if !isPresentPte ent then s
    else if level + 2 = 2 && ent &&& ptShadowPsMark != 0 then
      let s := releasePtPage64 1 (s.writePte ptr 0) (frameOf ent)
      { s with vmcs := vmcsWritel s.vmcs .guestCr3 (hpaOfOption s.mmu.rootHpa ||| cr3PageFlags s) }
    else pagingInvalPage addr (level + 1) s (frameOf ent)

def kvmMmuSlotRemoveWriteAccess (s : Vcpu) (slot : Fin 4) : Vcpu :=
  s.kvm.activeMmuPages.foldl (fun s page =>
    if (s.header page).slotBitmap.hasBit slot.val then
      { s with shadow := fun p i =>
          if p = page then
            (if s.shadow p i &&& ptWritableMask != 0 then s.shadow p i &&& ~~~ptWritableMask else s.shadow p i)
          else s.shadow p i }
    else s) s

end LearnKvm
