import LearnKvm.Mmu.Pages

/-!
# The paging contexts (`paging_tmpl.h`)

`paging_tmpl.h` is compiled twice, for guest tables with 64-bit and with 32-bit entries; `PtType` is the parameter
`PTTYPE`, and every definition below takes it as its first argument.  Guest entries are words of 64 bits, those of the
32-bit format zero-extended (`readEntry`).

A walker holds a pointer into the table it has mapped.  Beyond the fields of `struct guest_walker` it lists the
entries that were read through it (`visited`), with the page that was mapped at that moment; nothing in the code
depends on this list.
-/

namespace LearnKvm

/-- `PTTYPE`. -/
inductive PtType where
  | pt32 | pt64
  deriving DecidableEq

namespace PtType

/-- The size of `pt_element_t`. -/
def bytes : PtType → Nat
  | pt32 => 4
  | pt64 => 8

def baseAddrMask : PtType → BitVec 64
  | pt32 => pt32BaseAddrMask
  | pt64 => pt64BaseAddrMask

def dirBaseAddrMask : PtType → BitVec 64
  | pt32 => pt32DirBaseAddrMask
  | pt64 => pt64DirBaseAddrMask

def index : PtType → BitVec 64 → Nat → Nat
  | pt32, addr, level => pt32Index addr level
  | pt64, addr, level => pt64Index addr level

def pageTableLevelMask : PtType → BitVec 64
  | pt32 => pt32PageTableLevelMask
  | pt64 => pt64PageTableLevelMask

def pteCopyMask : PtType → BitVec 64
  | pt32 => pt32PteCopyMask
  | pt64 => pt64PteCopyMask

def nonPteCopyMask : PtType → BitVec 64
  | pt32 => pt32NonPteCopyMask
  | pt64 => pt64NonPteCopyMask

end PtType

/-- An entry read by a walker: its level, the page mapped when it was read, and its address. -/
structure Visit where
  level : Nat
  page : BitVec 64
  ent : BitVec 64
  deriving DecidableEq

structure GuestWalker where
  level : Nat
  table : BitVec 64
  inheritedAr : BitVec 64
  visited : List Visit

variable (pt : PtType)

/-- `*guest_ent` for an entry at address `a`. -/
def readEntry (s : Vcpu) (a : BitVec 64) : BitVec 64 := ByteMem.load s.mem a pt.bytes

/-- `*guest_ent |= mask`. -/
def orEntry (s : Vcpu) (a : BitVec 64) (mask : BitVec 64) : Vcpu :=
  { s with mem := ByteMem.orAt s.mem a pt.bytes mask }

/-- `&table[index]`. -/
def entryAddr (table : BitVec 64) (index : Nat) : BitVec 64 := table + BitVec.ofNat 64 (index * pt.bytes)

/-- `kmap_atomic(pfn_to_page(paddr >> PAGE_SHIFT))`. -/
def kmapAtomic (paddr : BitVec 64) : BitVec 64 := hpaOf (pfnOf paddr)

def initWalker (s : Vcpu) : GuestWalker :=
  let hpa := safeGpaToHpa s (s.cr3 &&& pt64BaseAddrMask)
  { level := s.mmu.rootLevel
    table := kmapAtomic hpa ||| (s.cr3 &&& ~~~(pageMask ||| cr3FlagsMask))
    inheritedAr := ptUserMask ||| ptWritableMask
    visited := [] }

/-- The guest entry maps a large page. -/
def isLargePde (s : Vcpu) (level : Nat) (pte : BitVec 64) : Bool :=
  level = 2 && pte &&& ptPageSizeMask != 0 && (pt = .pt64 || isPse s.vmcs)

/-- The loop of `fetch_guest`, by recursion on the level of the walker. -/
def fetchGuestLoop (s : Vcpu) (level : Nat) (addr : BitVec 64) :
    Nat → BitVec 64 → BitVec 64 → List Visit → GuestWalker × BitVec 64
  | 0, table, ar, visited => ({ level := 0, table := table, inheritedAr := ar, visited := visited }, table)
  | wl + 1, table, ar, visited =>
    let ent := entryAddr pt table (pt.index addr (wl + 1))
    let pte := readEntry pt s ent
    let visited := visited ++ [{ level := wl + 1, page := table &&& pageMask, ent := ent }]
    if level = wl + 1 || !isPresentPte pte || isLargePde pt s (wl + 1) pte then
      ({ level := wl + 1, table := table, inheritedAr := ar, visited := visited }, ent)
    else
      let ar := if wl + 1 ≠ 3 || isLongMode s.vmcs then ar &&& pte else ar
      let paddr := safeGpaToHpa s (pte &&& pt.baseAddrMask)
      fetchGuestLoop s level addr wl (kmapAtomic paddr) ar visited

/-- Fetch a guest pte from a specific level in the paging hierarchy. -/
def fetchGuest (s : Vcpu) (walker : GuestWalker) (level : Nat) (addr : BitVec 64) : GuestWalker × BitVec 64 :=
  fetchGuestLoop pt s level addr walker.level walker.table walker.inheritedAr walker.visited

def setPte (s : Vcpu) (guestPte : BitVec 64) (shadowPte : PtePtr) (accessBits : BitVec 64) : Vcpu :=
  let s := s.assert .setPte (s.readPte shadowPte == 0)
  let accessBits := accessBits &&& guestPte
  let s := s.writePte shadowPte (guestPte &&& pt.pteCopyMask)
  setPteCommon s shadowPte (guestPte &&& pt.baseAddrMask) (guestPte &&& ptDirtyMask != 0) accessBits

/-- The address of the 4K page `index` of the large page of a directory entry. -/
def pdeGaddr (guestPde : BitVec 64) (index : Nat) : BitVec 64 :=
  let gaddr := (guestPde &&& pt.dirBaseAddrMask) + pageSize * BitVec.ofNat 64 index
  if pt = .pt32 then gaddr ||| (guestPde &&& pt32DirPse36Mask) <<< (32 - 13) else gaddr

def setPde (s : Vcpu) (guestPde : BitVec 64) (shadowPte : PtePtr) (accessBits : BitVec 64) (index : Nat) : Vcpu :=
  let s := s.assert .setPde (s.readPte shadowPte == 0)
  let accessBits := accessBits &&& guestPde
  let gaddr := pdeGaddr pt guestPde index
  let s := s.writePte shadowPte ((guestPde &&& pt.nonPteCopyMask) ||| ((guestPde &&& ptDirPatMask) >>> (12 - 7)))
  setPteCommon s shadowPte gaddr (guestPde &&& ptDirtyMask != 0) accessBits

inductive FetchResult where
  | pte (shadowEnt : PtePtr)
  | null
  | enomem
  deriving DecidableEq

/-- The flags of a new entry that links a shadow page of a given level, copied from the guest entry. -/
def linkFlags (s : Vcpu) (level : Nat) (guestEnt : BitVec 64) : BitVec 64 :=
  if !isLongMode s.vmcs && level = 3 then guestEnt &&& (ptPresentMask ||| ptPwtMask ||| ptPcdMask)
  else (guestEnt &&& pt.nonPteCopyMask) ||| (ptWritableMask ||| ptUserMask)

/-- The loop of `fetch`, by recursion on the shadow level. -/
def fetchLoop (addr : BitVec 64) :
    Nat → Vcpu → GuestWalker → Pfn → Option PtePtr → Vcpu × GuestWalker × FetchResult
  | 0, s, walker, _, _ => (s, walker, .null)
  | level + 1, s, walker, shadowAddr, prevShadowEnt =>
    let shadowEnt : PtePtr := ⟨shadowAddr, pt64Index addr (level + 1)⟩
    let ent := s.readPte shadowEnt
    if isPresentPte ent || isIoPte ent then
      if level + 1 = 1 then (s, walker, .pte shadowEnt)
      else fetchLoop addr level s walker (frameOf ent) (some shadowEnt)
    else
      let guestLevel := if pt = .pt32 && decide (level + 1 > 2) then 2 else level + 1
      let (walker, guestEnt) := fetchGuest pt s walker guestLevel addr
      if !isPresentPte (readEntry pt s guestEnt) then (s, walker, .null)
      else
        -- the accessed bit is not set on PAE PDPTRs
        let s := if s.mmu.rootLevel ≠ 3 || walker.level ≠ 3 then orEntry pt s guestEnt ptAccessedMask else s
        let gent := readEntry pt s guestEnt
        if level + 1 = 1 then
          if walker.level = 2 then
            let s := match prevShadowEnt with
              | some prev => s.writePte prev (s.readPte prev ||| ptShadowPsMark)
              | none => s
            (setPde pt s gent shadowEnt walker.inheritedAr (pt.index addr 1), walker, .pte shadowEnt)
          else (setPte pt s gent shadowEnt walker.inheritedAr, walker, .pte shadowEnt)
        else
          match kvmMmuAllocPage s (some shadowEnt) with
          | (s, none) => (s, walker, .enomem)
          | (s, some newPage) =>
            let s := s.writePte shadowEnt (hpaOf newPage ||| linkFlags pt s (level + 1) gent)
            fetchLoop addr level s walker newPage (some shadowEnt)

/-- Fetch a shadow pte for the page table level. -/
def fetch (s : Vcpu) (addr : BitVec 64) (walker : GuestWalker) : Vcpu × GuestWalker × FetchResult :=
  fetchLoop pt addr s.mmu.shadowRootLevel s walker (rootPage s) none

/-- What `fix_write_pf` does once the access is permitted: mark the page and both entries dirty. -/
def fixWritePfDirty (s : Vcpu) (shadowEnt : PtePtr) (walker : GuestWalker) (addr : BitVec 64) :
    Vcpu × GuestWalker × Bool :=
  let (walker, guestEnt) := fetchGuest pt s walker 1 addr
  let gent := readEntry pt s guestEnt
  if !isPresentPte gent then (s.writePte shadowEnt 0, walker, false)
  else
    let gfn := gfnOf (gent &&& pt64BaseAddrMask)
    let s := { s with kvm := markPageDirty s.kvm gfn }
    let s := s.writePte shadowEnt (s.readPte shadowEnt ||| ptWritableMask)
    (orEntry pt s guestEnt ptDirtyMask, walker, true)

def fixWritePf (s : Vcpu) (shadowEnt : PtePtr) (walker : GuestWalker) (addr : BitVec 64) (user : Bool) :
    Vcpu × GuestWalker × Bool :=
  let ent := s.readPte shadowEnt
  if isWriteblePte ent then (s, walker, false)
  else
    let writableShadow := ent &&& ptShadowWritableMask != 0
    if user then
      -- user mode access: fail if it's a kernel page or a read-only page
      if !(ent &&& ptShadowUserMask != 0) || !writableShadow then (s, walker, false)
      else fixWritePfDirty pt s shadowEnt walker addr
    else if !writableShadow then
      -- kernel mode access: fail if it's a read-only page and supervisor write protection is enabled
      if isWriteProtection s.vmcs then (s, walker, false)
      else fixWritePfDirty pt (s.writePte shadowEnt (ent &&& ~~~ptUserMask)) shadowEnt walker addr
    else fixWritePfDirty pt s shadowEnt walker addr

def pferrPresentMask : BitVec 32 := 1#32 <<< 0
def pferrWriteMask : BitVec 32 := 1#32 <<< 1
def pferrUserMask : BitVec 32 := 1#32 <<< 2

/-- Look up the shadow pte for the faulting address. -/
def fetchRetry (addr : BitVec 64) : Nat → Vcpu → Option (Vcpu × GuestWalker × Option PtePtr)
  | 0, _ => none
  | fuel + 1, s =>
    match fetch pt s addr (initWalker s) with
    | (s, _, .enomem) => fetchRetry addr fuel (nonpagingFlush s)
    | (s, walker, .null) => some (s, walker, none)
    | (s, walker, .pte shadowEnt) => some (s, walker, some shadowEnt)

/-- The part of `page_fault` after the lookup.  Returns `true` if the instruction is to be emulated. -/
def pageFaultFix (s : Vcpu) (walker : GuestWalker) (shadowPte : Option PtePtr) (addr : BitVec 64)
    (errorCode : BitVec 32) : Vcpu × Bool :=
  let writeFault := errorCode &&& pferrWriteMask != 0
  let ptePresent := errorCode &&& pferrPresentMask != 0
  let userFault := errorCode &&& pferrUserMask != 0
  match shadowPte with
  | none => (injectPageFault s addr errorCode, false)
  | some shadowPte =>
    let (s, fixed) :=
      if writeFault then
        let (s, _, fixed) := fixWritePf pt s shadowPte walker addr userFault
        (s, fixed)
      else fixReadPf s shadowPte
    if isIoPte (s.readPte shadowPte) then
      if mayAccess (s.readPte shadowPte) writeFault userFault then (s, true)
      else (injectPageFault s addr (errorCode ||| pferrPresentMask), false)
    else if ptePresent && !fixed then (injectPageFault s addr errorCode, false)
    else (s, false)

def pageFault (s : Vcpu) (addr : BitVec 64) (errorCode : BitVec 32) (fuel : Nat) : Option (Vcpu × Bool) :=
  match fetchRetry pt addr fuel s with
  | none => none
  | some (s, walker, shadowPte) => some (pageFaultFix pt s walker shadowPte addr errorCode)

def gvaToGpa (s : Vcpu) (vaddr : BitVec 64) : BitVec 64 :=
  let (walker, guestEnt) := fetchGuest pt s (initWalker s) 1 vaddr
  let guestPte := readEntry pt s guestEnt
  if !isPresentPte guestPte then unmappedGva
  else if walker.level = 2 then
    let gpa := (guestPte &&& pt.dirBaseAddrMask) ||| (vaddr &&& (pt.pageTableLevelMask ||| ~~~pageMask))
    if pt = .pt32 then gpa ||| (guestPte &&& pt32DirPse36Mask) <<< (32 - 13) else gpa
  else (guestPte &&& pt.baseAddrMask) ||| (vaddr &&& ~~~pageMask)

end LearnKvm
