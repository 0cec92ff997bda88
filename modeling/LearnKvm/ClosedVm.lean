import LearnKvm.CreateVcpu
import LearnKvm.Lib.AllocTrace
import LearnKvm.Machine
import Mathlib.Algebra.BigOperators.Group.Finset.Basic
import Mathlib.Tactic.Abel

/-!
# The memory of a closed machine (`kvm_dev_release`)

What a machine allocates and frees from `kvm_dev_open` to `kvm_dev_release`, as one trace.  The functions of the model
say what is allocated by keeping a ledger, from which a page that is not there can be taken twice; the `...Events` here
list the operations themselves, and `kvmDevIoctlCreateVcpu_live` and `runOps_ledger` say that the ledgers are what they
leave.

When the machine is closed, everything has been freed once, except the arrays of model-specific registers: nothing ever
frees them, so each KVM_CREATE_VCPU that gets both of them loses them (`closed_vm_freedOnce`).  A page that cannot be
allocated for a slot is the other failure, since a null pointer is freed in its place.
-/

namespace LearnKvm

open AllocTrace Relation

/-! ### What the functions allocate and free -/

def HeapOp.event : HeapOp → Event Resource
  | allocPage p => .alloc (.page p)
  | freePage p => .free (p.map .page)
  | vmalloc a => .alloc (.array a)
  | vfree a => .free (some (.array a))

/-- `__free_page` for every page of a list. -/
def freePagesEvents (pages : List Pfn) : List (Event Resource) := (pages.map Resource.page).map fun r => .free (some r)

def kvmFreeVmcsEvents (c : VcpuAlloc) : List (Event Resource) :=
  match c.vmcsPtr with
  | none => []
  | some p => [.free (some (.vmcs p))]

def kvmMmuDestroyEvents (s : Vcpu) : List (Event Resource) := freePagesEvents (destroyKvmMmu s).freePages

def kvmFreeVcpuEvents (c : VcpuAlloc) : List (Event Resource) :=
  kvmFreeVmcsEvents c ++ kvmMmuDestroyEvents (kvmFreeVmcs c).toVcpu

def kvmMmuInitEvents (alloc : Fin 256 → Option Pfn) (s : Vcpu) : List (Event Resource) :=
  let taken := mmuPagesTaken alloc (List.finRange 256)
  (taken.map Resource.page).map .alloc ++
    if (kvmMmuInit alloc s).2 then [] else freePagesEvents (taken.reverse ++ s.freePages)

def setupRestEvents (host : Host) (allocs : Allocs) (c : VcpuAlloc) : List (Event Resource) :=
  let c := vmxMsrIndex.foldl (setupMsr host) c
  match setupMode (c.toKvmVcpu.setVmcs (setupControls host c.nmsrs c.vmcs)) with
  | none => []
  | some s => kvmMmuInitEvents allocs.mmuPages s.toVcpu

def kvmVcpuSetupEvents (host : Host) (allocs : Allocs) (c : VcpuAlloc) : List (Event Resource) :=
  match initRmodeTss c.toVcpu with
  | none => []
  | some s =>
    let c := c.startSetup host s
    match allocs.guestMsrs with
    | none => []
    | some p =>
      match allocs.hostMsrs with
      | none => [.alloc (.array p), .free (some (.array p))]
      | some q =>
        .alloc (.array p) :: .alloc (.array q) :: setupRestEvents host allocs { c with
          guestMsrsPtr := some p
          guestMsrs := host.kmalloc
          hostMsrsPtr := some q
          hostMsrs := host.kmalloc
          live := .array q :: .array p :: c.live }

def kvmDevIoctlCreateVcpuEvents (host : Host) (allocs : Allocs) (c : VcpuAlloc) (n : Int) : List (Event Resource) :=
  if n < 0 ∨ (kvmMaxVcpus : Int) ≤ n then []
  else
    match c.vmcsPtr with
    | some _ => []
    | none =>
      match allocs.vmcs with
      | none => kvmFreeVcpuEvents c
      | some p =>
        let c := c.withVmcs host p
        .alloc (.vmcs p) :: (kvmVcpuSetupEvents host allocs c ++
          match kvmVcpuSetup host allocs c with
          | none => []
          | some (c, r) => if r < 0 then kvmFreeVcpuEvents c else [])

/-- A call that runs alone. -/
def kvmDevIoctlSetMemoryRegionEvents (kvm : Kvm) (mem : KvmMemoryRegion) (allocs : RegionAllocs) : List (Event Resource) :=
  ((kvmDevIoctlSetMemoryRegion kvm mem [⟨kvm, allocs, kvm⟩]).map fun result => result.ops.map HeapOp.event).getD []

/-- `kvm_free_physmem`. -/
def kvmFreePhysmemEvents (kvm : Kvm) : List (Event Resource) :=
  ((List.finRange 4).filter fun i => i.val < kvm.nmemslots).flatMap fun i =>
    let slot := kvm.memslots i
    (kvmFreePhysmemSlot (fun j => some (kvm.pageArray slot.physMem j)) slot none).map HeapOp.event

/-- `kvm_dev_release` of the machine at `kvmPtr`. -/
def kvmDevReleaseEvents (kvmPtr : Nat) (c : VcpuAlloc) : List (Event Resource) :=
  kvmFreeVcpuEvents c ++ kvmFreePhysmemEvents c.kvm ++ [.free (some (.array kvmPtr))]

/-! ### The ledgers -/

theorem ledger_freePages (live : List Resource) (pages : List Pfn) :
    ledger (live : Multiset Resource) (freePagesEvents pages) = (freePageList live pages : Multiset Resource) := by
  induction pages generalizing live with
  | nil => rfl
  | cons page pages ih =>
    show ledger ((live : Multiset Resource).erase (.page page)) (freePagesEvents pages) = _
    rw [Multiset.coe_erase]
    exact ih _

theorem kvmFreeVcpu_ledger (c : VcpuAlloc) :
    ledger (c.live : Multiset Resource) (kvmFreeVcpuEvents c) = ((kvmFreeVcpu c).live : Multiset Resource) := by
  have hvmcs : ledger (c.live : Multiset Resource) (kvmFreeVmcsEvents c) = ((kvmFreeVmcs c).live : Multiset Resource) := by
    unfold kvmFreeVmcsEvents kvmFreeVmcs
    cases c.vmcsPtr with
    | none => rfl
    | some p => exact Multiset.coe_erase _ _
  unfold kvmFreeVcpuEvents kvmMmuDestroyEvents
  rw [ledger_append, hvmcs, ledger_freePages]
  rfl

theorem setupRest_ledger {host : Host} {allocs : Allocs} {c c' : VcpuAlloc} {r : Int}
    (h : setupRest host allocs c = some (c', r)) :
    ledger (c.live : Multiset Resource) (setupRestEvents host allocs c) = (c'.live : Multiset Resource) := by
  have hmsrs := setupMsr_foldl host vmxMsrIndex c
  unfold setupRestEvents
  dsimp only
  rw [setupRest_eq] at h
  generalize vmxMsrIndex.foldl (setupMsr host) c = c1 at h hmsrs ⊢
  have hlive : c1.live = c.live ∧ c1.freePages = c.freePages := by rw [hmsrs.eq]; exact ⟨rfl, rfl⟩
  obtain ⟨t, ht, h⟩ := Option.map_eq_some_iff.1 h
  have htfree : t.freePages = c1.freePages := by rw [setupMode_toVcpu ht]; rfl
  rw [ht]
  unfold kvmMmuInitEvents
  dsimp only
  rw [ledger_append, ledger_allocs, Multiset.coe_add, ← hlive.1]
  rcases kvmMmuInit_cases allocs.mmuPages t.toVcpu with ⟨v, hinit, -, -⟩ | ⟨v, hinit, -, -, -⟩
  · rw [mmuInit_ok (c := { c1 with toKvmVcpu := t }) hinit] at h
    obtain ⟨rfl, rfl⟩ := Prod.mk.inj h
    rw [hinit, if_pos rfl]
    rfl
  · rw [mmuInit_fail (c := { c1 with toKvmVcpu := t }) hinit] at h
    obtain ⟨rfl, rfl⟩ := Prod.mk.inj h
    rw [hinit, if_neg Bool.false_ne_true]
    exact ledger_freePages _ _

theorem kvmVcpuSetup_ledger {host : Host} {allocs : Allocs} {c c' : VcpuAlloc} {r : Int}
    (h : kvmVcpuSetup host allocs c = some (c', r)) :
    ledger (c.live : Multiset Resource) (kvmVcpuSetupEvents host allocs c) = (c'.live : Multiset Resource) := by
  unfold kvmVcpuSetupEvents
  cases htss : initRmodeTss c.toVcpu with
  | none =>
    rw [kvmVcpuSetup_noTss htss] at h
    obtain ⟨rfl, rfl⟩ := Prod.mk.inj (Option.some.inj h)
    rfl
  | some s =>
    dsimp only
    cases hg : allocs.guestMsrs with
    | none =>
      rw [kvmVcpuSetup_noGuestMsrs htss hg] at h
      obtain ⟨rfl, rfl⟩ := Prod.mk.inj (Option.some.inj h)
      rfl
    | some p =>
      cases hh : allocs.hostMsrs with
      | none =>
        rw [kvmVcpuSetup_noHostMsrs htss hg hh] at h
        obtain ⟨rfl, rfl⟩ := Prod.mk.inj (Option.some.inj h)
        exact Multiset.coe_erase _ _
      | some q =>
        rw [kvmVcpuSetup_rest htss hg hh] at h
        exact setupRest_ledger h

/-- The ledger of the model is what the trace leaves. -/
theorem kvmDevIoctlCreateVcpu_live {host : Host} {allocs : Allocs} {c c' : VcpuAlloc} {n r : Int}
    (h : kvmDevIoctlCreateVcpu host allocs c n = some (c', r)) :
    (c'.live : Multiset Resource) = ledger (c.live : Multiset Resource) (kvmDevIoctlCreateVcpuEvents host allocs c n) := by
  unfold kvmDevIoctlCreateVcpuEvents
  by_cases hn : VcpuInRange n
  · rw [if_neg (inRange_iff.1 hn)]
    unfold kvmDevIoctlCreateVcpu at h
    rw [if_neg (inRange_iff.1 hn)] at h
    cases hptr : c.vmcsPtr with
    | some p =>
      rw [hptr] at h
      obtain ⟨rfl, rfl⟩ := Prod.mk.inj (Option.some.inj h)
      rfl
    | none =>
      cases hv : allocs.vmcs with
      | none =>
        rw [hptr, hv] at h
        obtain ⟨rfl, rfl⟩ := Prod.mk.inj (Option.some.inj h)
        exact (kvmFreeVcpu_ledger c).symm
      | some p =>
        have hcall := kvmDevIoctlCreateVcpu_setup host hn hptr hv
        unfold kvmDevIoctlCreateVcpu at hcall
        rw [if_neg (inRange_iff.1 hn)] at hcall
        rw [hcall] at h
        obtain ⟨⟨c1, r1⟩, hsetup, heq⟩ := Option.map_eq_some_iff.1 h
        have hledger : ledger (c.live : Multiset Resource)
            (.alloc (.vmcs p) :: kvmVcpuSetupEvents host allocs (c.withVmcs host p)) = (c1.live : Multiset Resource) :=
          kvmVcpuSetup_ledger hsetup
        dsimp only at heq ⊢
        rw [hsetup, ← List.cons_append, ledger_append, hledger]
        dsimp only
        by_cases hr : r1 < 0
        · rw [if_pos hr] at heq ⊢
          obtain ⟨rfl, rfl⟩ := Prod.mk.inj heq
          exact (kvmFreeVcpu_ledger c1).symm
        · rw [if_neg hr] at heq ⊢
          obtain ⟨rfl, rfl⟩ := Prod.mk.inj heq
          rfl
  · have hout := by_contra fun hno => hn (inRange_iff.2 hno)
    unfold kvmDevIoctlCreateVcpu at h
    rw [if_pos hout] at h
    obtain ⟨rfl, rfl⟩ := Prod.mk.inj (Option.some.inj h)
    rw [if_pos hout]
    rfl

theorem runOps_ledger (live : List Resource) (ops : List HeapOp) :
    (runOps live ops : Multiset Resource) = ledger (live : Multiset Resource) (ops.map HeapOp.event) := by
  induction ops generalizing live with
  | nil => rfl
  | cons op ops ih =>
    have hop : ((op.run live : List Resource) : Multiset Resource) = op.event.note (live : Multiset Resource) := by
      cases op with
      | freePage p =>
        cases p with
        | none => rfl
        | some p => exact (Multiset.coe_erase _ _).symm
      | vfree a => exact (Multiset.coe_erase _ _).symm
      | _ => rfl
    show ((runOps (op.run live) ops : List Resource) : Multiset Resource) = ledger (op.event.note live) (ops.map HeapOp.event)
    rw [ih, hop]

/-! ### The life of a machine -/

/-- What a machine does between its opening and its release. -/
inductive VmAction where
  | createVcpu (host : Host) (allocs : Allocs) (n : Int)
  | setMemoryRegion (mem : KvmMemoryRegion) (allocs : RegionAllocs)
  /-- A fault, INVLPG, a new CR3 or another context of the MMU. -/
  | mmu
  /-- Everything else. -/
  | other

def VmAction.events (c : VcpuAlloc) : VmAction → List (Event Resource)
  | createVcpu host allocs n => kvmDevIoctlCreateVcpuEvents host allocs c n
  | setMemoryRegion mem allocs => kvmDevIoctlSetMemoryRegionEvents c.kvm mem allocs
  | mmu => []
  | other => []

/-- After KVM_SET_MEMORY_REGION; the context of an existing vcpu is replaced after a commit. -/
def VcpuAlloc.afterRegion (c : VcpuAlloc) (result : RegionResult) : VcpuAlloc :=
  let c := { c with kvm := result.kvm }
  match result.outcome with
  | .committed .. => if c.vmcsPtr.isSome then { c with toVcpu := kvmMmuResetContext c.toVcpu } else c
  | _ => c

/-- One action.  Faults happen once `kvm_mmu_init` has succeeded. -/
inductive VmStep (c : VcpuAlloc) : VmAction → VcpuAlloc → Prop
  | createVcpu {host : Host} {allocs : Allocs} {n r : Int} {c' : VcpuAlloc}
      (h : kvmDevIoctlCreateVcpu host allocs c n = some (c', r)) : VmStep c (.createVcpu host allocs n) c'
  | setMemoryRegion {mem : KvmMemoryRegion} {allocs : RegionAllocs} {result : RegionResult}
      (h : kvmDevIoctlSetMemoryRegion c.kvm mem [⟨c.kvm, allocs, c.kvm⟩] = some result) :
      VmStep c (.setMemoryRegion mem allocs) (c.afterRegion result)
  | mmu {v : Vcpu} (hroot : c.mmu.rootHpa.isSome = true) (h : MmuStep c.toVcpu v) : VmStep c .mmu { c with toVcpu := v }
  | resetContext (h : c.vmcsPtr.isSome = true) : VmStep c .mmu { c with toVcpu := kvmMmuResetContext c.toVcpu }
  | other {c' : VcpuAlloc} (h : SameShadow c.toVcpu c'.toVcpu) (hptr : c'.vmcsPtr = c.vmcsPtr)
      (hkvm : c'.kvm = { c.kvm with bitmap := c'.kvm.bitmap, busy := c'.kvm.busy }) : VmStep c .other c'

/-- The allocators return memory that is not in use. -/
def VmAction.Fresh (live : List Resource) : VmAction → Prop
  | createVcpu _ allocs _ => (∀ i p, allocs.mmuPages i = some p → Resource.page p ∉ live) ∧
      ∀ i j p, allocs.mmuPages i = some p → allocs.mmuPages j = some p → i = j
  | setMemoryRegion _ allocs => allocs.Fresh live
  | _ => True

/-- The machine at `kvmPtr` has been opened and has taken some actions, each in the state that stands with it; the
trace is what it has allocated and freed. -/
inductive VmRun (kvmPtr : Nat) : VcpuAlloc → List (Event Resource) → List (VcpuAlloc × VmAction) → Prop
  | opened (c : VcpuAlloc) (hkvm : c.kvm = default) (hptr : c.vmcsPtr = none) (hroot : c.mmu.rootHpa = none)
      (hfree : c.freePages = []) (hfailed : c.failed = []) : VmRun kvmPtr c [.alloc (.array kvmPtr)] []
  | step {c c' : VcpuAlloc} {es : List (Event Resource)} {history : List (VcpuAlloc × VmAction)} {a : VmAction}
      (h : VmRun kvmPtr c es history) (hstep : VmStep c a c')
      (hfresh : ∀ live : List Resource, run 0 es = some ↑live → a.Fresh live) :
      VmRun kvmPtr c' (es ++ a.events c) ((c, a) :: history)

/-- Nothing is left and nothing is freed twice when the machine is closed now. -/
def ClosesClean (kvmPtr : Nat) (c : VcpuAlloc) (es : List (Event Resource)) : Prop :=
  FreedOnce (es ++ kvmDevReleaseEvents kvmPtr c)

/-- A call that creates a vcpu gets both arrays of model-specific registers. -/
def GetsMsrArrays (allocs : Allocs) (c : VcpuAlloc) (n : Int) : Prop :=
  VcpuInRange n ∧ c.vmcsPtr = none ∧ allocs.vmcs.isSome = true ∧ (initRmodeTss c.toVcpu).isSome = true ∧
    allocs.guestMsrs.isSome = true ∧ allocs.hostMsrs.isSome = true

/-- The condition on an action: no vcpu gets its arrays, and no page of a slot cannot be allocated. -/
def VmAction.Frees (c : VcpuAlloc) : VmAction → Prop
  | createVcpu _ allocs n => ¬GetsMsrArrays allocs c n
  | setMemoryRegion mem allocs => ∀ slot ∈ mem.sanityChecks, ¬PageAllocFails mem slot ⟨c.kvm, allocs, c.kvm⟩
  | _ => True

variable {kvmPtr : Nat} {host : Host} {allocs : Allocs} {region : RegionAllocs} {mem : KvmMemoryRegion} {kvm kvm' : Kvm}
  {c c' : VcpuAlloc} {n r : Int} {pool : List Pfn} {live : Multiset Resource} {es : List (Event Resource)}
  {history : List (VcpuAlloc × VmAction)} {a : VmAction}

/-! ### The operations on slots -/

theorem map_event_of_freed {ops : List HeapOp} (h : freed ops = []) :
    ops.map HeapOp.event = (allocated ops).map .alloc := by
  induction ops with
  | nil => rfl
  | cons op ops ih =>
    cases op with
    | allocPage p => exact congrArg (_ :: ·) (ih h)
    | vmalloc a => exact congrArg (_ :: ·) (ih h)
    | freePage p => cases h
    | vfree a => cases h

theorem map_event_of_allocated {ops : List HeapOp} (h : allocated ops = []) :
    ops.map HeapOp.event = (freed ops).map .free := by
  induction ops with
  | nil => rfl
  | cons op ops ih =>
    cases op with
    | allocPage p => cases h
    | vmalloc a => cases h
    | freePage p => exact congrArg (_ :: ·) (ih h)
    | vfree a => exact congrArg (_ :: ·) (ih h)

/-- A pass allocates first and frees then. -/
theorem Attempt.run_event (mem : KvmMemoryRegion) (slot : Fin 4) (a : Attempt) :
    (a.run mem slot).ops.map HeapOp.event =
      (allocated (a.run mem slot).ops).map .alloc ++ (freed (a.run mem slot).ops).map .free := by
  have hspec := allocRegion_spec a.allocs mem (a.kvm.memslots slot)
  have happend : ∀ (entries : Nat → Option Pfn) (s o : KvmMemorySlot) (x : Allocated), freed x.ops = [] →
      (x.ops ++ kvmFreePhysmemSlot entries s (some o)).map HeapOp.event =
        (allocated (x.ops ++ kvmFreePhysmemSlot entries s (some o))).map .alloc ++
          (freed (x.ops ++ kvmFreePhysmemSlot entries s (some o))).map .free := by
    intro entries s o x hx
    have hfree := allocated_free entries s (some o)
    rw [List.map_append, map_event_of_freed hx, map_event_of_allocated hfree, allocated_append, freed_append, hfree, hx,
      List.append_nil, List.nil_append]
  rcases Attempt.run_cases mem slot a with ⟨r, -, heq⟩ | ⟨-, x, hx, ⟨outcome, -, heq⟩ | ⟨-, heq⟩⟩
  · rw [heq]
    dsimp only
    rw [map_event_of_allocated (allocated_free _ _ _), allocated_free]
    rfl
  · rw [heq]
    exact happend _ _ _ _ (hx ▸ hspec.freed)
  · rw [heq]
    exact happend _ _ _ _ (hx ▸ hspec.freed)

/-- What a slot shares with another one. -/
def sharedMemory (pages : List Pfn) (s other : KvmMemorySlot) : List Resource :=
  (if s.physMem = other.physMem ∧ s.physMem ≠ 0 then pages.map .page ++ [.array s.physMem] else []) ++
  (if s.dirtyBitmap = other.dirtyBitmap ∧ s.dirtyBitmap ≠ 0 then [.array s.dirtyBitmap] else [])

theorem slotMemory_eq (kvm : Kvm) (s other : KvmMemorySlot) : (slotMemory kvm s : Multiset Resource) =
    (sharedMemory (slotPages kvm s) s other : Multiset Resource) + (ownedOnly (slotPages kvm s) s other : Multiset Resource) := by
  have hsplit : ∀ (x y : Nat) (l : List Resource), ((if x ≠ 0 ∧ x ≠ 0 then l else [] : List Resource) : Multiset Resource) =
      ((if x = y ∧ x ≠ 0 then l else [] : List Resource) : Multiset Resource) +
        ((if x ≠ y ∧ x ≠ 0 then l else [] : List Resource) : Multiset Resource) := by
    intro x y l
    by_cases h0 : x = 0
    · simp [h0]
    · by_cases hxy : x = y <;> simp [h0, hxy]
  unfold slotMemory ownedOnly sharedMemory NewArray NewBitmap
  simp only [← Multiset.coe_add]
  show ((if s.physMem ≠ 0 ∧ s.physMem ≠ 0 then _ else [] : List Resource) : Multiset Resource) +
    ((if s.dirtyBitmap ≠ 0 ∧ s.dirtyBitmap ≠ 0 then _ else [] : List Resource) : Multiset Resource) = _
  rw [hsplit s.physMem other.physMem, hsplit s.dirtyBitmap other.dirtyBitmap]
  exact add_add_add_comm _ _ _ _

/-- The memory of the slots. -/
def slotsMemory (kvm : Kvm) : Multiset Resource := ∑ i, (slotMemory kvm (kvm.memslots i) : Multiset Resource)

structure SlotsInv (kvm : Kvm) : Prop where
  shape : ∀ i, SlotShape (kvm.memslots i)
  /-- The slots that `kvm_free_physmem` does not look at have no memory. -/
  beyond : ∀ i : Fin 4, kvm.nmemslots ≤ i.val → slotMemory kvm (kvm.memslots i) = []

theorem slotsMemory_eq (kvm : Kvm) (slot : Fin 4) : slotsMemory kvm =
    (slotMemory kvm (kvm.memslots slot) : Multiset Resource) +
      ∑ i ∈ Finset.univ.erase slot, (slotMemory kvm (kvm.memslots i) : Multiset Resource) :=
  (Finset.add_sum_erase _ _ (Finset.mem_univ slot)).symm

theorem mem_slotsMemory {res : Resource} : res ∈ slotsMemory kvm ↔ ∃ i, res ∈ slotMemory kvm (kvm.memslots i) := by
  unfold slotsMemory
  simp [Multiset.mem_sum]

/-- The slots keep their memory as long as their arrays are the same. -/
theorem slotMemory_congr {m : KvmMemorySlot} (h : ∀ res ∈ slotMemory kvm m, ∀ a, res = .array a →
    kvm'.pageArray a = kvm.pageArray a) : slotMemory kvm' m = slotMemory kvm m :=
  ownedOnly_congr (fun _ hr => hr) fun a ha => h _ ha a rfl

/-- A commit of the allocations of the call. -/
theorem SlotsInv.commit (h : SlotsInv kvm) {slot : Fin 4} {x : Allocated} {live : List Resource}
    (hlive : ∀ res ∈ slotsMemory kvm, res ∈ live) (hfresh : region.Fresh live) (hok : x.ok = true)
    (hx : x = allocRegion region (newSlot mem (kvm.memslots slot))) (hcheck : checkRegion kvm mem slot = none) :
    let kvm' := commitRegion (x.store (kvm.memslots slot) kvm) slot x.slot
    SlotsInv kvm' ∧ slotsMemory kvm' + (ownedOnly (slotPages kvm (kvm.memslots slot)) (kvm.memslots slot) x.slot : Multiset Resource) =
      slotsMemory kvm + (ownedOnly x.pages x.slot (kvm.memslots slot) : Multiset Resource) := by
  intro kvm'
  have hmem := allocRegion_memory region mem (kvm.memslots slot)
  rw [← hx] at hmem
  have hslot : ∀ i, ∀ res ∈ slotMemory kvm (kvm.memslots i), res ∈ live := fun i res hr =>
    hlive res (mem_slotsMemory.2 ⟨i, hr⟩)
  have harrays : ∀ a, .array a ∈ live → kvm'.pageArray a = kvm.pageArray a := fun a ha =>
    hmem.pageArray_store hfresh kvm ha
  have hcommit : Commitable kvm' (kvm.memslots slot) x := by
    have hstore : LearnKvm.Commitable (x.store (kvm.memslots slot) kvm) (kvm.memslots slot) x :=
      commitable hok hx (hmem.newMemory hfresh kvm) rfl (h.shape slot) hcheck
    exact ⟨⟨hstore.memory.pages, hstore.memory.bitmap⟩, hstore.full, hstore.kept, hstore.array⟩
  have hkeep : ∀ i, slotMemory kvm' (kvm.memslots i) = slotMemory kvm (kvm.memslots i) := fun i =>
    slotMemory_congr fun res hr a ha => harrays a (ha ▸ hslot i res hr)
  have hself : kvm'.memslots slot = x.slot := Function.update_self ..
  have hother : ∀ i, i ≠ slot → kvm'.memslots i = kvm.memslots i := fun i hi => Function.update_of_ne hi ..
  refine ⟨⟨fun i => ?_, fun i hi => ?_⟩, ?_⟩
  · by_cases hi : i = slot
    · subst hi
      rw [hself]
      refine hcommit.shape (h.shape i) fun res hr hnew => ?_
      rw [hkeep] at hr
      exact hmem.not_live hfresh res hnew (hslot i res hr)
    · rw [hother i hi]
      exact h.shape i
  · have hle : kvm.nmemslots ≤ i.val ∧ i ≠ slot := by
      have hn : kvm'.nmemslots = if kvm.nmemslots ≤ slot.val then slot.val + 1 else kvm.nmemslots := rfl
      rw [hn] at hi
      constructor
      · split at hi <;> omega
      · rintro rfl
        split at hi <;> omega
    rw [hother i hle.2, hkeep]
    exact h.beyond i hle.1
  · have hrest : ∑ i ∈ Finset.univ.erase slot, (slotMemory kvm' (kvm'.memslots i) : Multiset Resource) =
        ∑ i ∈ Finset.univ.erase slot, (slotMemory kvm (kvm.memslots i) : Multiset Resource) := by
      refine Finset.sum_congr rfl fun i hi => ?_
      rw [hother i (Finset.ne_of_mem_erase hi), hkeep]
    -- what both slots have is the same
    have hshared : sharedMemory (slotPages kvm' x.slot) x.slot (kvm.memslots slot) =
        sharedMemory (slotPages kvm (kvm.memslots slot)) (kvm.memslots slot) x.slot := by
      unfold sharedMemory
      congr 1
      · by_cases hp : x.slot.physMem = (kvm.memslots slot).physMem ∧ x.slot.physMem ≠ 0
        · have hpages : slotPages kvm' x.slot = slotPages kvm (kvm.memslots slot) := by
            unfold slotPages
            rw [hcommit.kept hp.1 hp.2, hp.1, harrays]
            exact hslot slot _ (mem_slotMemory.2 (Or.inl ⟨hp.1 ▸ hp.2, Or.inl rfl⟩))
          rw [if_pos hp, if_pos ⟨hp.1.symm, hp.1 ▸ hp.2⟩, hpages, hp.1]
        · rw [if_neg hp, if_neg fun ⟨heq, hne⟩ => hp ⟨heq.symm, heq ▸ hne⟩]
      · by_cases hb : x.slot.dirtyBitmap = (kvm.memslots slot).dirtyBitmap ∧ x.slot.dirtyBitmap ≠ 0
        · rw [if_pos hb, if_pos ⟨hb.1.symm, hb.1 ▸ hb.2⟩, hb.1]
        · rw [if_neg hb, if_neg fun ⟨heq, hne⟩ => hb ⟨heq.symm, heq ▸ hne⟩]
    have hnew : ownedOnly (slotPages kvm' x.slot) x.slot (kvm.memslots slot) =
        ownedOnly x.pages x.slot (kvm.memslots slot) := by
      unfold ownedOnly
      split
      · rename_i hnew
        rw [hcommit.slotPages hnew]
      · rfl
    rw [slotsMemory_eq kvm' slot, slotsMemory_eq kvm slot, hrest, hself, slotMemory_eq kvm' x.slot (kvm.memslots slot),
      slotMemory_eq kvm (kvm.memslots slot) x.slot, hshared, hnew]
    abel

/-- A call that runs alone makes one pass. -/
theorem setMemoryRegion_alone {result : RegionResult}
    (h : kvmDevIoctlSetMemoryRegion kvm mem [⟨kvm, region, kvm⟩] = some result) :
    (mem.sanityChecks = none ∧ result = ⟨[], .failed (-einval), kvm⟩) ∨
      ∃ slot, mem.sanityChecks = some slot ∧ result = Attempt.run mem slot ⟨kvm, region, kvm⟩ := by
  unfold kvmDevIoctlSetMemoryRegion at h
  cases hslot : mem.sanityChecks with
  | none =>
    rw [hslot] at h
    exact Or.inl ⟨rfl, (Option.some.inj h).symm⟩
  | some slot =>
    rw [hslot] at h
    refine Or.inr ⟨slot, rfl, ?_⟩
    unfold setMemoryRegion at h
    dsimp only at h
    split at h
    · cases h
    · exact (Option.some.inj h).symm

/-- The call turns the memory of the slots into that of the new slots, when no page is missing. -/
theorem SlotsInv.setMemoryRegion (h : SlotsInv kvm) {live : List Resource} (hlive : ∀ res ∈ slotsMemory kvm, res ∈ live)
    (hfresh : region.Fresh live) {result : RegionResult}
    (hcall : kvmDevIoctlSetMemoryRegion kvm mem [⟨kvm, region, kvm⟩] = some result)
    (hpages : ∀ slot ∈ mem.sanityChecks, ¬PageAllocFails mem slot ⟨kvm, region, kvm⟩) :
    SlotsInv result.kvm ∧ result.kvm.activeMmuPages = kvm.activeMmuPages ∧
      run (slotsMemory kvm) (result.ops.map HeapOp.event) = some (slotsMemory result.kvm) := by
  rcases setMemoryRegion_alone hcall with ⟨-, rfl⟩ | ⟨slot, hslot, rfl⟩
  · exact ⟨h, rfl, rfl⟩
  · obtain ⟨hacc, -⟩ := Attempt.run_accounted mem slot ⟨kvm, region, kvm⟩
    have hacc := hacc.2 (hpages slot hslot)
    have hrun := Attempt.run_event mem slot ⟨kvm, region, kvm⟩
    rw [hrun, run_allocs_frees_iff]
    rcases Attempt.run_cases mem slot ⟨kvm, region, kvm⟩ with ⟨r, -, heq⟩ | ⟨hcheck, x, hx, ⟨outcome, hout, heq⟩ | ⟨hok, heq⟩⟩
    · rw [heq] at hacc ⊢
      refine ⟨h, rfl, ?_⟩
      rw [Multiset.map_coe, Multiset.coe_eq_coe.2 (show List.Perm _ _ from hacc)]
    · rw [heq] at hacc ⊢
      have hperm : (freed (x.ops ++ kvmFreePhysmemSlot (fun i => x.pages[i]?) x.slot (some (kvm.memslots slot)))).Perm
          ((allocated (x.ops ++ kvmFreePhysmemSlot (fun i => x.pages[i]?) x.slot (some (kvm.memslots slot)))).map some) := by
        rcases hout with ⟨rfl, -⟩ | ⟨r, rfl⟩ <;> exact hacc
      refine ⟨h, rfl, ?_⟩
      rw [Multiset.map_coe, Multiset.coe_eq_coe.2 hperm]
    · obtain ⟨hslots, hmemory⟩ := h.commit hlive hfresh hok hx hcheck
      rw [heq] at hacc ⊢
      refine ⟨hslots, rfl, ?_⟩
      have hacc := Multiset.coe_eq_coe.2 (show List.Perm _ _ from hacc)
      have hmemory := congrArg (Multiset.map some) hmemory
      rw [← Multiset.coe_add, ← Multiset.coe_add] at hacc
      rw [Multiset.map_add, Multiset.map_add, Multiset.map_coe, Multiset.map_coe] at hmemory
      rw [Multiset.map_coe]
      dsimp only at hacc hmemory ⊢
      refine add_right_cancel (b := (((ownedOnly x.pages x.slot (kvm.memslots slot)).map some : List (Option Resource)) :
        Multiset (Option Resource)) + (((ownedOnly (slotPages kvm (kvm.memslots slot)) (kvm.memslots slot)
          x.slot).map some : List (Option Resource)) : Multiset (Option Resource))) ?_
      rw [add_add_add_comm, hacc, hmemory]
      abel

/-- A page that is missing is freed as a null pointer. -/
theorem setMemoryRegion_freesNull {result : RegionResult} {slot : Fin 4}
    (hcall : kvmDevIoctlSetMemoryRegion kvm mem [⟨kvm, region, kvm⟩] = some result) (hslot : mem.sanityChecks = some slot)
    (hfail : PageAllocFails mem slot ⟨kvm, region, kvm⟩) : Event.free none ∈ result.ops.map HeapOp.event := by
  rcases setMemoryRegion_alone hcall with ⟨hno, -⟩ | ⟨slot', hslot', rfl⟩
  · rw [hslot] at hno
    cases hno
  · obtain rfl : slot = slot' := Option.some.inj (hslot.symm.trans hslot')
    rw [Attempt.run_event]
    refine List.mem_append_right _ (List.mem_map_of_mem ?_)
    rcases Attempt.run_cases mem slot ⟨kvm, region, kvm⟩ with ⟨r, hno, -⟩ | ⟨hcheck, x, hx, ⟨outcome, -, heq⟩ | ⟨hok, -⟩⟩
    · have := hfail.1
      rw [hno] at this
      cases this
    · rw [heq]
      exact none_mem_cleanup hcheck hx hfail
    · exact absurd hfail ((accounted_of_committed hx hok rfl).2 hcheck)

/-- `kvm_free_physmem` frees the memory of the slots. -/
theorem SlotsInv.freePhysmem (h : SlotsInv kvm) : run (slotsMemory kvm) (kvmFreePhysmemEvents kvm) = some 0 := by
  have hslot : ∀ i, (kvmFreePhysmemSlot (fun j => some (kvm.pageArray (kvm.memslots i).physMem j)) (kvm.memslots i) none).map
      HeapOp.event = (slotMemory kvm (kvm.memslots i)).map fun res => .free (some res) := by
    intro i
    have hnone : kvmFreePhysmemSlot (fun j => some (kvm.pageArray (kvm.memslots i).physMem j)) (kvm.memslots i) none =
        kvmFreePhysmemSlot (fun j => some (kvm.pageArray (kvm.memslots i).physMem j)) (kvm.memslots i) (some noMemory) := by
      have hcond : ∀ f : KvmMemorySlot → Nat, f noMemory = 0 → (((∀ s ∈ (none : Option KvmMemorySlot), f (kvm.memslots i) ≠ f s) ∧
          f (kvm.memslots i) ≠ 0) ↔ ((∀ s ∈ some noMemory, f (kvm.memslots i) ≠ f s) ∧ f (kvm.memslots i) ≠ 0)) := by
        intro f hf
        simp [hf]
      unfold kvmFreePhysmemSlot
      congr 1
      · exact if_congr (hcond KvmMemorySlot.physMem rfl) rfl rfl
      · exact if_congr (hcond KvmMemorySlot.dirtyBitmap rfl) rfl rfl
    rw [hnone, map_event_of_allocated (allocated_free _ _ _), freed_free_of_full (slotPages kvm (kvm.memslots i)), List.map_map]
    · rfl
    · intro _
      exact List.map_map.symm
  have hevents : kvmFreePhysmemEvents kvm =
      (((List.finRange 4).filter fun i => i.val < kvm.nmemslots).flatMap fun i => slotMemory kvm (kvm.memslots i)).map
        fun res => .free (some res) := by
    unfold kvmFreePhysmemEvents
    rw [List.map_flatMap]
    exact List.flatMap_congr fun i _ => hslot i
  -- the slots that are left out have no memory
  have hmemory : slotsMemory kvm = ((((List.finRange 4).filter fun i => i.val < kvm.nmemslots).flatMap fun i =>
      slotMemory kvm (kvm.memslots i) : List Resource) : Multiset Resource) := by
    have hfilter : ∀ l : List (Fin 4), (l.filter fun i => i.val < kvm.nmemslots).flatMap (fun i => slotMemory kvm (kvm.memslots i)) =
        l.flatMap fun i => slotMemory kvm (kvm.memslots i) := by
      intro l
      induction l with
      | nil => rfl
      | cons i l ih =>
        by_cases hi : i.val < kvm.nmemslots
        · rw [List.filter_cons_of_pos (by simpa using hi), List.flatMap_cons, List.flatMap_cons, ih]
        · rw [List.filter_cons_of_neg (by simpa using hi), List.flatMap_cons, ih, h.beyond i (by omega), List.nil_append]
    rw [hfilter]
    rfl
  rw [hevents, hmemory]
  exact run_frees_all _

/-! ### The vcpu -/

/-- The VMCS and the shadow pages. -/
def vcpuMemory (c : VcpuAlloc) : Multiset Resource :=
  ((c.vmcsPtr.toList.map Resource.vmcs : List Resource) : Multiset Resource) +
    (((c.freePages ++ c.kvm.activeMmuPages).map Resource.page : List Resource) : Multiset Resource)

/-- The vcpu has the shadow pages `pool`; without a context of the MMU it has none. -/
structure VcpuInv (pool : List Pfn) (c : VcpuAlloc) : Prop where
  pages : (c.freePages ++ c.kvm.activeMmuPages).Perm pool
  mmu : c.mmu.rootHpa = none ∧ pool = [] ∨ ∃ lvl r, MmuInv pool lvl r c.toVcpu
  idle : c.vmcsPtr = none → c.mmu.rootHpa = none ∧ c.failed = []

theorem MmuInv.pool_ne {lvl : Pfn → Nat} {root : Pfn} {v : Vcpu} (h : MmuInv pool lvl root v) : pool ≠ [] := by
  rintro rfl
  have hmem : root ∈ v.kvm.activeMmuPages := h.tables.forest.root_live root (Set.mem_singleton root)
  have hnil := List.append_eq_nil_iff.1 h.tables.perm.eq_nil
  rw [hnil.2] at hmem
  cases hmem

namespace VcpuInv

theorem root_none (h : VcpuInv [] c) : c.mmu.rootHpa = none ∧ c.freePages = [] ∧ c.kvm.activeMmuPages = [] := by
  refine ⟨?_, List.append_eq_nil_iff.1 h.pages.eq_nil⟩
  rcases h.mmu with ⟨hroot, -⟩ | ⟨lvl, root, hinv⟩
  · exact hroot
  · exact absurd rfl hinv.pool_ne

theorem of_root_none (hroot : c.mmu.rootHpa = none) (hfree : c.freePages = []) (hact : c.kvm.activeMmuPages = [])
    (hfailed : c.vmcsPtr = none → c.failed = []) : VcpuInv [] c :=
  ⟨by rw [hfree, hact]; exact .refl _, Or.inl ⟨hroot, rfl⟩, fun h => ⟨hroot, hfailed h⟩⟩

theorem memory (h : VcpuInv pool c) : vcpuMemory c =
    ((c.vmcsPtr.toList.map Resource.vmcs : List Resource) : Multiset Resource) +
      ((pool.map Resource.page : List Resource) : Multiset Resource) := by
  unfold vcpuMemory
  rw [Multiset.coe_eq_coe.2 (h.pages.map Resource.page)]

/-- `destroy_kvm_mmu` puts all shadow pages on the free list. -/
theorem destroy (h : VcpuInv pool c) : (destroyKvmMmu c.toVcpu).freePages.Perm pool := by
  rcases h.mmu with ⟨hroot, rfl⟩ | ⟨lvl, root, hinv⟩
  · have hkeep : destroyKvmMmu c.toVcpu = c.toVcpu := by
      unfold destroyKvmMmu
      rw [hroot]
    rw [hkeep, h.root_none.2.1]
  · obtain ⟨htables, -⟩ := destroyKvmMmu_spec hinv
    have hperm := htables.perm
    rwa [htables.active_of_no_root, List.append_nil] at hperm

/-- `kvm_free_vcpu` frees all that the vcpu has. -/
theorem freeVcpu_run (h : VcpuInv pool c) : run (vcpuMemory c) (kvmFreeVcpuEvents c) = some 0 := by
  have hvcpu : (kvmFreeVmcs c).toVcpu = c.toVcpu := by
    unfold kvmFreeVmcs
    split <;> rfl
  have hvmcs : run (vcpuMemory c) (kvmFreeVmcsEvents c) =
      some ((pool.map Resource.page : List Resource) : Multiset Resource) := by
    rw [h.memory]
    unfold kvmFreeVmcsEvents
    cases c.vmcsPtr with
    | none => rfl
    | some p =>
      show run (_ ::ₘ (0 : Multiset Resource) + _) _ = _
      rw [Multiset.cons_add, run_free, zero_add]
      rfl
  unfold kvmFreeVcpuEvents kvmMmuDestroyEvents freePagesEvents
  rw [run_append_of_eq hvmcs, hvcpu, ← Multiset.coe_eq_coe.2 (h.destroy.map Resource.page)]
  exact run_frees_all ((destroyKvmMmu c.toVcpu).freePages.map Resource.page)

/-- A vcpu without shadow pages stays one without its VMCS. -/
theorem freeVcpu (h : VcpuInv [] c) (hfailed : c.failed = []) :
    VcpuInv [] (kvmFreeVcpu c) ∧ vcpuMemory (kvmFreeVcpu c) = 0 ∧ (kvmFreeVcpu c).kvm = c.kvm := by
  obtain ⟨hroot, hfree, hact⟩ := h.root_none
  have hvcpu : (kvmFreeVmcs c).toVcpu = c.toVcpu := by
    unfold kvmFreeVmcs
    split <;> rfl
  have hkeep : destroyKvmMmu (kvmFreeVmcs c).toVcpu = c.toVcpu := by
    rw [hvcpu]
    unfold destroyKvmMmu
    rw [hroot]
  have hstate : (kvmFreeVcpu c).toVcpu = { c.toVcpu with freePages := [] } := by
    show { destroyKvmMmu (kvmFreeVmcs c).toVcpu with freePages := [] } = _
    rw [hkeep]
  obtain ⟨hptr, hroot', hfree'⟩ := kvmFreeVcpu_idle c
  have hkvm : (kvmFreeVcpu c).kvm = c.kvm := by rw [hstate]
  have hact' : (kvmFreeVcpu c).kvm.activeMmuPages = [] := by rw [hkvm, hact]
  refine ⟨of_root_none hroot' hfree' hact' fun _ => by rw [hstate]; exact hfailed, ?_, hkvm⟩
  unfold vcpuMemory
  rw [hptr, hfree', hact']
  rfl

/-- A call into the MMU. -/
theorem mmuCall (h : VcpuInv pool c) (hroot : c.mmu.rootHpa.isSome = true) {v : Vcpu} (hv : MmuCall c.toVcpu v) :
    VcpuInv pool { c with toVcpu := v } := by
  rcases h.mmu with ⟨hno, -⟩ | ⟨lvl, root, hinv⟩
  · rw [hno] at hroot
    cases hroot
  · obtain ⟨lvl', root', hinv'⟩ := MmuCall.inv hinv hinv.pool_ne hv
    refine ⟨hinv'.tables.perm, Or.inr ⟨lvl', root', hinv'⟩, fun hptr => ?_⟩
    rw [(h.idle hptr).1] at hroot
    cases hroot

/-- A new context of the MMU; without shadow pages it gets no root. -/
theorem resetContext (h : VcpuInv pool c) (hptr : c.vmcsPtr.isSome = true) :
    VcpuInv pool { c with toVcpu := kvmMmuResetContext c.toVcpu } ∧
      KvmGrows c.kvm (kvmMmuResetContext c.toVcpu).kvm := by
  rcases h.mmu with ⟨hroot, rfl⟩ | ⟨lvl, root, hinv⟩
  · obtain ⟨-, hfree, hact⟩ := h.root_none
    have hkeep : destroyKvmMmu c.toVcpu = c.toVcpu := by
      unfold destroyKvmMmu
      rw [hroot]
    have halloc : kvmMmuAllocPage c.toVcpu none = (c.toVcpu, none) := by
      unfold kvmMmuAllocPage
      rw [hfree]
    have hreset : kvmMmuResetContext c.toVcpu = { c.toVcpu with
        mmu := contextFor c.vmcs none
        vmcs := (kvmMmuResetContext c.toVcpu).vmcs } := by
      unfold kvmMmuResetContext
      rw [hkeep, initKvmMmu_eq halloc]
    have hkvm : (kvmMmuResetContext c.toVcpu).kvm = c.kvm := by rw [hreset]
    refine ⟨of_root_none ?_ ?_ ?_ fun hno => ?_, hkvm ▸ .refl _⟩
    · show (kvmMmuResetContext c.toVcpu).mmu.rootHpa = none
      rw [hreset, rootHpa_contextFor]
    · show (kvmMmuResetContext c.toVcpu).freePages = []
      rw [hreset, hfree]
    · show (kvmMmuResetContext c.toVcpu).kvm.activeMmuPages = []
      rw [hkvm, hact]
    · have hno : c.vmcsPtr = none := hno
      rw [hno] at hptr
      cases hptr
  · refine ⟨h.mmuCall (by rw [hinv.root]; rfl) (.resetContext _), ?_⟩
    exact MmuStep.kvmGrows hinv hinv.pool_ne (.resetContext _)

/-- Other parts of the machine change. -/
theorem congr (h : VcpuInv pool c) (hs : SameShadow c.toVcpu c'.toVcpu) (hptr : c'.vmcsPtr = c.vmcsPtr) :
    VcpuInv pool c' := by
  refine ⟨by rw [hs.freePages, hs.active]; exact h.pages, ?_, fun hno => ?_⟩
  · rw [hs.mmu]
    refine h.mmu.imp_right ?_
    rintro ⟨lvl, root, hinv⟩
    exact MmuCall.inv hinv hinv.pool_ne (.other hs)
  · rw [hs.mmu, hs.failed]
    exact h.idle (hptr ▸ hno)

end VcpuInv

theorem vcpuMemory_congr (h : VcpuInv pool c) (h' : VcpuInv pool c') (hptr : c'.vmcsPtr = c.vmcsPtr) :
    vcpuMemory c' = vcpuMemory c := by
  rw [h.memory, h'.memory, hptr]

/-! ### The creation of a vcpu -/

theorem mmuPagesTaken_of_all {alloc : Fin 256 → Option Pfn} {l : List (Fin 256)} (h : ∀ i ∈ l, (alloc i).isSome = true) :
    mmuPagesTaken alloc l = l.filterMap alloc := by
  induction l with
  | nil => rfl
  | cons i l ih =>
    obtain ⟨page, hi⟩ := Option.isSome_iff_exists.1 (h i List.mem_cons_self)
    rw [List.filterMap_cons_some hi]
    unfold mmuPagesTaken
    rw [hi]
    exact congrArg (page :: ·) (ih fun j hj => h j (List.mem_cons_of_mem _ hj))

/-- `kvm_mmu_init` allocates the shadow pages, or frees again what it has allocated. -/
theorem kvmMmuInit_run {alloc : Fin 256 → Option Pfn} {v : Vcpu} (hfree : v.freePages = []) (live : Multiset Resource) :
    run live (kvmMmuInitEvents alloc v) = some (if (kvmMmuInit alloc v).2 then
      (((mmuPool alloc).map Resource.page : List Resource) : Multiset Resource) + live else live) := by
  unfold kvmMmuInitEvents
  dsimp only
  rw [run_allocs]
  rcases kvmMmuInit_cases alloc v with ⟨v', hinit, hall, -⟩ | ⟨v', hinit, -, -, -⟩
  · rw [hinit, if_pos rfl, if_pos rfl, run_nil, mmuPagesTaken_of_all fun i _ => hall i]
    unfold mmuPool
    rw [List.map_reverse, Multiset.coe_reverse]
  · rw [hinit, hfree, List.append_nil]
    unfold freePagesEvents
    rw [List.map_reverse, ← Multiset.coe_reverse]
    exact run_frees _

/-- What `kvm_vcpu_setup` and its parts do with a vcpu that has no shadow pages: it gets them, or the part fails and it
has none. -/
structure SetsUp (c c' : VcpuAlloc) (r : Int) (pool : List Pfn) : Prop where
  inv : VcpuInv pool c'
  vmcsPtr : c'.vmcsPtr = c.vmcsPtr
  kvm : KvmGrows c.kvm c'.kvm
  failed : r < 0 → pool = [] ∧ c'.failed = []

theorem setupRest_run (h : setupRest host allocs c = some (c', r)) (hc : VcpuInv [] c) (hfailed : c.failed = [])
    (hptr : c.vmcsPtr.isSome = true)
    (hdistinct : ∀ i j p, allocs.mmuPages i = some p → allocs.mmuPages j = some p → i = j) :
    ∃ pool, SetsUp c c' r pool ∧ ∀ live, run live (setupRestEvents host allocs c) =
      some (((pool.map Resource.page : List Resource) : Multiset Resource) + live) := by
  have hmsrs := setupMsr_foldl host vmxMsrIndex c
  obtain ⟨-, hfree, hact⟩ := hc.root_none
  unfold setupRestEvents
  dsimp only
  rw [setupRest_eq] at h
  generalize vmxMsrIndex.foldl (setupMsr host) c = c1 at h hmsrs ⊢
  obtain ⟨t, ht, h⟩ := Option.map_eq_some_iff.1 h
  rw [ht]
  have hc1 : c1.toVcpu = c.toVcpu ∧ c1.vmcsPtr = c.vmcsPtr := by rw [hmsrs.eq]; exact ⟨rfl, rfl⟩
  have htv : t.toVcpu = { c.toVcpu with vmcs := t.vmcs } := by
    rw [setupMode_toVcpu ht, ← hc1.1]
    rfl
  have htfree : t.freePages = [] := by rw [htv]; exact hfree
  have htact : t.kvm.activeMmuPages = [] := by rw [htv]; exact hact
  have htfailed : t.failed = [] := by rw [htv]; exact hfailed
  have htkvm : t.kvm = c.kvm := by rw [htv]
  have hsome : ∀ x : Option Nat, x = c1.vmcsPtr → x ≠ none := by
    rintro x rfl hno
    rw [hc1.2] at hno
    rw [hno] at hptr
    cases hptr
  rcases kvmMmuInit_cases allocs.mmuPages t.toVcpu with ⟨v, hinit, -, -⟩ | ⟨v, hinit, -, -, hmmu⟩
  · rw [mmuInit_ok (c := { c1 with toKvmVcpu := t }) hinit] at h
    obtain ⟨rfl, rfl⟩ := Prod.mk.inj h
    obtain ⟨hlen, lvl, root, hinv, hnew, -⟩ := kvmMmuInit_spec hdistinct htfree htact htfailed hinit
    refine ⟨mmuPool allocs.mmuPages, ⟨⟨hinv.tables.perm, Or.inr ⟨lvl, root, hinv⟩, fun hno => ?_⟩, hc1.2, ?_,
      fun hr => absurd hr (by decide)⟩, fun live => ?_⟩
    · exact absurd hno (hsome _ rfl)
    · exact .of_active (by rw [← htkvm, hnew.kvm])
    · rw [kvmMmuInit_run htfree, hinit, if_pos rfl]
  · rw [mmuInit_fail (c := { c1 with toKvmVcpu := t }) hinit] at h
    obtain ⟨rfl, rfl⟩ := Prod.mk.inj h
    have hstate := @kvmMmuInit_failed t.toVcpu allocs.mmuPages (by rw [hinit])
    rw [hinit] at hstate
    dsimp only at hstate
    have hvact : v.kvm.activeMmuPages = [] := by rw [hstate]; exact htact
    have hvfailed : v.failed = [] := by rw [hstate]; exact htfailed
    have hvroot : v.mmu.rootHpa = none := by
      rw [hmmu, htv]
      exact hc.root_none.1
    refine ⟨[], ⟨.of_root_none hvroot (by rw [hstate]) hvact fun _ => hvfailed, hc1.2, ?_, fun _ => ⟨rfl, hvfailed⟩⟩,
      fun live => ?_⟩
    · show KvmGrows c.kvm v.kvm
      rw [hstate, ← htkvm]
      exact .refl _
    · rw [kvmMmuInit_run htfree, hinit, if_neg Bool.false_ne_true]
      exact congrArg some (zero_add live).symm

/-- The arrays that `kvm_vcpu_setup` allocates stay allocated if it gets both. -/
theorem kvmVcpuSetup_run (h : kvmVcpuSetup host allocs c = some (c', r)) (hc : VcpuInv [] c) (hfailed : c.failed = [])
    (hptr : c.vmcsPtr.isSome = true)
    (hdistinct : ∀ i j p, allocs.mmuPages i = some p → allocs.mmuPages j = some p → i = j) :
    ∃ (pool : List Pfn) (arrays : Multiset Resource), SetsUp c c' r pool ∧
      (∀ live, run live (kvmVcpuSetupEvents host allocs c) =
        some (((pool.map Resource.page : List Resource) : Multiset Resource) + live + arrays)) ∧
      (arrays = 0 ↔ ¬((initRmodeTss c.toVcpu).isSome = true ∧ allocs.guestMsrs.isSome = true ∧
        allocs.hostMsrs.isSome = true)) := by
  have hnone : ∀ live : Multiset Resource,
      (((([] : List Pfn).map Resource.page : List Resource) : Multiset Resource) + live + 0) = live := fun live => by simp
  cases htss : initRmodeTss c.toVcpu with
  | none =>
    rw [kvmVcpuSetup_noTss htss] at h
    obtain ⟨rfl, rfl⟩ := Prod.mk.inj (Option.some.inj h)
    refine ⟨[], 0, ⟨hc, rfl, .refl _, fun hr => absurd hr (by decide)⟩, fun live => ?_, by simp⟩
    unfold kvmVcpuSetupEvents
    rw [htss, hnone]
    rfl
  | some s =>
    have hs := initRmodeTss_lists htss
    have hstart : VcpuInv [] (c.startSetup host s) ∧ (c.startSetup host s).failed = [] ∧
        (c.startSetup host s).kvm = c.kvm := by
      obtain ⟨hroot, hfree, hact⟩ := hc.root_none
      have hlists : s.mmu.rootHpa = none ∧ s.freePages = [] ∧ s.kvm.activeMmuPages = [] ∧ s.failed = [] ∧ s.kvm = c.kvm := by
        rw [hs]
        exact ⟨hroot, hfree, hact, hfailed, rfl⟩
      exact ⟨.of_root_none hlists.1 hlists.2.1 hlists.2.2.1 fun _ => hlists.2.2.2.1, hlists.2.2.2.1, hlists.2.2.2.2⟩
    obtain ⟨hinv, hfailed', hkvm⟩ := hstart
    cases hg : allocs.guestMsrs with
    | none =>
      rw [kvmVcpuSetup_noGuestMsrs htss hg] at h
      obtain ⟨rfl, rfl⟩ := Prod.mk.inj (Option.some.inj h)
      refine ⟨[], 0, ⟨⟨hinv.pages, hinv.mmu, hinv.idle⟩, rfl, hkvm ▸ .refl _, fun _ => ⟨rfl, hfailed'⟩⟩,
        fun live => ?_, by simp⟩
      unfold kvmVcpuSetupEvents
      rw [htss, hg, hnone]
      rfl
    | some p =>
      cases hh : allocs.hostMsrs with
      | none =>
        rw [kvmVcpuSetup_noHostMsrs htss hg hh] at h
        obtain ⟨rfl, rfl⟩ := Prod.mk.inj (Option.some.inj h)
        refine ⟨[], 0, ⟨⟨hinv.pages, hinv.mmu, hinv.idle⟩, rfl, hkvm ▸ .refl _, fun _ => ⟨rfl, hfailed'⟩⟩,
          fun live => ?_, by simp⟩
        unfold kvmVcpuSetupEvents
        rw [htss, hg, hh, hnone]
        dsimp only
        rw [run_alloc, run_free, run_nil]
      | some q =>
        rw [kvmVcpuSetup_rest htss hg hh] at h
        obtain ⟨pool, hsets, hrun⟩ := setupRest_run h ⟨hinv.pages, hinv.mmu, hinv.idle⟩ hfailed' hptr hdistinct
        refine ⟨pool, {.array q, .array p}, ⟨hsets.inv, hsets.vmcsPtr, hkvm ▸ hsets.kvm, hsets.failed⟩, fun live => ?_,
          by simp⟩
        unfold kvmVcpuSetupEvents
        rw [htss, hg, hh]
        dsimp only
        rw [run_alloc, run_alloc, Multiset.insert_eq_cons, ← Multiset.cons_zero]
        refine (hrun _).trans ?_
        simp only [Multiset.add_cons, add_zero]

/-- KVM_CREATE_VCPU loses exactly the arrays, when it gets both. -/
theorem createVcpu_run (h : kvmDevIoctlCreateVcpu host allocs c n = some (c', r)) (hc : VcpuInv pool c)
    (hdistinct : ∀ i j p, allocs.mmuPages i = some p → allocs.mmuPages j = some p → i = j) :
    ∃ (pool' : List Pfn) (arrays : Multiset Resource), VcpuInv pool' c' ∧ KvmGrows c.kvm c'.kvm ∧
      run (vcpuMemory c) (kvmDevIoctlCreateVcpuEvents host allocs c n) = some (vcpuMemory c' + arrays) ∧
      (arrays = 0 ↔ ¬GetsMsrArrays allocs c n) := by
  unfold kvmDevIoctlCreateVcpuEvents
  by_cases hn : VcpuInRange n
  · cases hptr : c.vmcsPtr with
    | some p =>
      unfold kvmDevIoctlCreateVcpu at h
      rw [if_neg (inRange_iff.1 hn), hptr] at h
      obtain ⟨rfl, rfl⟩ := Prod.mk.inj (Option.some.inj h)
      refine ⟨pool, 0, hc, .refl _, ?_, iff_of_true rfl fun hno => ?_⟩
      · rw [if_neg (inRange_iff.1 hn), add_zero]
        rfl
      · rw [hno.2.1] at hptr
        cases hptr
    | none =>
      obtain ⟨hroot, hfailed⟩ := hc.idle hptr
      obtain rfl : pool = [] := by
        rcases hc.mmu with ⟨-, hnil⟩ | ⟨lvl, root, hinv⟩
        · exact hnil
        · have := hinv.root
          rw [hroot] at this
          cases this
      rw [if_neg (inRange_iff.1 hn)]
      cases hv : allocs.vmcs with
      | none =>
        unfold kvmDevIoctlCreateVcpu at h
        rw [if_neg (inRange_iff.1 hn), hptr, hv] at h
        obtain ⟨rfl, rfl⟩ := Prod.mk.inj (Option.some.inj h)
        obtain ⟨hinv, hmem, hkvm⟩ := hc.freeVcpu hfailed
        refine ⟨[], 0, hinv, hkvm ▸ .refl _, ?_, iff_of_true rfl fun hno => ?_⟩
        · rw [hmem]
          exact hc.freeVcpu_run
        · have := hno.2.2.1
          rw [hv] at this
          cases this
      | some p =>
        have hcall := kvmDevIoctlCreateVcpu_setup host hn hptr hv
        rw [h] at hcall
        obtain ⟨⟨c1, r1⟩, hsetup, heq⟩ := Option.map_eq_some_iff.1 hcall.symm
        obtain ⟨-, hfree, hact⟩ := hc.root_none
        have hnew : VcpuInv [] (c.withVmcs host p) := .of_root_none hroot hfree hact fun hno => by cases hno
        obtain ⟨pool', arrays, hsets, hrun, harrays⟩ := kvmVcpuSetup_run hsetup hnew hfailed rfl hdistinct
        have hcond : arrays = 0 ↔ ¬GetsMsrArrays allocs c n := by
          rw [harrays, initRmodeTss_isSome (show (c.withVmcs host p).kvm = c.kvm from rfl)]
          unfold GetsMsrArrays
          simp [hn, hptr, hv]
        have hempty : vcpuMemory c = 0 := by
          unfold vcpuMemory
          rw [hptr, hfree, hact]
          rfl
        have hmem : vcpuMemory c1 = .vmcs p ::ₘ ((pool'.map Resource.page : List Resource) : Multiset Resource) := by
          rw [hsets.inv.memory, hsets.vmcsPtr]
          rfl
        -- the trace of the set-up, from what the vcpu had on
        have hfirst : run (vcpuMemory c) (.alloc (.vmcs p) :: kvmVcpuSetupEvents host allocs (c.withVmcs host p)) =
            some (vcpuMemory c1 + arrays) := by
          rw [run_alloc, hrun, hempty, hmem]
          simp only [Multiset.add_cons, add_zero, Multiset.cons_add]
        dsimp only
        rw [hsetup]
        dsimp only
        rw [← List.cons_append, run_append_of_eq hfirst]
        dsimp only at heq
        by_cases hr : r1 < 0
        · rw [if_pos hr] at heq
          obtain ⟨rfl, rfl⟩ := Prod.mk.inj heq
          obtain ⟨rfl, hfailed'⟩ := hsets.failed hr
          obtain ⟨hinv, hmem', hkvm⟩ := hsets.inv.freeVcpu hfailed'
          refine ⟨[], arrays, hinv, hkvm ▸ hsets.kvm, ?_, hcond⟩
          rw [if_pos hr, hmem']
          exact run_frame hsets.inv.freeVcpu_run arrays
        · rw [if_neg hr] at heq
          obtain ⟨rfl, rfl⟩ := Prod.mk.inj heq
          refine ⟨pool', arrays, hsets.inv, hsets.kvm, ?_, hcond⟩
          rw [if_neg hr]
          rfl
  · unfold kvmDevIoctlCreateVcpu at h
    rw [if_pos (by_contra fun hno => hn (inRange_iff.2 hno))] at h
    obtain ⟨rfl, rfl⟩ := Prod.mk.inj (Option.some.inj h)
    refine ⟨pool, 0, hc, .refl _, ?_, iff_of_true rfl fun hno => hn hno.1⟩
    rw [if_pos (by_contra fun hno => hn (inRange_iff.2 hno)), add_zero]
    rfl

/-! ### Runs -/

/-- What the machine has at the moment. -/
def vmMemory (kvmPtr : Nat) (c : VcpuAlloc) : Multiset Resource :=
  vcpuMemory c + (slotsMemory c.kvm + {.array kvmPtr})

/-- The trace leaves what the machine has, and what it has lost. -/
structure VmInv (kvmPtr : Nat) (pool : List Pfn) (lost : Multiset Resource) (c : VcpuAlloc) (es : List (Event Resource)) :
    Prop where
  live : run 0 es = some (vmMemory kvmPtr c + lost)
  vcpu : VcpuInv pool c
  slots : SlotsInv c.kvm

/-- The slots depend on their table and on the arrays. -/
theorem SlotsInv.congr (h : SlotsInv kvm) (hslots : kvm'.memslots = kvm.memslots) (hn : kvm'.nmemslots = kvm.nmemslots)
    (harrays : kvm'.pageArray = kvm.pageArray) : SlotsInv kvm' ∧ slotsMemory kvm' = slotsMemory kvm := by
  have hmem : ∀ m, slotMemory kvm' m = slotMemory kvm m := fun m => slotMemory_congr fun _ _ a _ => by rw [harrays]
  refine ⟨⟨fun i => by rw [hslots]; exact h.shape i, fun i hi => ?_⟩, ?_⟩
  · rw [hslots, hmem]
    exact h.beyond i (hn ▸ hi)
  · unfold slotsMemory
    simp only [hslots, hmem]

theorem SlotsInv.grows (h : SlotsInv kvm) (hg : KvmGrows kvm kvm') :
    SlotsInv kvm' ∧ slotsMemory kvm' = slotsMemory kvm :=
  h.congr (by rw [hg.frame]) (by rw [hg.frame]) (by rw [hg.frame])

namespace VmInv

variable {lost : Multiset Resource}

/-- An action whose trace changes what the vcpu has, and may lose something. -/
theorem stepVcpu (h : VmInv kvmPtr pool lost c es) {pool' : List Pfn} {lost' : Multiset Resource}
    {es' : List (Event Resource)} (hinv : VcpuInv pool' c') (hslots : SlotsInv c'.kvm ∧ slotsMemory c'.kvm = slotsMemory c.kvm)
    (hrun : run (vcpuMemory c) es' = some (vcpuMemory c' + lost')) : VmInv kvmPtr pool' (lost + lost') c' (es ++ es') := by
  refine ⟨?_, hinv, hslots.1⟩
  rw [run_append_of_eq h.live]
  unfold vmMemory
  rw [add_assoc, run_frame hrun, hslots.2]
  congr 1
  abel

/-- An action that neither allocates nor frees. -/
theorem stepNone (h : VmInv kvmPtr pool lost c es) (hinv : VcpuInv pool c') (hptr : c'.vmcsPtr = c.vmcsPtr)
    (hslots : SlotsInv c'.kvm ∧ slotsMemory c'.kvm = slotsMemory c.kvm) : VmInv kvmPtr pool lost c' (es ++ []) := by
  have hrun : run (vcpuMemory c) [] = some (vcpuMemory c' + 0) := by
    rw [run_nil, vcpuMemory_congr h.vcpu hinv hptr, add_zero]
  have hnext := h.stepVcpu hinv hslots hrun
  rwa [add_zero] at hnext

/-- After KVM_SET_MEMORY_REGION the vcpu has the same shadow pages. -/
theorem afterRegion (h : VmInv kvmPtr pool lost c es) {result : RegionResult}
    (hact : result.kvm.activeMmuPages = c.kvm.activeMmuPages) (hslots : SlotsInv result.kvm) :
    VcpuInv pool (c.afterRegion result) ∧ (c.afterRegion result).vmcsPtr = c.vmcsPtr ∧
      SlotsInv (c.afterRegion result).kvm ∧ slotsMemory (c.afterRegion result).kvm = slotsMemory result.kvm := by
  have hvcpu : VcpuInv pool { c with kvm := result.kvm } := h.vcpu.congr ⟨rfl, rfl, hact, rfl, rfl, rfl⟩ rfl
  unfold VcpuAlloc.afterRegion
  dsimp only
  split
  · split
    · rename_i hptr
      obtain ⟨hreset, hgrows⟩ := hvcpu.resetContext hptr
      obtain ⟨h1, h2⟩ := hslots.grows hgrows
      exact ⟨hreset, rfl, h1, h2⟩
    · exact ⟨hvcpu, rfl, hslots, rfl⟩
  · exact ⟨hvcpu, rfl, hslots, rfl⟩

theorem step (h : VmInv kvmPtr pool lost c es) (hstep : VmStep c a c')
    (hfresh : ∀ live : List Resource, run 0 es = some ↑live → a.Fresh live) :
    (run 0 (es ++ a.events c) = none ∧ ¬a.Frees c) ∨
      ∃ pool' lost', VmInv kvmPtr pool' (lost + lost') c' (es ++ a.events c) ∧ (lost' = 0 ↔ a.Frees c) := by
  obtain ⟨live, hlive⟩ := Quot.exists_rep (vmMemory kvmPtr c + lost)
  have hfresh := hfresh live (h.live.trans (congrArg some hlive.symm))
  cases hstep with
  | createVcpu hcall =>
    obtain ⟨pool', arrays, hinv, hgrows, hrun, harrays⟩ := createVcpu_run hcall h.vcpu hfresh.2
    exact Or.inr ⟨pool', arrays, h.stepVcpu hinv (h.slots.grows hgrows) hrun, harrays⟩
  | @setMemoryRegion mem allocs result hcall =>
    have hevents : VmAction.events c (.setMemoryRegion mem allocs) = result.ops.map HeapOp.event := by
      show kvmDevIoctlSetMemoryRegionEvents c.kvm mem allocs = _
      unfold kvmDevIoctlSetMemoryRegionEvents
      rw [hcall]
      rfl
    rw [hevents]
    by_cases hfrees : VmAction.Frees c (.setMemoryRegion mem allocs)
    · have hheld : ∀ res ∈ slotsMemory c.kvm, res ∈ live := by
        intro res hres
        have hmem : res ∈ vmMemory kvmPtr c + lost := by
          unfold vmMemory
          simp [hres]
        rw [← hlive] at hmem
        exact hmem
      obtain ⟨hslots, hact, hrun⟩ := h.slots.setMemoryRegion hheld hfresh hcall hfrees
      obtain ⟨hinv, hptr, hslots', hmemory⟩ := h.afterRegion hact hslots
      refine Or.inr ⟨pool, 0, ⟨?_, hinv, hslots'⟩, iff_of_true rfl hfrees⟩
      rw [run_append_of_eq h.live]
      unfold vmMemory
      rw [vcpuMemory_congr h.vcpu hinv hptr, hmemory]
      have hframe := run_frame hrun (vcpuMemory c + {.array kvmPtr} + lost)
      have hsum : ∀ m : Multiset Resource, m + (vcpuMemory c + {.array kvmPtr} + lost) =
          vcpuMemory c + (m + {.array kvmPtr}) + lost := fun m => by abel
      rw [hsum, hsum] at hframe
      rwa [add_zero]
    · obtain ⟨slot, hslot, hfail⟩ : ∃ slot, mem.sanityChecks = some slot ∧ PageAllocFails mem slot ⟨c.kvm, allocs, c.kvm⟩ := by
        by_contra hno
        exact hfrees fun slot hslot hfail => hno ⟨slot, hslot, hfail⟩
      refine Or.inl ⟨?_, hfrees⟩
      exact run_of_freeNull (List.mem_append_right _ (setMemoryRegion_freesNull hcall hslot hfail))
  | mmu hroot hv =>
    refine Or.inr ⟨pool, 0, ?_, iff_of_true rfl trivial⟩
    rw [add_zero]
    refine h.stepNone (h.vcpu.mmuCall hroot hv.mmuCall) rfl (h.slots.grows ?_)
    rcases h.vcpu.mmu with ⟨hno, -⟩ | ⟨lvl, root, hinv⟩
    · rw [hno] at hroot
      cases hroot
    · exact hv.kvmGrows hinv hinv.pool_ne
  | resetContext hptr =>
    obtain ⟨hinv, hgrows⟩ := h.vcpu.resetContext hptr
    refine Or.inr ⟨pool, 0, ?_, iff_of_true rfl trivial⟩
    rw [add_zero]
    exact h.stepNone hinv rfl (h.slots.grows hgrows)
  | other hs hptr hkvm =>
    refine Or.inr ⟨pool, 0, ?_, iff_of_true rfl trivial⟩
    rw [add_zero]
    exact h.stepNone (h.vcpu.congr hs hptr) hptr (h.slots.congr (by rw [hkvm]) (by rw [hkvm]) (by rw [hkvm]))

/-- `kvm_dev_release` frees what the machine has. -/
theorem release (h : VmInv kvmPtr pool lost c es) : run 0 (es ++ kvmDevReleaseEvents kvmPtr c) = some lost := by
  have hstruct : run (({.array kvmPtr} : Multiset Resource) + lost) [.free (some (.array kvmPtr))] = some lost := by
    rw [Multiset.singleton_add, run_free, run_nil]
  have hslots := run_frame h.slots.freePhysmem (({.array kvmPtr} : Multiset Resource) + lost)
  have hvcpu := run_frame h.vcpu.freeVcpu_run (slotsMemory c.kvm + {.array kvmPtr} + lost)
  rw [zero_add, add_assoc] at hvcpu
  rw [zero_add] at hslots
  unfold kvmDevReleaseEvents
  rw [run_append_of_eq h.live, List.append_assoc]
  unfold vmMemory
  rw [add_assoc, add_assoc, run_append_of_eq hvcpu, run_append_of_eq hslots, hstruct]

end VmInv

theorem VmRun.inv (h : VmRun kvmPtr c es history) :
    (run 0 es = none ∧ ∃ x ∈ history, ¬x.2.Frees x.1) ∨
      ∃ pool lost, VmInv kvmPtr pool lost c es ∧ (lost = 0 ↔ ∀ x ∈ history, x.2.Frees x.1) := by
  induction h with
  | opened c hkvm hptr hroot hfree hfailed =>
    have hact : c.kvm.activeMmuPages = [] := by rw [hkvm]; rfl
    have hslots : SlotsInv c.kvm ∧ slotsMemory c.kvm = 0 := by
      have hmem : ∀ i, slotMemory c.kvm (c.kvm.memslots i) = [] := fun i => by rw [hkvm]; rfl
      refine ⟨⟨fun i => ?_, fun i _ => hmem i⟩, ?_⟩
      · rw [hkvm]
        exact ⟨⟨fun _ => rfl, fun _ => rfl⟩, fun hne => absurd rfl hne⟩
      · unfold slotsMemory
        simp [hmem]
    refine Or.inr ⟨[], 0, ⟨?_, .of_root_none hroot hfree hact fun _ => hfailed, hslots.1⟩, by simp⟩
    unfold vmMemory vcpuMemory
    rw [hptr, hfree, hact, hslots.2]
    rfl
  | @step c c' es history a h hstep hfresh ih =>
    rcases ih with ⟨hnone, x, hx, hbad⟩ | ⟨pool, lost, hinv, hlost⟩
    · refine Or.inl ⟨?_, x, List.mem_cons_of_mem _ hx, hbad⟩
      rw [run_append, hnone]
      rfl
    · rcases hinv.step hstep hfresh with ⟨hnone, hbad⟩ | ⟨pool', lost', hinv', hlost'⟩
      · exact Or.inl ⟨hnone, _, List.mem_cons_self, hbad⟩
      · refine Or.inr ⟨pool', lost + lost', hinv', ?_⟩
        rw [List.forall_mem_cons, ← hlost, ← hlost', ← Multiset.card_eq_zero, Multiset.card_add, Nat.add_eq_zero_iff, Multiset.card_eq_zero, Multiset.card_eq_zero]
        exact and_comm

theorem VmRun.frees (h : VmRun kvmPtr c es history) (hclean : ClosesClean kvmPtr c es) : ∀ x ∈ history, x.2.Frees x.1 := by
  unfold ClosesClean FreedOnce at hclean
  rcases h.inv with ⟨hnone, -⟩ | ⟨pool, lost, hinv, hlost⟩
  · rw [run_append, hnone] at hclean
    cases hclean
  · rw [hinv.release] at hclean
    exact hlost.1 (Option.some.inj hclean)

end LearnKvm
