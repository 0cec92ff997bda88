import LearnKvm.GuestWrites

/-!
# Creating a vcpu (`kvm_dev_ioctl_create_vcpu`)

The call should create a vcpu completely, or fail and leave nothing behind (`AllOrNothing`).  Three things go wrong.  When
the last three pages of slot 0 are missing, `init_rmode_tss` returns 0 and so does the call, with nothing set up.  When
`kvm_mmu_init` fails, the MSR arrays stay allocated; and `nmsrs` keeps its value, so that a later attempt that succeeds
counts the MSRs twice.  Otherwise the call is all-or-nothing (`createVcpu_allOrNothing`).
-/

namespace LearnKvm

variable {host : Host} {allocs : Allocs} {c c' : VcpuAlloc} {n : Int} {r : Int}

/-! ### The call -/

/-- `free_mmu_pages`. -/
def freeMmuPages (c : VcpuAlloc) : VcpuAlloc :=
  { c with freePages := [], live := freePageList c.live c.freePages }

def kvmMmuDestroy (c : VcpuAlloc) : VcpuAlloc := freeMmuPages { c with toVcpu := destroyKvmMmu c.toVcpu }

def kvmFreeVmcs (c : VcpuAlloc) : VcpuAlloc :=
  match c.vmcsPtr with
  | none => c
  | some p => { c with vmcsPtr := none, live := c.live.erase (.vmcs p) }

def kvmFreeVcpu (c : VcpuAlloc) : VcpuAlloc := kvmMmuDestroy (kvmFreeVmcs c)

/-- Creates the vcpu `n`; the vcpu is `c` for all numbers in range. -/
def kvmDevIoctlCreateVcpu (host : Host) (allocs : Allocs) (c : VcpuAlloc) (n : Int) : Option (VcpuAlloc × Int) :=
  if n < 0 ∨ (kvmMaxVcpus : Int) ≤ n then some (c, -einval)
  else
    match c.vmcsPtr with
    | some _ => some (c, -eexist)
    | none =>
      match allocs.vmcs with
      | none => some (kvmFreeVcpu c, -einval)
      | some p =>
        match kvmVcpuSetup host allocs { c with vmcsPtr := some p, vmcs := host.vmcs, live := .vmcs p :: c.live } with
        | none => none
        | some (c, r) => if r < 0 then some (kvmFreeVcpu c, r) else some (c, 0)

/-! ### What it should do -/

/-- There is a vcpu of this number. -/
def VcpuInRange (n : Int) : Prop := 0 ≤ n ∧ n < kvmMaxVcpus

/-- The vcpu is complete. -/
structure Created (host : Host) (c : VcpuAlloc) : Prop where
  vmcs : c.vmcsPtr.isSome = true
  arrays : c.guestMsrsPtr.isSome = true ∧ c.hostMsrsPtr.isSome = true
  nmsrs : c.nmsrs = (supportedMsrs host vmxMsrIndex).length
  /-- The host array holds the MSRs of the processor, the guest array has an entry for each of them. -/
  msrs : ∀ (k : Nat) (hk : k < (supportedMsrs host vmxMsrIndex).length),
    c.hostMsrs k = (supportedMsrs host vmxMsrIndex)[k] ∧
      (c.guestMsrs k).index = (supportedMsrs host vmxMsrIndex)[k].index
  root : c.mmu.rootHpa.isSome = true

/-- Nothing is left of the attempt to create the vcpu. -/
structure RolledBack (n : Int) (c c' : VcpuAlloc) : Prop where
  live : c'.live = c.live
  vcpu : VcpuInRange n → c'.vmcsPtr = none ∧ c'.mmu.rootHpa = none ∧ c'.freePages = [] ∧ c'.nmsrs = c.nmsrs

def AllOrNothing (host : Host) (allocs : Allocs) (c : VcpuAlloc) (n : Int) : Prop :=
  ∃ c' r, kvmDevIoctlCreateVcpu host allocs c n = some (c', r) ∧
    (r = 0 ∧ Created host c' ∨ r < 0 ∧ RolledBack n c c')

/-- The condition: the number is out of range, or the vcpu does not exist, and the VMCS cannot be allocated or the pages for
the task state segment are there and an MSR array cannot be allocated or all is there, with no MSR counted before. -/
def CreateWhen (host : Host) (allocs : Allocs) (c : VcpuAlloc) (n : Int) : Prop :=
  ¬VcpuInRange n ∨ (c.vmcsPtr = none ∧ (allocs.vmcs = none ∨ ((initRmodeTss c.toVcpu).isSome = true ∧
    (allocs.guestMsrs = none ∨ allocs.hostMsrs = none ∨ ((∀ i, (allocs.mmuPages i).isSome = true) ∧
      (host.rdmsrSafe msrEfer).isSome = true ∧ c.nmsrs = 0)))))

/-! ### The states of a machine -/

/-- A vcpu that does not exist has no shadow pages. -/
def Idle (c : VcpuAlloc) : Prop := c.vmcsPtr = none → c.mmu.rootHpa = none ∧ c.freePages = []

/-- What may happen between two calls: an existing vcpu runs; of one that does not exist, only the memory of its machine
changes. -/
structure OtherStep (c c' : VcpuAlloc) : Prop where
  vmcsPtr : c'.vmcsPtr = c.vmcsPtr
  vcpu : c.vmcsPtr = none → c'.mmu = c.mmu ∧ c'.freePages = c.freePages ∧ c'.nmsrs = c.nmsrs

/-- The machine has been opened, and vcpus have been created. -/
inductive CreateReachable : VcpuAlloc → Prop
  | opened (c : VcpuAlloc) (hvmcs : c.vmcsPtr = none) (hroot : c.mmu.rootHpa = none) (hfree : c.freePages = [])
      (hnmsrs : c.nmsrs = 0) : CreateReachable c
  | create {c c' : VcpuAlloc} (host : Host) (allocs : Allocs) (n r : Int) (h : CreateReachable c)
      (hc : kvmDevIoctlCreateVcpu host allocs c n = some (c', r)) : CreateReachable c'
  | other {c c' : VcpuAlloc} (h : CreateReachable c) (hc : OtherStep c c') : CreateReachable c'

/-! ### The pool of shadow pages -/

/-- The loop gets a page every time, or empties the list. -/
theorem allocMmuPages_cases (alloc : Fin 256 → Option Pfn) (l : List (Fin 256)) (s : Vcpu) :
    ((∀ i ∈ l, (alloc i).isSome = true) ∧ (allocMmuPages alloc l s).2 = true ∧
      (allocMmuPages alloc l s).1.freePages.length = l.length + s.freePages.length) ∨
    ((∃ i ∈ l, alloc i = none) ∧ (allocMmuPages alloc l s).2 = false ∧ (allocMmuPages alloc l s).1.freePages = [] ∧
      (allocMmuPages alloc l s).1.mmu = s.mmu) := by
  induction l generalizing s with
  | nil => exact Or.inl ⟨fun i hi => absurd hi List.not_mem_nil, rfl, (Nat.zero_add _).symm⟩
  | cons i l ih =>
    cases hi : alloc i with
    | none =>
      have hnone : allocMmuPages alloc (i :: l) s = ({ s with freePages := [] }, false) := by
        rw [allocMmuPages, hi]
      rw [hnone]
      exact Or.inr ⟨⟨i, List.mem_cons_self, hi⟩, rfl, rfl, rfl⟩
    | some page =>
      have hsome : allocMmuPages alloc (i :: l) s = allocMmuPages alloc l { s with
          shadow := fun p i => if p = page then 0 else s.shadow p i
          freePages := page :: s.freePages } := by
        rw [allocMmuPages, hi]
      rw [hsome]
      rcases ih { s with
        shadow := fun p i => if p = page then 0 else s.shadow p i
        freePages := page :: s.freePages } with ⟨hall, hok, hlen⟩ | ⟨⟨j, hj, hnone⟩, hfail, hfree, hmmu⟩
      · refine Or.inl ⟨fun j hj => ?_, hok, ?_⟩
        · rcases List.mem_cons.1 hj with rfl | hj
          · rw [hi]
            rfl
          · exact hall j hj
        · rw [hlen, List.length_cons, List.length_cons]
          omega
      · exact Or.inr ⟨⟨j, List.mem_cons_of_mem _ hj, hnone⟩, hfail, hfree, hmmu⟩

/-- With a page on the free list every context gets its root. -/
theorem initKvmMmu_root {s : Vcpu} (h : s.freePages ≠ []) : (initKvmMmu s).mmu.rootHpa.isSome = true := by
  have hroot : (kvmMmuAllocPage s none).2.isSome = true := by
    unfold kvmMmuAllocPage
    split
    · contradiction
    · rfl
  unfold initKvmMmu
  split
  · exact hroot
  · split
    · exact hroot
    · split <;> exact hroot

theorem kvmMmuInit_cases (alloc : Fin 256 → Option Pfn) (s : Vcpu) :
    (∃ s', kvmMmuInit alloc s = (s', true) ∧ (∀ i, (alloc i).isSome = true) ∧ s'.mmu.rootHpa.isSome = true) ∨
    (∃ s', kvmMmuInit alloc s = (s', false) ∧ (¬∀ i, (alloc i).isSome = true) ∧ s'.freePages = [] ∧ s'.mmu = s.mmu) := by
  unfold kvmMmuInit
  rcases allocMmuPages_cases alloc (List.finRange 256) s with ⟨hall, hok, hlen⟩ | ⟨⟨i, -, hi⟩, hfail, hfree, hmmu⟩
  · generalize allocMmuPages alloc (List.finRange 256) s = out at hok hlen ⊢
    obtain ⟨s1, ok⟩ := out
    obtain rfl : ok = true := hok
    refine Or.inl ⟨_, rfl, fun i => hall i (List.mem_finRange i), initKvmMmu_root fun hnil => ?_⟩
    have hlen : s1.freePages.length = (List.finRange 256).length + s.freePages.length := hlen
    rw [hnil, List.length_finRange, List.length_nil] at hlen
    omega
  · generalize allocMmuPages alloc (List.finRange 256) s = out at hfail hfree hmmu ⊢
    obtain ⟨s1, ok⟩ := out
    obtain rfl : ok = false := hfail
    refine Or.inr ⟨_, rfl, fun hall => ?_, hfree, hmmu⟩
    have := hall i
    rw [hi] at this
    cases this

/-- Freeing pages frees no array. -/
theorem freePageList_count (live : List Resource) (pages : List Pfn) (p : Nat) :
    (freePageList live pages).count (.array p) = live.count (.array p) := by
  unfold freePageList
  induction pages generalizing live with
  | nil => rfl
  | cons page pages ih =>
    rw [List.foldl_cons, ih]
    exact List.count_erase_of_ne (by simp)

/-! ### The end of the set-up -/

/-- Entering real mode loads 0 into EFER, which keeps the MSRs of the array. -/
theorem setupMode_msrs {s t : KvmVcpu} (h : setupMode s = some t) :
    t.nmsrs = s.nmsrs ∧ ∀ k, (t.guestMsrs k).index = (s.guestMsrs k).index := by
  have hpg : (0x60000010 : BitVec 64).hasBit 31 = false := by decide
  obtain ⟨s1, h1⟩ := Option.isSome_iff_exists.1 (rawSetCr0_isSome_of_pg hpg s)
  have hs1 : s1.nmsrs = s.nmsrs ∧ s1.guestMsrs = s.guestMsrs := by
    obtain ⟨s2, h2, rfl⟩ := Option.map_eq_some_iff.1 h1
    have hr := switchRmode_eq s 0x60000010
    rcases switchLmode_cases h2 with ⟨rfl, -⟩ | ⟨-, -, hno, -⟩ | ⟨-, -, -, rfl⟩
    · rw [hr]
      exact ⟨rfl, rfl⟩
    · rw [hpg] at hno
      cases hno
    · rw [hr]
      exact ⟨rfl, rfl⟩
  unfold setupMode at h
  rw [h1] at h
  rw [← hs1.1, ← hs1.2]
  change rawSetEfer (rawSetCr4 s1 0) 0 = some t at h
  unfold rawSetEfer at h
  split at h
  · cases h
  · dsimp only at h
    split at h
    · obtain rfl := Option.some.inj h
      exact ⟨rfl, fun k => setMsr_index _ _ _ _⟩
    · obtain rfl := Option.some.inj h
      exact ⟨rfl, fun k => setMsr_index _ _ _ _⟩

/-- The pointers are kept and the MSRs of the processor have been appended to both arrays. -/
structure MsrsLoaded (host : Host) (c c' : VcpuAlloc) : Prop where
  vmcsPtr : c'.vmcsPtr = c.vmcsPtr
  arrays : c'.guestMsrsPtr = c.guestMsrsPtr ∧ c'.hostMsrsPtr = c.hostMsrsPtr
  nmsrs : c'.nmsrs = c.nmsrs + (supportedMsrs host vmxMsrIndex).length
  msrs : ∀ (k : Nat) (hk : k < (supportedMsrs host vmxMsrIndex).length),
    c'.hostMsrs (c.nmsrs + k) = (supportedMsrs host vmxMsrIndex)[k] ∧
      (c'.guestMsrs (c.nmsrs + k)).index = (supportedMsrs host vmxMsrIndex)[k].index

/-- The arrays are filled, and then the context of the MMU is set up unless a page is missing, in which case the arrays
stay allocated. -/
theorem setupRest_cases (h : setupRest host allocs c = some (c', r)) : MsrsLoaded host c c' ∧
    ((r = 0 ∧ (∀ i, (allocs.mmuPages i).isSome = true) ∧ c'.mmu.rootHpa.isSome = true) ∨
      (r = -enomem ∧ (¬∀ i, (allocs.mmuPages i).isSome = true) ∧
        ∀ p, c'.live.count (.array p) = c.live.count (.array p))) := by
  have hmsrs := setupMsr_foldl host vmxMsrIndex c
  rw [setupRest_eq] at h
  generalize vmxMsrIndex.foldl (setupMsr host) c = c1 at h hmsrs
  obtain ⟨t, ht, h⟩ := Option.map_eq_some_iff.1 h
  obtain ⟨hn, hindex⟩ := setupMode_msrs ht
  have hn : t.nmsrs = c1.nmsrs := hn
  have hindex : ∀ k, (t.guestMsrs k).index = (c1.guestMsrs k).index := hindex
  -- what is left of the state, whatever `kvm_mmu_init` does
  have hloaded : ∀ (s : Vcpu) (live : List Resource),
      MsrsLoaded host c { c1 with toKvmVcpu := { t with toVcpu := s }, live := live } := by
    intro s live
    refine ⟨?_, ?_, hn.trans hmsrs.nmsrs, fun k hk => ⟨(hmsrs.new k hk).2, ?_⟩⟩
    · show c1.vmcsPtr = c.vmcsPtr
      rw [hmsrs.eq]
    · show c1.guestMsrsPtr = c.guestMsrsPtr ∧ c1.hostMsrsPtr = c.hostMsrsPtr
      rw [hmsrs.eq]
      exact ⟨rfl, rfl⟩
    · exact (hindex _).trans (congrArg VmxMsrEntry.index (hmsrs.new k hk).1)
  rcases kvmMmuInit_cases allocs.mmuPages t.toVcpu with ⟨s', hinit, hall, hroot⟩ | ⟨s', hinit, hno, -, -⟩
  · rw [mmuInit_ok (c := { c1 with toKvmVcpu := t }) hinit] at h
    obtain ⟨rfl, rfl⟩ := Prod.mk.inj h
    exact ⟨hloaded _ _, Or.inl ⟨rfl, hall, hroot⟩⟩
  · rw [mmuInit_fail (c := { c1 with toKvmVcpu := t }) hinit] at h
    obtain ⟨rfl, rfl⟩ := Prod.mk.inj h
    refine ⟨hloaded _ _, Or.inr ⟨rfl, hno, fun p => ?_⟩⟩
    have hlive : c1.live = c.live := by rw [hmsrs.eq]
    rw [freePageList_count, List.count_append, hlive]
    have hpages : (List.map Resource.page (mmuPagesTaken allocs.mmuPages (List.finRange 256))).count (.array p) = 0 := by
      rw [List.count_eq_zero]
      simp
    rw [hpages, Nat.zero_add]

/-- With no MSR counted before, EFER has an entry exactly when the processor has the register. -/
theorem setupRest_isSome (host : Host) (allocs : Allocs) (hn : c.nmsrs = 0) :
    (setupRest host allocs c).isSome = (host.rdmsrSafe msrEfer).isSome := by
  have hmsrs := setupMsr_foldl host vmxMsrIndex c
  rw [setupRest_eq, Option.isSome_map, setupMode_isSome]
  show (findMsrEntry (vmxMsrIndex.foldl (setupMsr host) c).toKvmVcpu msrEfer).isSome = _
  cases hefer : (host.rdmsrSafe msrEfer).isSome with
  | true => exact findMsrEntry_isSome_of_readable hefer
  | false =>
    rw [Bool.eq_false_iff]
    intro hfind
    obtain ⟨i, hi, hindex⟩ := findMsrEntry_isSome.1 hfind
    have hlen : i < (supportedMsrs host vmxMsrIndex).length := by
      have := hmsrs.nmsrs
      omega
    have hnew := (hmsrs.new i hlen).1
    rw [hn, Nat.zero_add] at hnew
    have hmem := mem_supportedMsrs.1 (List.getElem_mem hlen)
    rw [← hnew, hindex] at hmem
    rw [hmem.2] at hefer
    cases hefer

/-! ### The call -/

/-- Freeing a vcpu leaves it without VMCS and shadow pages. -/
theorem kvmFreeVcpu_idle (c : VcpuAlloc) :
    (kvmFreeVcpu c).vmcsPtr = none ∧ (kvmFreeVcpu c).mmu.rootHpa = none ∧ (kvmFreeVcpu c).freePages = [] := by
  have hptr : (kvmFreeVmcs c).vmcsPtr = none := by
    unfold kvmFreeVmcs
    split
    · assumption
    · rfl
  refine ⟨hptr, ?_, rfl⟩
  show (destroyKvmMmu (kvmFreeVmcs c).toVcpu).mmu.rootHpa = none
  unfold destroyKvmMmu
  split
  · assumption
  · rfl

theorem kvmFreeVcpu_nmsrs (c : VcpuAlloc) : (kvmFreeVcpu c).nmsrs = c.nmsrs := by
  show (kvmFreeVmcs c).nmsrs = c.nmsrs
  unfold kvmFreeVmcs
  split <;> rfl

/-- Without shadow pages there is only the VMCS to free. -/
theorem kvmFreeVcpu_live (hroot : c.mmu.rootHpa = none) (hfree : c.freePages = []) :
    (kvmFreeVcpu c).live = (kvmFreeVmcs c).live := by
  have hmmu : (kvmFreeVmcs c).mmu.rootHpa = none ∧ (kvmFreeVmcs c).freePages = [] := by
    unfold kvmFreeVmcs
    split <;> exact ⟨hroot, hfree⟩
  have hdestroy : destroyKvmMmu (kvmFreeVmcs c).toVcpu = (kvmFreeVmcs c).toVcpu := by
    unfold destroyKvmMmu
    rw [hmmu.1]
  show freePageList (kvmFreeVmcs c).live (destroyKvmMmu (kvmFreeVmcs c).toVcpu).freePages = _
  rw [hdestroy, hmmu.2]
  rfl

theorem kvmFreeVcpu_count (c : VcpuAlloc) (p : Nat) :
    (kvmFreeVcpu c).live.count (.array p) = c.live.count (.array p) := by
  have hvmcs : (kvmFreeVmcs c).live.count (.array p) = c.live.count (.array p) := by
    unfold kvmFreeVmcs
    split
    · rfl
    · exact List.count_erase_of_ne (by simp)
  exact (freePageList_count _ _ p).trans hvmcs

/-- The vcpu with a new VMCS, as `kvm_vcpu_setup` gets it. -/
def VcpuAlloc.withVmcs (host : Host) (c : VcpuAlloc) (p : Nat) : VcpuAlloc :=
  { c with vmcsPtr := some p, vmcs := host.vmcs, live := .vmcs p :: c.live }

/-- Set-up keeps the pointer to the VMCS. -/
theorem kvmVcpuSetup_vmcsPtr (h : kvmVcpuSetup host allocs c = some (c', r)) : c'.vmcsPtr = c.vmcsPtr := by
  cases hs : initRmodeTss c.toVcpu with
  | none =>
    rw [kvmVcpuSetup_noTss hs] at h
    obtain ⟨rfl, -⟩ := Prod.mk.inj (Option.some.inj h)
    rfl
  | some s =>
    cases hg : allocs.guestMsrs with
    | none =>
      rw [kvmVcpuSetup_noGuestMsrs hs hg] at h
      obtain ⟨rfl, -⟩ := Prod.mk.inj (Option.some.inj h)
      rfl
    | some p =>
      cases hh : allocs.hostMsrs with
      | none =>
        rw [kvmVcpuSetup_noHostMsrs hs hg hh] at h
        obtain ⟨rfl, -⟩ := Prod.mk.inj (Option.some.inj h)
        rfl
      | some q =>
        rw [kvmVcpuSetup_rest hs hg hh] at h
        exact (setupRest_cases h).1.vmcsPtr

/-- How the call can end. -/
theorem kvmDevIoctlCreateVcpu_cases (h : kvmDevIoctlCreateVcpu host allocs c n = some (c', r)) :
    c' = c ∨ (∃ c1, c' = kvmFreeVcpu c1) ∨ c'.vmcsPtr.isSome = true := by
  unfold kvmDevIoctlCreateVcpu at h
  split at h
  · exact Or.inl (congrArg Prod.fst (Option.some.inj h)).symm
  · split at h
    · exact Or.inl (congrArg Prod.fst (Option.some.inj h)).symm
    · split at h
      · exact Or.inr (Or.inl ⟨c, (congrArg Prod.fst (Option.some.inj h)).symm⟩)
      · split at h
        · cases h
        · rename_i c1 r1 hsetup
          split at h
          · exact Or.inr (Or.inl ⟨c1, (congrArg Prod.fst (Option.some.inj h)).symm⟩)
          · obtain rfl : c1 = c' := congrArg Prod.fst (Option.some.inj h)
            refine Or.inr (Or.inr ?_)
            rw [kvmVcpuSetup_vmcsPtr hsetup]
            rfl

/-- In every state of a machine, a vcpu that does not exist has no shadow pages. -/
theorem CreateReachable.idle (h : CreateReachable c) : Idle c := by
  induction h with
  | opened c hvmcs hroot hfree hnmsrs => exact fun _ => ⟨hroot, hfree⟩
  | create host allocs n r h hc ih =>
    intro hnone
    rcases kvmDevIoctlCreateVcpu_cases hc with rfl | ⟨c1, rfl⟩ | hsome
    · exact ih hnone
    · exact (kvmFreeVcpu_idle c1).2
    · rw [hnone] at hsome
      cases hsome
  | other h hc ih =>
    intro hnone
    rw [hc.vmcsPtr] at hnone
    obtain ⟨hmmu, hfree, -⟩ := hc.vcpu hnone
    rw [hmmu, hfree]
    exact ih hnone

theorem inRange_iff : VcpuInRange n ↔ ¬(n < 0 ∨ (kvmMaxVcpus : Int) ≤ n) := by
  unfold VcpuInRange
  omega

/-- The call for a vcpu that does not exist, with a new VMCS. -/
theorem kvmDevIoctlCreateVcpu_setup {p : Nat} (host : Host) (hn : VcpuInRange n) (hnone : c.vmcsPtr = none) (hp : allocs.vmcs = some p) :
    kvmDevIoctlCreateVcpu host allocs c n = (kvmVcpuSetup host allocs (c.withVmcs host p)).map fun x =>
      if x.2 < 0 then (kvmFreeVcpu x.1, x.2) else (x.1, 0) := by
  unfold kvmDevIoctlCreateVcpu
  rw [if_neg (inRange_iff.1 hn), hnone, hp]
  show (match kvmVcpuSetup host allocs (c.withVmcs host p) with | none => none | some (c, r) => _) = _
  cases kvmVcpuSetup host allocs (c.withVmcs host p) with
  | none => rfl
  | some x =>
    dsimp only
    rw [Option.map_some]
    split <;> rfl

/-- Without a VMCS the attempt ends before anything else is allocated. -/
theorem createVcpu_noVmcs (hidle : Idle c) (hn : VcpuInRange n) (hnone : c.vmcsPtr = none) (hp : allocs.vmcs = none) :
    AllOrNothing host allocs c n := by
  obtain ⟨hroot, hfree⟩ := hidle hnone
  refine ⟨kvmFreeVcpu c, -einval, ?_, Or.inr ⟨by decide, ?_, fun _ => ?_⟩⟩
  · unfold kvmDevIoctlCreateVcpu
    rw [if_neg (inRange_iff.1 hn), hnone, hp]
  · rw [kvmFreeVcpu_live hroot hfree]
    unfold kvmFreeVmcs
    rw [hnone]
  · obtain ⟨h1, h2, h3⟩ := kvmFreeVcpu_idle c
    exact ⟨h1, h2, h3, kvmFreeVcpu_nmsrs c⟩

theorem enomem_lt : -enomem < 0 := by decide

/-- A set-up that fails with no shadow page, and the VMCS as the only allocation of the call, is rolled back. -/
theorem rolledBack_of_setup {c1 : VcpuAlloc} {p : Nat} (hptr : c1.vmcsPtr = some p) (hroot : c1.mmu.rootHpa = none)
    (hfree : c1.freePages = []) (hnmsrs : c1.nmsrs = c.nmsrs) (hlive : c1.live = .vmcs p :: c.live) :
    RolledBack n c (kvmFreeVcpu c1) := by
  refine ⟨?_, fun _ => ?_⟩
  · rw [kvmFreeVcpu_live hroot hfree]
    unfold kvmFreeVmcs
    rw [hptr, hlive]
    exact List.erase_cons_head ..
  · obtain ⟨h1, h2, h3⟩ := kvmFreeVcpu_idle c1
    exact ⟨h1, h2, h3, (kvmFreeVcpu_nmsrs c1).trans hnmsrs⟩

/-- `init_rmode_tss` looks for its pages in the memory slots only. -/
theorem initRmodeTss_isSome {s s' : Vcpu} (h : s'.kvm = s.kvm) : (initRmodeTss s').isSome = (initRmodeTss s).isSome := by
  have hcases : ∀ s : Vcpu, (initRmodeTss s).isSome =
      ((gfnToPageOrNull s.kvm (((rmodeTssBase s.kvm).sshiftRight pageShift).signExtend 64)).isSome &&
      ((gfnToPageOrNull s.kvm (((rmodeTssBase s.kvm).sshiftRight pageShift).signExtend 64 + 1#64)).isSome &&
      (gfnToPageOrNull s.kvm (((rmodeTssBase s.kvm).sshiftRight pageShift).signExtend 64 + 2#64)).isSome)) := by
    intro s
    unfold initRmodeTss
    dsimp only
    generalize gfnToPageOrNull s.kvm (((rmodeTssBase s.kvm).sshiftRight pageShift).signExtend 64) = p1
    generalize gfnToPageOrNull s.kvm (((rmodeTssBase s.kvm).sshiftRight pageShift).signExtend 64 + 1#64) = p2
    generalize gfnToPageOrNull s.kvm (((rmodeTssBase s.kvm).sshiftRight pageShift).signExtend 64 + 2#64) = p3
    cases p1 with
    | none => rfl
    | some p1 =>
      cases p2 with
      | none => rfl
      | some p2 => cases p3 <;> rfl
  rw [hcases, hcases, h]

/-- The state in which the MSR arrays are filled. -/
def VcpuAlloc.withArrays (host : Host) (c : VcpuAlloc) (s : Vcpu) (p q : Nat) : VcpuAlloc :=
  { c.startSetup host s with
    guestMsrsPtr := some p
    guestMsrs := host.kmalloc
    hostMsrsPtr := some q
    hostMsrs := host.kmalloc
    live := .array q :: .array p :: c.live }

/-- When all the arrays are there, the call is all-or-nothing only if it succeeds, and then the MSRs must not have been
counted before. -/
theorem createVcpu_rest {s : Vcpu} {v p q : Nat} (hn : VcpuInRange n) (hnone : c.vmcsPtr = none)
    (hv : allocs.vmcs = some v) (hs : initRmodeTss (c.withVmcs host v).toVcpu = some s) (hp : allocs.guestMsrs = some p)
    (hq : allocs.hostMsrs = some q) : AllOrNothing host allocs c n ↔ (∀ i, (allocs.mmuPages i).isSome = true) ∧
      (host.rdmsrSafe msrEfer).isSome = true ∧ c.nmsrs = 0 := by
  have hcall : kvmDevIoctlCreateVcpu host allocs c n =
      (setupRest host allocs ((c.withVmcs host v).withArrays host s p q)).map fun x =>
        if x.2 < 0 then (kvmFreeVcpu x.1, x.2) else (x.1, 0) := by
    rw [kvmDevIoctlCreateVcpu_setup host hn hnone hv, kvmVcpuSetup_rest hs hp hq]
    rfl
  have hnmsrs : ((c.withVmcs host v).withArrays host s p q).nmsrs = c.nmsrs := rfl
  have hlive : ((c.withVmcs host v).withArrays host s p q).live = .array q :: .array p :: .vmcs v :: c.live := rfl
  have hptr : ((c.withVmcs host v).withArrays host s p q).vmcsPtr = some v := rfl
  have harrays : ((c.withVmcs host v).withArrays host s p q).guestMsrsPtr = some p ∧
    ((c.withVmcs host v).withArrays host s p q).hostMsrsPtr = some q := ⟨rfl, rfl⟩
  generalize (c.withVmcs host v).withArrays host s p q = c2 at hcall hnmsrs hlive hptr harrays
  unfold AllOrNothing
  rw [hcall]
  cases hrest : setupRest host allocs c2 with
  | none =>
    constructor
    · rintro ⟨c', r, hno, -⟩
      cases hno
    · rintro ⟨-, hefer, h0⟩
      have hsome := setupRest_isSome host allocs (hnmsrs.trans h0)
      rw [hrest, hefer] at hsome
      cases hsome
  | some x =>
    obtain ⟨c1, r⟩ := x
    obtain ⟨hloaded, ⟨rfl, hall, hroot⟩ | ⟨rfl, hmissing, hcount⟩⟩ := setupRest_cases hrest
    · have hn0 := hloaded.nmsrs
      have hmsrs := hloaded.msrs
      rw [hnmsrs] at hn0 hmsrs
      constructor
      · rintro ⟨c', r, hcr, hcase⟩
        obtain ⟨rfl, rfl⟩ := Prod.mk.inj (Option.some.inj hcr)
        rcases hcase with ⟨-, hc⟩ | ⟨hlt, -⟩
        · have h0 : c.nmsrs = 0 := by
            have hlen : c1.nmsrs = (supportedMsrs host vmxMsrIndex).length := hc.nmsrs
            omega
          refine ⟨hall, ?_, h0⟩
          rw [← setupRest_isSome host allocs (hnmsrs.trans h0), hrest]
          rfl
        · exact absurd hlt (by decide)
      · rintro ⟨-, -, h0⟩
        rw [h0] at hn0
        refine ⟨c1, 0, rfl, Or.inl ⟨rfl, ?_, ?_, ?_, fun k hk => ?_, hroot⟩⟩
        · rw [hloaded.vmcsPtr, hptr]
          rfl
        · rw [hloaded.arrays.1, hloaded.arrays.2, harrays.1, harrays.2]
          exact ⟨rfl, rfl⟩
        · rw [hn0, Nat.zero_add]
        · have := hmsrs k hk
          rw [h0, Nat.zero_add] at this
          exact this
    · constructor
      · rintro ⟨c', r, hcr, hcase⟩
        obtain ⟨rfl, rfl⟩ := Prod.mk.inj (Option.some.inj hcr)
        rcases hcase with ⟨hno, -⟩ | ⟨-, hback⟩
        · exact absurd hno enomem_ne
        · have hkept : (kvmFreeVcpu c1).live = c.live := hback.live
          have hleak := (kvmFreeVcpu_count c1 p).trans (hcount p)
          rw [hkept, hlive] at hleak
          simp only [List.count_cons] at hleak
          simp at hleak
          omega
      · rintro ⟨hall, -⟩
        exact absurd hall hmissing

/-- **KVM_CREATE_VCPU is all-or-nothing** in every state of a machine exactly under this condition. -/
theorem createVcpu_allOrNothing (host : Host) (allocs : Allocs) (n : Int) (h : CreateReachable c) :
    AllOrNothing host allocs c n ↔ CreateWhen host allocs c n := by
  unfold CreateWhen
  by_cases hn : VcpuInRange n
  · cases hptr : c.vmcsPtr with
    | some p =>
      constructor
      · rintro ⟨c', r, hcr, hcase⟩
        unfold kvmDevIoctlCreateVcpu at hcr
        rw [if_neg (inRange_iff.1 hn), hptr] at hcr
        obtain ⟨rfl, rfl⟩ := Prod.mk.inj (Option.some.inj hcr)
        rcases hcase with ⟨hno, -⟩ | ⟨-, hback⟩
        · exact absurd hno (by decide)
        · have hnone := (hback.vcpu hn).1
          rw [hptr] at hnone
          cases hnone
      · rintro (hno | ⟨hno, -⟩)
        · exact absurd hn hno
        · cases hno
    | none =>
      obtain ⟨hroot, hfree⟩ := h.idle hptr
      cases hv : allocs.vmcs with
      | none => exact iff_of_true (createVcpu_noVmcs h.idle hn hptr hv) (Or.inr ⟨rfl, Or.inl rfl⟩)
      | some v =>
        have htss : (initRmodeTss (c.withVmcs host v).toVcpu).isSome = (initRmodeTss c.toVcpu).isSome :=
          initRmodeTss_isSome rfl
        have hcall := kvmDevIoctlCreateVcpu_setup host hn hptr hv
        rw [← htss]
        cases hs : initRmodeTss (c.withVmcs host v).toVcpu with
        | none =>
          refine iff_of_false ?_ ?_
          · rintro ⟨c', r, hcr, hcase⟩
            rw [hcall, kvmVcpuSetup_noTss hs] at hcr
            obtain ⟨rfl, rfl⟩ := Prod.mk.inj (Option.some.inj hcr)
            rcases hcase with ⟨-, hc⟩ | ⟨hlt, -⟩
            · have hno : c.mmu.rootHpa.isSome = true := hc.root
              rw [hroot] at hno
              cases hno
            · exact absurd hlt (by decide)
          · rintro (hno | ⟨-, hno | ⟨hno, -⟩⟩)
            · exact hno hn
            · cases hno
            · cases hno
        | some s =>
          have hs' := initRmodeTss_lists hs
          have hmem : s.mmu.rootHpa = none ∧ s.freePages = [] := by
            rw [hs']
            exact ⟨hroot, hfree⟩
          cases hp : allocs.guestMsrs with
          | none =>
            refine iff_of_true ?_ (Or.inr ⟨rfl, Or.inr ⟨rfl, Or.inl rfl⟩⟩)
            rw [kvmVcpuSetup_noGuestMsrs hs hp] at hcall
            exact ⟨_, _, hcall, Or.inr ⟨enomem_lt, rolledBack_of_setup rfl hmem.1 hmem.2 rfl rfl⟩⟩
          | some p =>
            cases hq : allocs.hostMsrs with
            | none =>
              refine iff_of_true ?_ (Or.inr ⟨rfl, Or.inr ⟨rfl, Or.inr (Or.inl rfl)⟩⟩)
              rw [kvmVcpuSetup_noHostMsrs hs hp hq] at hcall
              exact ⟨_, _, hcall, Or.inr ⟨enomem_lt, rolledBack_of_setup rfl hmem.1 hmem.2 rfl (List.erase_cons_head ..)⟩⟩
            | some q =>
              rw [createVcpu_rest hn hptr hv hs hp hq]
              simp [hn]
  · refine iff_of_true ⟨c, -einval, ?_, Or.inr ⟨by decide, rfl, fun hno => absurd hno hn⟩⟩ (Or.inl hn)
    unfold kvmDevIoctlCreateVcpu
    rw [if_pos (by_contra fun hno => hn (inRange_iff.2 hno))]

/-- A machine with 16 pages of memory, where all allocations succeed. -/
theorem createVcpu_allOrNothing_smallVm : AllOrNothing eferHost someAllocs smallVm 0 :=
  (createVcpu_allOrNothing eferHost someAllocs 0 (.opened smallVm rfl rfl rfl rfl)).2
    (Or.inr ⟨rfl, Or.inr ⟨smallVm_tss, Or.inr (Or.inr ⟨fun _ => rfl, rfl, rfl⟩)⟩⟩)

/-- A machine without memory: the call returns 0, and there is no context of the MMU. -/
theorem createVcpu_without_memory : ¬∀ host allocs c n, CreateReachable c → AllOrNothing host allocs c n := by
  intro hall
  obtain ⟨c', r, hcr, hcase⟩ := hall eferHost someAllocs default 0 (.opened default rfl rfl rfl rfl)
  have hcall : kvmDevIoctlCreateVcpu eferHost someAllocs default 0 =
      some ((default : VcpuAlloc).withVmcs eferHost 1, 0) := by
    rw [kvmDevIoctlCreateVcpu_setup _ ⟨by decide, by decide⟩ rfl rfl, kvmVcpuSetup_noTss rfl]
    rfl
  rw [hcall] at hcr
  obtain ⟨rfl, rfl⟩ := Prod.mk.inj (Option.some.inj hcr)
  rcases hcase with ⟨-, hc⟩ | ⟨hlt, -⟩
  · exact absurd hc.root (by decide)
  · exact absurd hlt (by decide)

end LearnKvm
