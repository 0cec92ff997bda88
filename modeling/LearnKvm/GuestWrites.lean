import LearnKvm.CrWrites
import LearnKvm.VcpuSetup
import LearnKvm.Mmu.Conservation

/-!
# Runs of a vcpu that has been set up

What `kvm_vcpu_setup` establishes (`SetUp`), and the writes of the guest to control registers and EFER (`GuestWrite`).
A run of such writes starts in real mode, without paging.
-/

namespace LearnKvm

variable {s t : KvmVcpu}

/-! ### The MSR arrays -/

/-- The entries for the MSRs of a list that can be read. -/
def supportedMsrs (host : Host) (l : List (BitVec 32)) : List VmxMsrEntry :=
  l.filterMap fun index => (host.rdmsrSafe index).map fun data => ⟨index, data⟩

/-- The loop over the MSRs appends the supported ones to both arrays. -/
structure MsrsAppended (new : List VmxMsrEntry) (c c' : VcpuAlloc) : Prop where
  eq : c' = { c with hostMsrs := c'.hostMsrs, guestMsrs := c'.guestMsrs, nmsrs := c'.nmsrs }
  nmsrs : c'.nmsrs = c.nmsrs + new.length
  kept : ∀ i < c.nmsrs, c'.guestMsrs i = c.guestMsrs i ∧ c'.hostMsrs i = c.hostMsrs i
  new : ∀ (k : Nat) (hk : k < new.length),
    c'.guestMsrs (c.nmsrs + k) = new[k] ∧ c'.hostMsrs (c.nmsrs + k) = new[k]

theorem setupMsr_of_none {host : Host} {c : VcpuAlloc} {index : BitVec 32} (h : host.rdmsrSafe index = none) :
    setupMsr host c index = c := by
  unfold setupMsr
  rw [h]

theorem setupMsr_of_some {host : Host} {c : VcpuAlloc} {index : BitVec 32} {data : BitVec 64}
    (h : host.rdmsrSafe index = some data) : setupMsr host c index = { c with
      hostMsrs := Function.update c.hostMsrs c.nmsrs ⟨index, data⟩
      guestMsrs := Function.update c.guestMsrs c.nmsrs ⟨index, data⟩
      nmsrs := c.nmsrs + 1 } := by
  unfold setupMsr
  rw [h]

theorem setupMsr_foldl (host : Host) (l : List (BitVec 32)) (c : VcpuAlloc) :
    MsrsAppended (supportedMsrs host l) c (l.foldl (setupMsr host) c) := by
  induction l generalizing c with
  | nil => exact ⟨rfl, rfl, fun _ _ => ⟨rfl, rfl⟩, fun k hk => absurd hk (by simp [supportedMsrs])⟩
  | cons index l ih =>
    rw [List.foldl_cons]
    cases h : host.rdmsrSafe index with
    | none =>
      have hnew : supportedMsrs host (index :: l) = supportedMsrs host l := by simp [supportedMsrs, h]
      rw [setupMsr_of_none h, hnew]
      exact ih c
    | some data =>
      have hnew : supportedMsrs host (index :: l) = ⟨index, data⟩ :: supportedMsrs host l := by
        simp [supportedMsrs, h]
      rw [setupMsr_of_some h, hnew]
      have hrest := ih { c with
        hostMsrs := Function.update c.hostMsrs c.nmsrs ⟨index, data⟩
        guestMsrs := Function.update c.guestMsrs c.nmsrs ⟨index, data⟩
        nmsrs := c.nmsrs + 1 }
      refine ⟨?_, ?_, fun i hi => ?_, fun k hk => ?_⟩
      · rw [hrest.eq]
      · rw [hrest.nmsrs, List.length_cons]
        show c.nmsrs + 1 + _ = _
        omega
      · obtain ⟨hg, hh⟩ := hrest.kept i (show i < c.nmsrs + 1 by omega)
        exact ⟨hg.trans (Function.update_of_ne (by omega) ..), hh.trans (Function.update_of_ne (by omega) ..)⟩
      · cases k with
        | zero =>
          obtain ⟨hg, hh⟩ := hrest.kept c.nmsrs (show c.nmsrs < c.nmsrs + 1 by omega)
          exact ⟨hg.trans (Function.update_self ..), hh.trans (Function.update_self ..)⟩
        | succ k =>
          have hrest := hrest.new k (by simpa using hk)
          rw [show c.nmsrs + (k + 1) = c.nmsrs + 1 + k by omega]
          exact hrest

theorem mem_supportedMsrs {host : Host} {l : List (BitVec 32)} {e : VmxMsrEntry} :
    e ∈ supportedMsrs host l ↔ e.index ∈ l ∧ host.rdmsrSafe e.index = some e.data := by
  obtain ⟨index, data⟩ := e
  simp only [supportedMsrs, List.mem_filterMap, Option.map_eq_some_iff, VmxMsrEntry.mk.injEq]
  constructor
  · rintro ⟨_, hmem, _, hdata, rfl, rfl⟩
    exact ⟨hmem, hdata⟩
  · rintro ⟨hmem, hdata⟩
    exact ⟨index, hmem, data, hdata, rfl, rfl⟩

/-! ### The entry controls and EFER -/

theorem isLongMode_set (v : Vmcs) (x : BitVec 32) :
    isLongMode (vmcsWrite32 v .vmEntryControls (x ||| vmEntryControlsIa32eMask)) = true := by
  unfold isLongMode
  rw [vmcsRead32_vmcsWrite32]
  refine (Bits.and_one_shiftLeft_bne_zero (by decide) _).trans ?_
  rw [BitVec.hasBit_or, vmEntryControlsIa32eMask, Bits.hasBit_one_shiftLeft (by decide)]
  simp

theorem isLongMode_clear (v : Vmcs) (x : BitVec 32) :
    isLongMode (vmcsWrite32 v .vmEntryControls (x &&& ~~~vmEntryControlsIa32eMask)) = false := by
  unfold isLongMode
  rw [vmcsRead32_vmcsWrite32]
  refine (Bits.and_one_shiftLeft_bne_zero (by decide) _).trans ?_
  rw [BitVec.hasBit_and, BitVec.hasBit_not, vmEntryControlsIa32eMask, Bits.hasBit_one_shiftLeft (by decide)]
  simp

/-- `__set_efer` has loaded a value. -/
structure EferLoaded (efer : BitVec 64) (s t : KvmVcpu) : Prop where
  eq : t = { s with shadowEfer := efer, vmcs := t.vmcs, guestMsrs := t.guestMsrs }
  kept : ∀ f, f ≠ .vmEntryControls → t.vmcs f = s.vmcs f
  longMode : isLongMode t.vmcs = efer.hasBit 10
  msr : ∃ i, findMsrEntry s msrEfer = some i ∧ findMsrEntry t msrEfer = some i ∧
    (t.guestMsrs i).data = if efer.hasBit 10 then efer else efer &&& ~~~eferLme

theorem lma_eq (x : BitVec 64) : (x &&& eferLma != 0) = x.hasBit 10 := Bits.and_one_shiftLeft_bne_zero (by decide) x

theorem lme_eq (x : BitVec 64) : (x &&& eferLme != 0) = x.hasBit 8 := Bits.and_one_shiftLeft_bne_zero (by decide) x

theorem pg_eq (x : BitVec 64) : (x &&& cr0PgMask != 0) = x.hasBit 31 := Bits.and_one_shiftLeft_bne_zero (by decide) x

theorem pe_eq (x : BitVec 64) : (x &&& cr0PeMask != 0) = x.hasBit 0 := Bits.and_one_shiftLeft_bne_zero (by decide) x

theorem rawSetEfer_spec {efer : BitVec 64} (h : rawSetEfer s efer = some t) : EferLoaded efer s t := by
  unfold rawSetEfer at h
  split at h
  · cases h
  · rename_i i hi
    dsimp only at h
    rw [lma_eq] at h
    cases hlma : efer.hasBit 10 with
    | true =>
      rw [hlma, if_pos rfl] at h
      obtain rfl := Option.some.inj h
      refine ⟨rfl, fun f hf => vmcsReadl_vmcsWritel_of_ne hf, ?_, i, hi, ?_, ?_⟩
      · rw [hlma]
        exact isLongMode_set _ _
      · rw [findMsrEntry_setMsr]
        exact hi
      · rw [setMsr_data, if_pos hlma]
    | false =>
      rw [hlma, if_neg (by decide)] at h
      obtain rfl := Option.some.inj h
      refine ⟨rfl, fun f hf => vmcsReadl_vmcsWritel_of_ne hf, ?_, i, hi, ?_, ?_⟩
      · rw [hlma]
        exact isLongMode_clear _ _
      · rw [findMsrEntry_setMsr]
        exact hi
      · rw [setMsr_data, if_neg (by rw [hlma]; decide)]

/-- It dereferences a null pointer exactly when no entry is for EFER. -/
theorem rawSetEfer_isSome (s : KvmVcpu) (efer : BitVec 64) :
    (rawSetEfer s efer).isSome = (findMsrEntry s msrEfer).isSome := by
  unfold rawSetEfer
  cases findMsrEntry s msrEfer with
  | none => rfl
  | some i =>
    dsimp only
    split <;> rfl

/-! ### The modes that CR0 switches -/

/-- `enter_lmode`. -/
structure LmodeEntered (s t : KvmVcpu) : Prop where
  eq : t = { s with shadowEfer := s.shadowEfer ||| eferLma, vmcs := t.vmcs, guestMsrs := t.guestMsrs }
  kept : ∀ f, f ≠ .vmEntryControls → f ≠ .guestTrArBytes → t.vmcs f = s.vmcs f
  longMode : isLongMode t.vmcs = true
  msr : ∃ i, findMsrEntry s msrEfer = some i ∧ findMsrEntry t msrEfer = some i ∧
    (t.guestMsrs i).data = (s.guestMsrs i).data ||| (eferLma ||| eferLme)

/-- After the fix of the access rights of TR, `enter_lmode` sets the bits of EFER and of the entry controls. -/
theorem enterLmode_eq (s : KvmVcpu) : ∃ s1 : KvmVcpu, s1 = { s with vmcs := s1.vmcs } ∧
    (∀ f, f ≠ .guestTrArBytes → s1.vmcs f = s.vmcs f) ∧
    enterLmode s = (findMsrEntry s1 msrEfer).map fun msr =>
      ((({ s1 with shadowEfer := s1.shadowEfer ||| eferLma } : KvmVcpu).setMsr msr
        ((s1.guestMsrs msr).data ||| (eferLma ||| eferLme))).setVmcs (vmcsWrite32 s1.vmcs .vmEntryControls
          (vmcsRead32 s1.vmcs .vmEntryControls ||| vmEntryControlsIa32eMask))) := by
  refine ⟨if vmcsRead32 s.vmcs .guestTrArBytes &&& arTypeMask != arTypeBusy64Tss then
      s.setVmcs (vmcsWrite32 s.vmcs .guestTrArBytes
        ((vmcsRead32 s.vmcs .guestTrArBytes &&& ~~~arTypeMask) ||| arTypeBusy64Tss))
    else s, ?_, fun f hf => ?_, ?_⟩
  · split <;> rfl
  · split
    · exact vmcsReadl_vmcsWritel_of_ne hf
    · rfl
  · unfold enterLmode
    dsimp only
    generalize (if vmcsRead32 s.vmcs .guestTrArBytes &&& arTypeMask != arTypeBusy64Tss then
      s.setVmcs (vmcsWrite32 s.vmcs .guestTrArBytes
        ((vmcsRead32 s.vmcs .guestTrArBytes &&& ~~~arTypeMask) ||| arTypeBusy64Tss))
      else s) = s1
    have hfind : findMsrEntry { s1 with shadowEfer := s1.shadowEfer ||| eferLma } msrEfer = findMsrEntry s1 msrEfer := rfl
    rw [hfind]
    cases findMsrEntry s1 msrEfer <;> rfl

theorem enterLmode_spec (h : enterLmode s = some t) : LmodeEntered s t := by
  obtain ⟨s1, heq, hkept, hs1⟩ := enterLmode_eq s
  rw [hs1, heq] at h
  obtain ⟨i, hi, rfl⟩ := Option.map_eq_some_iff.1 h
  refine ⟨rfl, fun f hf hf' => (vmcsReadl_vmcsWritel_of_ne hf).trans (hkept f hf'), isLongMode_set _ _, i, hi, ?_,
    setMsr_data ..⟩
  exact (findMsrEntry_setMsr ..).trans hi

/-- Long mode is entered and left when PG changes while EFER.LME is set. -/
theorem switchLmode_cases {cr0 : BitVec 64} (h : switchLmode s cr0 = some t) :
    (t = s ∧ (s.shadowEfer.hasBit 8 = true → isPaging s.vmcs = cr0.hasBit 31)) ∨
    (s.shadowEfer.hasBit 8 = true ∧ isPaging s.vmcs = false ∧ cr0.hasBit 31 = true ∧ LmodeEntered s t) ∨
    (s.shadowEfer.hasBit 8 = true ∧ isPaging s.vmcs = true ∧ cr0.hasBit 31 = false ∧ t = exitLmode s) := by
  have hpg : (cr0 &&& cr0PgMask == 0) = !cr0.hasBit 31 := by
    rw [← pg_eq]
    exact (Bool.not_not _).symm
  unfold switchLmode at h
  rw [lme_eq, pg_eq, hpg] at h
  cases hlme : s.shadowEfer.hasBit 8 with
  | false =>
    rw [hlme, if_neg (by decide)] at h
    exact Or.inl ⟨(Option.some.inj h).symm, fun hno => by cases hno⟩
  | true =>
    rw [hlme, if_pos rfl] at h
    obtain ⟨s1, h1, rfl⟩ := Option.map_eq_some_iff.1 h
    cases hnew : cr0.hasBit 31 with
    | true =>
      rw [hnew] at h1
      have hstay : (if (isPaging s1.vmcs && !true) = true then exitLmode s1 else s1) = s1 := if_neg (by simp)
      rw [hstay]
      cases hp : isPaging s.vmcs with
      | true =>
        rw [hp] at h1
        exact Or.inl ⟨(Option.some.inj h1).symm, fun _ => rfl⟩
      | false =>
        rw [hp] at h1
        exact Or.inr (Or.inl ⟨rfl, rfl, rfl, enterLmode_spec h1⟩)
    | false =>
      rw [hnew, Bool.and_false, if_neg (by decide)] at h1
      obtain rfl := Option.some.inj h1
      cases hp : isPaging s.vmcs with
      | true => exact Or.inr (Or.inr ⟨rfl, rfl, rfl, rfl⟩)
      | false => exact Or.inl ⟨rfl, fun _ => rfl⟩

/-- Emulated real mode is entered and left when PE changes. -/
theorem switchRmode_cases (s : KvmVcpu) (cr0 : BitVec 64) :
    (switchRmode s cr0 = s ∧ s.rmode.active = !cr0.hasBit 0) ∨
    (s.rmode.active = true ∧ cr0.hasBit 0 = true ∧ switchRmode s cr0 = enterPmode s) ∨
    (s.rmode.active = false ∧ cr0.hasBit 0 = false ∧ switchRmode s cr0 = enterRmode s) := by
  have hpe : (cr0 &&& cr0PeMask == 0) = !cr0.hasBit 0 := by
    rw [← pe_eq]
    exact (Bool.not_not _).symm
  unfold switchRmode
  rw [pe_eq, hpe]
  cases hnew : cr0.hasBit 0 with
  | true =>
    cases hr : s.rmode.active with
    | true => exact Or.inr (Or.inl ⟨rfl, rfl, rfl⟩)
    | false => exact Or.inl ⟨by simp [hr], rfl⟩
  | false =>
    cases hr : s.rmode.active with
    | true => exact Or.inl ⟨by simp [hr], rfl⟩
    | false => exact Or.inr (Or.inr ⟨rfl, rfl, by simp [hr]⟩)

/-! ### Set-up -/

/-- The vcpu is in emulated real mode, with the values that `kvm_vcpu_setup` gives to the control registers and EFER. -/
structure RealModeStart (s : KvmVcpu) : Prop where
  cr0ReadShadow : s.vmcs .cr0ReadShadow = 0x60000010
  guestCr0 : s.vmcs .guestCr0 = 0x60000010 ||| kvmVmCr0AlwaysOn
  cr4ReadShadow : s.vmcs .cr4ReadShadow = 0
  guestCr4 : s.vmcs .guestCr4 = 0 ||| kvmRmodeVmCr4AlwaysOn
  rmode : s.rmode.active = true
  efer : s.shadowEfer = 0
  longMode : isLongMode s.vmcs = false
  msr : ∃ i, findMsrEntry s msrEfer = some i ∧ (s.guestMsrs i).data = 0
  csAr : vmcsRead32 s.vmcs .guestCsArBytes &&& segmentArLMask = 0

/-- Without PG no mode is entered for which an entry of `guest_msrs` is needed. -/
theorem rawSetCr0_isSome_of_pg {cr0 : BitVec 64} (h : cr0.hasBit 31 = false) (s : KvmVcpu) :
    (rawSetCr0 s cr0).isSome = true := by
  rw [rawSetCr0_isSome]
  unfold entersLmode
  rw [pg_eq, h]
  simp

/-- EFER keeps its entry in `guest_msrs`. -/
theorem switchRmode_find (s : KvmVcpu) (cr0 : BitVec 64) (msr : BitVec 32) :
    findMsrEntry (switchRmode s cr0) msr = findMsrEntry s msr := by
  rw [switchRmode_eq]
  rfl

theorem rawSetCr0_find {cr0 : BitVec 64} (hpg : cr0.hasBit 31 = false) (h : rawSetCr0 s cr0 = some t) (msr : BitVec 32) :
    findMsrEntry t msr = findMsrEntry s msr := by
  obtain ⟨s1, h1, rfl⟩ := Option.map_eq_some_iff.1 h
  rw [← switchRmode_find s cr0 msr]
  rcases switchLmode_cases h1 with ⟨rfl, -⟩ | ⟨-, -, hno, -⟩ | ⟨-, -, -, rfl⟩
  · rfl
  · rw [hpg] at hno
    cases hno
  · rfl

theorem setupMode_isSome (s : KvmVcpu) : (setupMode s).isSome = (findMsrEntry s msrEfer).isSome := by
  have hpg : (0x60000010 : BitVec 64).hasBit 31 = false := by decide
  obtain ⟨s1, h1⟩ := Option.isSome_iff_exists.1 (rawSetCr0_isSome_of_pg hpg s)
  unfold setupMode
  rw [h1, ← rawSetCr0_find hpg h1]
  exact rawSetEfer_isSome (rawSetCr4 s1 0) 0

theorem setupMode_spec (hcs : s.vmcs .guestCsArBytes = 0x9b) (h : setupMode s = some t) : RealModeStart t := by
  have hpe : (0x60000010 : BitVec 64).hasBit 0 = false := by decide
  have hpg : (0x60000010 : BitVec 64).hasBit 31 = false := by decide
  obtain ⟨s1, h1⟩ := Option.isSome_iff_exists.1 (rawSetCr0_isSome_of_pg hpg s)
  unfold setupMode at h
  rw [h1] at h
  have hefer := rawSetEfer_spec h
  -- real mode is active, and CS is not a 64-bit segment
  have hmode : s1.rmode.active = true ∧ vmcsRead32 s1.vmcs .guestCsArBytes &&& segmentArLMask = 0 := by
    have hr : (switchRmode s 0x60000010).rmode.active = true ∧
        vmcsRead32 (switchRmode s 0x60000010).vmcs .guestCsArBytes &&& segmentArLMask = 0 := by
      rcases switchRmode_cases s 0x60000010 with ⟨heq, hact⟩ | ⟨-, hno, -⟩ | ⟨-, -, heq⟩
      · rw [heq]
        refine ⟨hact, ?_⟩
        unfold vmcsRead32 vmcsReadl
        rw [hcs]
        decide
      · rw [hpe] at hno
        cases hno
      · have hf3 : (enterRmode s).vmcs .guestCsArBytes = 0xf3 := rfl
        rw [heq]
        refine ⟨rfl, ?_⟩
        unfold vmcsRead32 vmcsReadl
        rw [hf3]
        decide
    obtain ⟨s2, h2, rfl⟩ := Option.map_eq_some_iff.1 h1
    rcases switchLmode_cases h2 with ⟨rfl, -⟩ | ⟨-, -, hno, -⟩ | ⟨-, -, -, rfl⟩
    · exact hr
    · rw [hpg] at hno
      cases hno
    · exact hr
  have hcr0 : s1.vmcs .cr0ReadShadow = 0x60000010 ∧ s1.vmcs .guestCr0 = 0x60000010 ||| kvmVmCr0AlwaysOn := by
    obtain ⟨s2, -, rfl⟩ := rawSetCr0_spec h1
    exact ⟨rfl, rfl⟩
  have hkept := fun f hf => hefer.kept f hf
  refine ⟨?_, ?_, ?_, ?_, ?_, ?_, ?_, ?_, ?_⟩
  · rw [hkept _ (by decide)]
    exact hcr0.1
  · rw [hkept _ (by decide)]
    exact hcr0.2
  · rw [hkept _ (by decide)]
    rfl
  · rw [hkept _ (by decide)]
    show (0 : BitVec 64) ||| (if s1.rmode.active then kvmRmodeVmCr4AlwaysOn else kvmPmodeVmCr4AlwaysOn) = _
    rw [hmode.1, if_pos rfl]
  · rw [hefer.eq]
    exact hmode.1
  · rw [hefer.eq]
  · rw [hefer.longMode]
    decide
  · obtain ⟨i, -, hi, hdata⟩ := hefer.msr
    exact ⟨i, hi, hdata.trans (by decide)⟩
  · unfold vmcsRead32 vmcsReadl
    rw [hkept _ (by decide)]
    exact hmode.2

theorem setupMode_toVcpu (h : setupMode s = some t) : t.toVcpu = { s.toVcpu with vmcs := t.vmcs } := by
  unfold setupMode at h
  split at h
  · cases h
  · rename_i s1 h1
    obtain ⟨s2, h2, rfl⟩ := rawSetCr0_spec h1
    rw [(rawSetEfer_spec h).eq, h2.eq]
    rfl

theorem enomem_ne : -enomem ≠ 0 := by decide

theorem mmuInit_ok {alloc : Fin 256 → Option Pfn} {c : VcpuAlloc} {s : Vcpu}
    (h : kvmMmuInit alloc c.toVcpu = (s, true)) : c.kvmMmuInit alloc =
      ({ c with toVcpu := s, live := (mmuPagesTaken alloc (List.finRange 256)).map Resource.page ++ c.live }, 0) := by
  unfold VcpuAlloc.kvmMmuInit
  rw [h]

theorem mmuInit_fail {alloc : Fin 256 → Option Pfn} {c : VcpuAlloc} {s : Vcpu}
    (h : kvmMmuInit alloc c.toVcpu = (s, false)) : c.kvmMmuInit alloc =
      ({ c with
        toVcpu := s
        live := freePageList ((mmuPagesTaken alloc (List.finRange 256)).map Resource.page ++ c.live)
          ((mmuPagesTaken alloc (List.finRange 256)).reverse ++ c.freePages) }, -enomem) := by
  unfold VcpuAlloc.kvmMmuInit
  rw [h]

/-- The state of `kvm_vcpu_setup` when it comes to the MSR arrays. -/
def VcpuAlloc.startSetup (host : Host) (c : VcpuAlloc) (s : Vcpu) : VcpuAlloc :=
  { c with toKvmVcpu := setupRegs host { c.toKvmVcpu with toVcpu := s } }

theorem kvmVcpuSetup_noTss {host : Host} {allocs : Allocs} {c : VcpuAlloc} (h : initRmodeTss c.toVcpu = none) :
    kvmVcpuSetup host allocs c = some (c, 0) := by
  unfold kvmVcpuSetup
  rw [h]

theorem kvmVcpuSetup_noGuestMsrs {host : Host} {allocs : Allocs} {c : VcpuAlloc} {s : Vcpu}
    (h : initRmodeTss c.toVcpu = some s) (hg : allocs.guestMsrs = none) :
    kvmVcpuSetup host allocs c = some ({ c.startSetup host s with guestMsrsPtr := none }, -enomem) := by
  unfold kvmVcpuSetup
  rw [h, hg]
  rfl

theorem kvmVcpuSetup_noHostMsrs {host : Host} {allocs : Allocs} {c : VcpuAlloc} {s : Vcpu} {p : Nat}
    (h : initRmodeTss c.toVcpu = some s) (hg : allocs.guestMsrs = some p) (hh : allocs.hostMsrs = none) :
    kvmVcpuSetup host allocs c = some ({ c.startSetup host s with
      guestMsrsPtr := some p
      guestMsrs := host.kmalloc
      hostMsrsPtr := none
      live := (.array p :: c.live).erase (.array p) }, -enomem) := by
  unfold kvmVcpuSetup
  rw [h, hg, hh]
  rfl

theorem kvmVcpuSetup_rest {host : Host} {allocs : Allocs} {c : VcpuAlloc} {s : Vcpu} {p q : Nat}
    (h : initRmodeTss c.toVcpu = some s) (hg : allocs.guestMsrs = some p) (hh : allocs.hostMsrs = some q) :
    kvmVcpuSetup host allocs c = setupRest host allocs { c.startSetup host s with
      guestMsrsPtr := some p
      guestMsrs := host.kmalloc
      hostMsrsPtr := some q
      hostMsrs := host.kmalloc
      live := .array q :: .array p :: c.live } := by
  unfold kvmVcpuSetup
  rw [h, hg, hh]
  rfl

/-- A `kvm_vcpu_setup` that reaches its end has set the mode of a vcpu `s`, and then the pages of `t`. -/
structure SetupReached (allocs : Allocs) (c c' : VcpuAlloc) (s t : KvmVcpu) : Prop where
  mode : setupMode s = some t
  csAr : s.vmcs .guestCsArBytes = 0x9b
  rmode : s.rmode = c.rmode
  lists : s.freePages = c.freePages ∧ s.kvm.activeMmuPages = c.kvm.activeMmuPages ∧ s.failed = c.failed
  mmu : kvmMmuInit allocs.mmuPages t.toVcpu = (c'.toVcpu, true)
  eq : c'.toKvmVcpu = { t with toVcpu := c'.toVcpu }

/-- What `kvm_vcpu_setup` does when it reaches its end. -/
structure SetupDone (allocs : Allocs) (c c' : VcpuAlloc) (t : KvmVcpu) : Prop where
  start : RealModeStart t
  lists : t.freePages = c.freePages ∧ t.kvm.activeMmuPages = c.kvm.activeMmuPages ∧ t.failed = c.failed
  mmu : kvmMmuInit allocs.mmuPages t.toVcpu = (c'.toVcpu, true)
  eq : c'.toKvmVcpu = { t with toVcpu := c'.toVcpu }

theorem setupControls_csAr (host : Host) (n : Nat) (v : Vmcs) :
    setupControls host n v .guestCsArBytes = v .guestCsArBytes := rfl

theorem setupVmcs_csAr (host : Host) (v : Vmcs) : setupVmcs host v .guestCsArBytes = 0x9b := rfl

theorem startSetup_csAr (host : Host) (c : VcpuAlloc) (s : Vcpu) :
    (c.startSetup host s).vmcs .guestCsArBytes = 0x9b := by
  have hv : (c.startSetup host s).vmcs = setupVmcs host s.vmcs := rfl
  rw [hv, setupVmcs_csAr]

theorem setupRest_eq (host : Host) (allocs : Allocs) (c : VcpuAlloc) : setupRest host allocs c =
    (setupMode ((vmxMsrIndex.foldl (setupMsr host) c).toKvmVcpu.setVmcs (setupControls host
      (vmxMsrIndex.foldl (setupMsr host) c).nmsrs (vmxMsrIndex.foldl (setupMsr host) c).vmcs))).map fun s =>
        VcpuAlloc.kvmMmuInit allocs.mmuPages { vmxMsrIndex.foldl (setupMsr host) c with toKvmVcpu := s } := by
  unfold setupRest
  dsimp only
  generalize setupMode _ = m
  cases m <;> rfl

theorem setupRest_reached {host : Host} {allocs : Allocs} {c c' : VcpuAlloc}
    (h : setupRest host allocs c = some (c', 0)) (hcs : c.vmcs .guestCsArBytes = 0x9b) :
    ∃ s t, SetupReached allocs c c' s t := by
  have hmsrs := setupMsr_foldl host vmxMsrIndex c
  rw [setupRest_eq] at h
  generalize vmxMsrIndex.foldl (setupMsr host) c = c1 at h hmsrs
  obtain ⟨t, ht, h⟩ := Option.map_eq_some_iff.1 h
  have hv : c1.vmcs = c.vmcs := by rw [hmsrs.eq]
  cases hinit : kvmMmuInit allocs.mmuPages t.toVcpu with
  | mk s' ok =>
    cases ok with
    | false =>
      rw [mmuInit_fail (c := { c1 with toKvmVcpu := t }) hinit] at h
      exact absurd (congrArg Prod.snd h) enomem_ne
    | true =>
      rw [mmuInit_ok (c := { c1 with toKvmVcpu := t }) hinit] at h
      obtain rfl := congrArg Prod.fst h
      refine ⟨_, t, ht, ?_, ?_, ?_, hinit, rfl⟩
      · show setupControls host c1.nmsrs c1.vmcs .guestCsArBytes = 0x9b
        rw [setupControls_csAr, hv, hcs]
      · rw [hmsrs.eq]
        rfl
      · rw [hmsrs.eq]
        exact ⟨rfl, rfl, rfl⟩

theorem initRmodeTss_lists {s s' : Vcpu} (h : initRmodeTss s = some s') : s' = { s with mem := s'.mem } := by
  unfold initRmodeTss at h
  dsimp only at h
  split at h
  · obtain rfl := Option.some.inj h
    rfl
  · cases h

theorem kvmVcpuSetup_reached {host : Host} {allocs : Allocs} {c c' : VcpuAlloc}
    (htss : (initRmodeTss c.toVcpu).isSome = true) (h : kvmVcpuSetup host allocs c = some (c', 0)) :
    ∃ s t, SetupReached allocs c c' s t := by
  obtain ⟨s, hs⟩ := Option.isSome_iff_exists.1 htss
  cases hg : allocs.guestMsrs with
  | none =>
    rw [kvmVcpuSetup_noGuestMsrs hs hg] at h
    exact absurd (congrArg Prod.snd (Option.some.inj h)) enomem_ne
  | some p =>
    cases hh : allocs.hostMsrs with
    | none =>
      rw [kvmVcpuSetup_noHostMsrs hs hg hh] at h
      exact absurd (congrArg Prod.snd (Option.some.inj h)) enomem_ne
    | some q =>
      rw [kvmVcpuSetup_rest hs hg hh] at h
      obtain ⟨s1, t, ht⟩ := setupRest_reached h (startSetup_csAr host c s)
      have hlists := ht.lists
      rw [initRmodeTss_lists hs] at hlists
      exact ⟨s1, t, ht.mode, ht.csAr, ht.rmode, hlists, ht.mmu, ht.eq⟩

theorem kvmVcpuSetup_done {host : Host} {allocs : Allocs} {c c' : VcpuAlloc}
    (htss : (initRmodeTss c.toVcpu).isSome = true) (h : kvmVcpuSetup host allocs c = some (c', 0)) :
    ∃ t, SetupDone allocs c c' t := by
  obtain ⟨s, t, ht⟩ := kvmVcpuSetup_reached htss h
  refine ⟨t, setupMode_spec ht.csAr ht.mode, ?_, ht.mmu, ht.eq⟩
  rw [setupMode_toVcpu ht.mode]
  exact ht.lists

/-- The state of a vcpu after a `kvm_vcpu_setup` that ran to its end. -/
def SetUp (s : KvmVcpu) : Prop :=
  ∃ (host : Host) (allocs : Allocs) (c c' : VcpuAlloc), (initRmodeTss c.toVcpu).isSome = true ∧
    kvmVcpuSetup host allocs c = some (c', 0) ∧ s = c'.toKvmVcpu

theorem msrEfer_mem : msrEfer ∈ vmxMsrIndex := by decide

/-- EFER has an entry when the processor supports it. -/
theorem findMsrEntry_isSome_of_readable {host : Host} {c : VcpuAlloc} (h : (host.rdmsrSafe msrEfer).isSome = true) :
    (findMsrEntry (vmxMsrIndex.foldl (setupMsr host) c).toKvmVcpu msrEfer).isSome = true := by
  obtain ⟨data, hdata⟩ := Option.isSome_iff_exists.1 h
  have hmsrs := setupMsr_foldl host vmxMsrIndex c
  have hmem : (⟨msrEfer, data⟩ : VmxMsrEntry) ∈ supportedMsrs host vmxMsrIndex :=
    mem_supportedMsrs.2 ⟨msrEfer_mem, hdata⟩
  obtain ⟨k, hk, hnew⟩ := List.mem_iff_getElem.1 hmem
  rw [findMsrEntry_isSome]
  refine ⟨c.nmsrs + k, ?_, ?_⟩
  · have hn := hmsrs.nmsrs
    show c.nmsrs + k < (vmxMsrIndex.foldl (setupMsr host) c).nmsrs
    omega
  · exact congrArg VmxMsrEntry.index ((hmsrs.new k hk).1.trans hnew)

/-- With all that it asks for, set-up succeeds. -/
theorem kvmVcpuSetup_ok {host : Host} {allocs : Allocs} {c : VcpuAlloc} (htss : (initRmodeTss c.toVcpu).isSome = true)
    (hguest : allocs.guestMsrs.isSome = true) (hhost : allocs.hostMsrs.isSome = true)
    (hpages : ∀ i, (allocs.mmuPages i).isSome = true) (hefer : (host.rdmsrSafe msrEfer).isSome = true) :
    ∃ c', kvmVcpuSetup host allocs c = some (c', 0) := by
  obtain ⟨s, hs⟩ := Option.isSome_iff_exists.1 htss
  obtain ⟨p, hp⟩ := Option.isSome_iff_exists.1 hguest
  obtain ⟨q, hq⟩ := Option.isSome_iff_exists.1 hhost
  rw [kvmVcpuSetup_rest hs hp hq, setupRest_eq]
  generalize hc : ({ c.startSetup host s with
    guestMsrsPtr := some p
    guestMsrs := host.kmalloc
    hostMsrsPtr := some q
    hostMsrs := host.kmalloc
    live := .array q :: .array p :: c.live } : VcpuAlloc) = c1
  have hfind := findMsrEntry_isSome_of_readable (c := c1) hefer
  generalize vmxMsrIndex.foldl (setupMsr host) c1 = c2 at hfind ⊢
  have hmode : (setupMode (c2.toKvmVcpu.setVmcs (setupControls host c2.nmsrs c2.vmcs))).isSome = true := by
    rw [setupMode_isSome]
    exact hfind
  obtain ⟨t, ht⟩ := Option.isSome_iff_exists.1 hmode
  rw [ht, Option.map_some, mmuInit_ok (c := { c2 with toKvmVcpu := t }) (kvmMmuInit_of_alloc hpages t.toVcpu)]
  exact ⟨_, rfl⟩

/-- A processor with EFER. -/
def eferHost : Host where
  rdmsrSafe := fun _ => some 0
  tsc := 0
  vmcs := fun _ => 0
  kmalloc := fun _ => ⟨0, 0⟩

def someAllocs : Allocs where
  vmcs := some 1
  guestMsrs := some 2
  hostMsrs := some 3
  mmuPages := somePages

/-- A machine with 16 pages of memory, and no vcpu yet. -/
def smallVm : VcpuAlloc :=
  { (default : VcpuAlloc) with kvm := { (default : Kvm) with
      nmemslots := 1
      memslots := fun i => { baseGfn := 0, npages := if i = 0 then 16 else 0, flags := 0, physMem := 1, dirtyBitmap := 0 }
      pageArray := fun _ i => BitVec.ofNat 40 (i + 1000) } }

theorem smallVm_tss : (initRmodeTss smallVm.toVcpu).isSome = true := rfl

theorem setUp_smallVm : ∃ s, SetUp s := by
  obtain ⟨c', hc'⟩ := @kvmVcpuSetup_ok eferHost someAllocs smallVm smallVm_tss rfl rfl (fun _ => rfl) rfl
  exact ⟨c'.toKvmVcpu, eferHost, someAllocs, smallVm, c', smallVm_tss, hc', rfl⟩

/-! ### What the modes depend on -/

/-- The fields of the VMCS that determine the mode of the guest. -/
def modeFields : List VmcsField := [.cr0ReadShadow, .guestCr0, .cr4ReadShadow, .guestCr4, .vmEntryControls]

/-- The control registers, EFER and emulated real mode are the same. -/
structure ModesKept (s t : KvmVcpu) : Prop where
  vmcs : ∀ f ∈ modeFields, t.vmcs f = s.vmcs f
  rmode : t.rmode = s.rmode
  shadowEfer : t.shadowEfer = s.shadowEfer
  nmsrs : t.nmsrs = s.nmsrs
  guestMsrs : t.guestMsrs = s.guestMsrs

namespace ModesKept

theorem refl (s : KvmVcpu) : ModesKept s s := ⟨fun _ _ => rfl, rfl, rfl, rfl, rfl⟩

theorem trans {s s' s'' : KvmVcpu} (h : ModesKept s s') (h' : ModesKept s' s'') : ModesKept s s'' where
  vmcs f hf := (h'.vmcs f hf).trans (h.vmcs f hf)
  rmode := h'.rmode.trans h.rmode
  shadowEfer := h'.shadowEfer.trans h.shadowEfer
  nmsrs := h'.nmsrs.trans h.nmsrs
  guestMsrs := h'.guestMsrs.trans h.guestMsrs

theorem injectGp (s : KvmVcpu) : ModesKept s s.injectGp := by
  refine ⟨fun f hf => injectGp_vmcs s.vmcs ?_ ?_, rfl, rfl, rfl, rfl⟩ <;> fin_cases hf <;> decide

theorem skipEmulatedInstruction (s : KvmVcpu) : ModesKept s (skipEmulatedInstruction s) := by
  refine ⟨fun f hf => skipEmulatedInstruction_vmcs s ?_ ?_, rfl, rfl, rfl, rfl⟩ <;> fin_cases hf <;> decide

/-- Operations on the context change of the VMCS only GUEST_CR3. -/
theorem contextOnly {v : Vcpu} (h : ContextOnly s.toVcpu v) : ModesKept s { s with toVcpu := v } := by
  refine ⟨fun f hf => h.vmcs f ?_, rfl, rfl, rfl, rfl⟩
  fin_cases hf <;> decide

theorem resetContext (s : KvmVcpu) : ModesKept s s.resetContext := contextOnly (.kvmMmuResetContext s.toVcpu)

theorem isPaging (h : ModesKept s t) : isPaging t.vmcs = LearnKvm.isPaging s.vmcs := by
  rw [isPaging_eq, isPaging_eq, h.vmcs _ (by decide)]

theorem isPae (h : ModesKept s t) : isPae t.vmcs = LearnKvm.isPae s.vmcs := by
  rw [isPae_eq, isPae_eq, h.vmcs _ (by decide)]

theorem isLongMode (h : ModesKept s t) : isLongMode t.vmcs = LearnKvm.isLongMode s.vmcs := by
  rw [isLongMode_eq, isLongMode_eq, h.vmcs _ (by decide)]

theorem findMsrEntry (h : ModesKept s t) (msr : BitVec 32) : findMsrEntry t msr = LearnKvm.findMsrEntry s msr := by
  unfold LearnKvm.findMsrEntry
  rw [h.nmsrs, h.guestMsrs]

theorem rawSetCr4 {v : BitVec 64} (h : ModesKept s t) : ModesKept (rawSetCr4 s v) (rawSetCr4 t v) := by
  refine ⟨fun f hf => ?_, h.rmode, h.shadowEfer, h.nmsrs, h.guestMsrs⟩
  have hactive : t.rmode.active = s.rmode.active := by rw [h.rmode]
  unfold LearnKvm.rawSetCr4 KvmVcpu.setVmcs
  rw [hactive]
  fin_cases hf
  · exact h.vmcs .cr0ReadShadow (by decide)
  · exact h.vmcs .guestCr0 (by decide)
  · rfl
  · rfl
  · exact h.vmcs .vmEntryControls (by decide)

end ModesKept

/-- Set-up leaves the vcpu in real mode. -/
theorem SetUp.start (h : SetUp s) : RealModeStart s := by
  obtain ⟨host, allocs, c, c', htss, hsetup, rfl⟩ := h
  obtain ⟨t, ht⟩ := kvmVcpuSetup_done htss hsetup
  have hctx : ContextOnly t.toVcpu c'.toVcpu := by
    have := ContextOnly.kvmMmuInit allocs.mmuPages t.toVcpu
    rw [ht.mmu] at this
    exact this
  have hkept : ModesKept t c'.toKvmVcpu := by
    rw [ht.eq]
    exact .contextOnly hctx
  obtain ⟨i, hi, hdata⟩ := ht.start.msr
  exact {
    cr0ReadShadow := (hkept.vmcs _ (by decide)).trans ht.start.cr0ReadShadow
    guestCr0 := (hkept.vmcs _ (by decide)).trans ht.start.guestCr0
    cr4ReadShadow := (hkept.vmcs _ (by decide)).trans ht.start.cr4ReadShadow
    guestCr4 := (hkept.vmcs _ (by decide)).trans ht.start.guestCr4
    rmode := by
      rw [hkept.rmode]
      exact ht.start.rmode
    efer := hkept.shadowEfer.trans ht.start.efer
    longMode := hkept.isLongMode.trans ht.start.longMode
    msr := ⟨i, (hkept.findMsrEntry _).trans hi, by rw [hkept.guestMsrs, hdata]⟩
    csAr := by
      unfold vmcsRead32 vmcsReadl
      rw [hctx.vmcs _ (by decide)]
      exact ht.start.csAr }

/-! ### The writes -/

/-- An instruction with which the guest writes a control register or EFER. -/
inductive GuestWrite where
  | cr0 (v : BitVec 64)
  | cr3 (v : BitVec 64)
  | cr4 (v : BitVec 64)
  | efer (v : BitVec 64)
  | lmsw (v : BitVec 64)

/-- The setter that the exit handler calls; `none` is a dereference of a null pointer. -/
def GuestWrite.run (s : KvmVcpu) : GuestWrite → Option KvmVcpu
  | cr0 v => setCr0 s v
  | cr3 v => s.setCr3 v
  | cr4 v => setCr4 s v
  | efer v => setEfer s v
  | lmsw v => some (LearnKvm.lmsw s v)

theorem setCr0_cases {v : BitVec 64} (h : setCr0 s v = some t) :
    (cr0Faults s v = some true ∧ t = s.injectGp) ∨
    (cr0Faults s v = some false ∧ ∃ s1, rawSetCr0 s v = some s1 ∧ t = s1.resetContext) := by
  unfold setCr0 at h
  cases hf : cr0Faults s v with
  | none =>
    rw [hf] at h
    cases h
  | some b =>
    rw [hf] at h
    cases b with
    | true =>
      exact Or.inl ⟨rfl, (Option.some.inj h).symm⟩
    | false =>
      obtain ⟨s1, h1, rfl⟩ := Option.map_eq_some_iff.1 h
      exact Or.inr ⟨rfl, s1, h1, rfl⟩

/-- PE alone is a legal value, and loading it cannot fail. -/
theorem cr0Faults_pe (s : KvmVcpu) : cr0Faults s cr0PeMask = some false := by
  have hpg : (cr0PeMask &&& cr0PgMask != 0) = false := by decide
  unfold cr0Faults
  rw [if_neg (by decide), if_neg (by decide), if_neg (by decide), hpg, Bool.and_false]
  rfl

theorem setCr0_pe (s : KvmVcpu) : ∃ t, setCr0 s cr0PeMask = some t := by
  have hpg : cr0PeMask.hasBit 31 = false := by decide
  obtain ⟨s1, h1⟩ := Option.isSome_iff_exists.1 (rawSetCr0_isSome_of_pg hpg s)
  refine ⟨s1.resetContext, ?_⟩
  unfold setCr0
  rw [cr0Faults_pe, h1]
  rfl

theorem setCr3_cases {v : BitVec 64} (h : s.setCr3 v = some t) :
    t = s.injectGp ∨ t = { s with toVcpu := mmuNewCr3 { s.toVcpu with cr3 := v } } := by
  obtain ⟨s1, h1, rfl⟩ := Option.map_eq_some_iff.1 h
  unfold setCr3 at h1
  split at h1
  · cases h1
  · obtain rfl := Option.some.inj h1
    exact Or.inl rfl
  · obtain rfl := Option.some.inj h1
    exact Or.inr rfl

/-- `set_cr4` raises a fault, or loads the value, perhaps after a fault. -/
theorem setCr4_cases {v : BitVec 64} (h : setCr4 s v = some t) :
    ∃ s1, (s1 = s ∨ s1 = s.injectGp) ∧ (t = s1.injectGp ∨ t = (rawSetCr4 s1 v).resetContext) := by
  have hload : ∀ s1, loadCr4 s1 v = s1.injectGp ∨ loadCr4 s1 v = (rawSetCr4 s1 v).resetContext := by
    intro s1
    unfold loadCr4
    split
    · exact Or.inl rfl
    · exact Or.inr rfl
  rw [setCr4_eq] at h
  split at h
  · exact ⟨s, Or.inl rfl, Or.inl (Option.some.inj h).symm⟩
  · split at h
    · exact ⟨s, Or.inl rfl, Or.inl (Option.some.inj h).symm⟩
    · obtain ⟨b, -, rfl⟩ := Option.map_eq_some_iff.1 h
      cases b with
      | true => exact ⟨s.injectGp, Or.inr rfl, hload _⟩
      | false => exact ⟨s, Or.inl rfl, hload _⟩

theorem setCr3_modesKept {v : BitVec 64} (h : s.setCr3 v = some t) : ModesKept s t := by
  rcases setCr3_cases h with rfl | rfl
  · exact .injectGp s
  · have hset : ModesKept s { s with cr3 := v } := ⟨fun _ _ => rfl, rfl, rfl, rfl, rfl⟩
    exact hset.trans (.contextOnly (.mmuNewCr3 _))

theorem setCr4_modesKept {v : BitVec 64} (h : setCr4 s v = some t) : ModesKept s t ∨ ModesKept (rawSetCr4 s v) t := by
  obtain ⟨s1, hs1, ht⟩ := setCr4_cases h
  have hkept : ModesKept s s1 := by
    rcases hs1 with rfl | rfl
    · exact .refl s1
    · exact .injectGp s
  rcases ht with rfl | rfl
  · exact Or.inl (hkept.trans (.injectGp s1))
  · exact Or.inr (hkept.rawSetCr4.trans (.resetContext _))

theorem injectGp_guestCr3 (s : KvmVcpu) : s.injectGp.vmcs .guestCr3 = s.vmcs .guestCr3 :=
  injectGp_vmcs s.vmcs (f := .guestCr3) (by decide) (by decide)

/-- Of the state of the MMU `set_efer` changes nothing. -/
theorem setEfer_toVcpu {v : BitVec 64} (h : setEfer s v = some t) :
    t.toVcpu = { s.toVcpu with vmcs := t.vmcs } ∧ t.vmcs .guestCr3 = s.vmcs .guestCr3 := by
  unfold setEfer at h
  split at h
  · obtain rfl := Option.some.inj h
    exact ⟨rfl, injectGp_guestCr3 s⟩
  · split at h
    · obtain rfl := Option.some.inj h
      exact ⟨rfl, injectGp_guestCr3 s⟩
    · dsimp only at h
      split at h
      · cases h
      · obtain rfl := Option.some.inj h
        exact ⟨rfl, skipEmulatedInstruction_vmcs _ (by decide) (by decide)⟩

/-- `set_efer` raises a fault, or loads the value with the LMA bit that was set before. -/
theorem setEfer_cases {v : BitVec 64} (h : setEfer s v = some t) : ModesKept s t ∨
    ((isPaging s.vmcs = true → s.shadowEfer.hasBit 8 = v.hasBit 8) ∧ ∃ i efer, findMsrEntry s msrEfer = some i ∧
      efer = (v &&& ~~~eferLma ||| s.shadowEfer &&& eferLma) ∧
      ModesKept (({ s with shadowEfer := efer } : KvmVcpu).setMsr i
        (if efer.hasBit 10 then efer else efer &&& ~~~eferLme)) t) := by
  unfold setEfer at h
  split at h
  · exact Or.inl ((Option.some.inj h) ▸ .injectGp s)
  · split at h
    · exact Or.inl ((Option.some.inj h) ▸ .injectGp s)
    · rename_i hpaging
      have hlme : isPaging s.vmcs = true → s.shadowEfer.hasBit 8 = v.hasBit 8 := by
        intro hp
        have heq : s.shadowEfer &&& eferLme = v &&& eferLme := by simpa [hp] using hpaging
        rw [← lme_eq, ← lme_eq, heq]
      dsimp only at h
      have hfind : findMsrEntry { s with shadowEfer := v &&& ~~~eferLma ||| s.shadowEfer &&& eferLma } msrEfer =
          findMsrEntry s msrEfer := rfl
      rw [hfind] at h
      cases hi : findMsrEntry s msrEfer with
      | none =>
        rw [hi] at h
        cases h
      | some i =>
        rw [hi] at h
        obtain rfl := Option.some.inj h
        refine Or.inr ⟨hlme, i, _, rfl, rfl, ?_⟩
        have hdata : ∀ x : BitVec 64, (if x &&& eferLma == 0 then x &&& ~~~eferLme else x) =
            if x.hasBit 10 then x else x &&& ~~~eferLme := by
          intro x
          have hbit : (x &&& eferLma == 0) = !x.hasBit 10 := by
            rw [← lma_eq]
            exact (Bool.not_not _).symm
          rw [hbit]
          cases x.hasBit 10 <;> rfl
        rw [hdata]
        exact .skipEmulatedInstruction _

end LearnKvm
