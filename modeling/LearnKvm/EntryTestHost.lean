import LearnKvm.EntryTestGuest

/-!
# The check of the host state before an entry (`debug.c`, `vmx-debug.c`)

`vm_entry_test_host` collects the results of its checks in `r`.  The module of 2006 starts with `r = 0` and therefore refuses
every state; the one of 2.6.30 starts with 1.  Both ask `check_canonical`, which looks at bits 63 to 48, where `is_canonical`
of the same file looks at bits 63 to 47.  `vmEntryTestHost_iff` says for which states either version is right.
-/

namespace LearnKvm

namespace EntryTest

variable (arch : Arch)

/-! ### The checks -/

/-- What the processor reports: the MSRs for the fixed bits of CR0 and CR4, and EAX of CPUID 0x80000008. -/
structure HostEnv where
  cr0Fixed0 : BitVec 64
  cr0Fixed1 : BitVec 64
  cr4Fixed0 : BitVec 64
  cr4Fixed1 : BitVec 64
  cpuidEax : BitVec 32

/-- `cr` is an `unsigned long`, and so is its complement. -/
def checkFixedBits (cr fixedBits0 fixedBits1 : BitVec 64) : Bool :=
  if cr &&& fixedBits0 != fixedBits0 then false
  else if ((~~~cr).setWidth arch.bitsPerLong).setWidth 64 &&& ~~~fixedBits1 != ~~~fixedBits1 then false
  else true

def physAddrWidth (env : HostEnv) : Nat := (env.cpuidEax &&& 0xff#32).toNat

def checkCanonical (reg : BitVec 64) : Bool :=
  match arch with
  | .x86_64 =>
    let x := reg.sshiftRight 48
    x == 0#64 || x == ~~~0#64
  | .i386 => true

def checkSelector (rplTi null : Bool) (sel : BitVec 16) : Bool :=
  if rplTi && sel &&& 7#16 != 0#16 then false
  else if null && sel == 0#16 then false
  else true

def vmExitHostAddSpaceSize : BitVec 32 := 1#32 <<< 9

section Code

variable (env : HostEnv) (v : Vmcs)

def host64 : Bool := vmcsRead32 v .vmExitControls &&& vmExitHostAddSpaceSize != 0#32

/-- The body of `vm_entry_test_host`, from the value that `r` starts with. -/
def hostChecks (r : Bool) : Bool :=
  let cr0 := readl arch v .hostCr0
  let cr4 := readl arch v .hostCr4
  let cr3 := readl arch v .hostCr3
  let r := r && checkFixedBits arch cr0 env.cr0Fixed0 env.cr0Fixed1
  let r := r && checkFixedBits arch cr4 env.cr4Fixed0 env.cr4Fixed1
  let r := if cr3 >>> physAddrWidth env != 0#64 then false else r
  let r := r && checkCanonical arch (readl arch v .hostIa32SysenterEip)
  let r := r && checkCanonical arch (readl arch v .hostIa32SysenterEsp)
  let r := r && checkSelector true true (vmcsRead16 v .hostCsSelector)
  let r := r && checkSelector true (!host64 v) (vmcsRead16 v .hostSsSelector)
  let r := r && checkSelector true false (vmcsRead16 v .hostDsSelector)
  let r := r && checkSelector true false (vmcsRead16 v .hostEsSelector)
  let r := r && checkSelector true false (vmcsRead16 v .hostFsSelector)
  let r := r && checkSelector true false (vmcsRead16 v .hostGsSelector)
  let r := r && checkSelector true true (vmcsRead16 v .hostTrSelector)
  match arch with
  | .i386 => r
  | .x86_64 =>
    let r := r && checkCanonical arch (readl arch v .hostFsBase)
    let r := r && checkCanonical arch (readl arch v .hostGsBase)
    let r := r && checkCanonical arch (readl arch v .hostGdtrBase)
    let r := r && checkCanonical arch (readl arch v .hostIdtrBase)
    let r := if !host64 v then false else r
    let r := if cr4 &&& cr4PaeMask == 0#64 then false else r
    r && checkCanonical arch (readl arch v .hostRip)

/-- `vm_entry_test_host` of the module of 2006. -/
def vmEntryTestHost : Bool := hostChecks arch env v false

/-- `vm_entry_test_host` of the module of 2.6.30. -/
def kmodVmEntryTestHost : Bool := hostChecks arch env v true

/-- `vm_entry_test`, from the results for the guest and the host. -/
def vmEntryTest (rg rh : Bool) : Bool := rg && rh

/-! ### The rules -/

/-- The register has every bit of the first MSR and none outside of the second. -/
@[mk_iff] structure FixedBitsRule (cr fixedBits0 fixedBits1 : BitVec 64) : Prop where
  ones : ∀ i, fixedBits0.hasBit i = true → cr.hasBit i = true
  zeros : ∀ i, cr.hasBit i = true → fixedBits1.hasBit i = true

/-- The selectors of the host. -/
def hostSelectors : List VmcsField :=
  [.hostCsSelector, .hostSsSelector, .hostDsSelector, .hostEsSelector, .hostFsSelector, .hostGsSelector, .hostTrSelector]

/-- The addresses that are tested. -/
def testedAddresses : List VmcsField :=
  match arch with
  | .i386 => [.hostIa32SysenterEip, .hostIa32SysenterEsp]
  | .x86_64 =>
    [.hostIa32SysenterEip, .hostIa32SysenterEsp, .hostFsBase, .hostGsBase, .hostGdtrBase, .hostIdtrBase, .hostRip]

@[mk_iff] structure HostStateRules (canonical : BitVec 64 → Prop) : Prop where
  cr0 : FixedBitsRule (readl arch v .hostCr0) env.cr0Fixed0 env.cr0Fixed1
  cr4 : FixedBitsRule (readl arch v .hostCr4) env.cr4Fixed0 env.cr4Fixed1
  cr3 : (readl arch v .hostCr3).toNat < 2 ^ physAddrWidth env
  addresses : ∀ field ∈ testedAddresses arch, canonical (readl arch v field)
  selectors : ∀ field ∈ hostSelectors, (vmcsRead16 v field).toNat % 8 = 0
  cs : vmcsRead16 v .hostCsSelector ≠ 0#16
  ss : host64 v = false → vmcsRead16 v .hostSsSelector ≠ 0#16
  tr : vmcsRead16 v .hostTrSelector ≠ 0#16
  host64 : arch = .x86_64 → host64 v = true
  pae : arch = .x86_64 → (readl arch v .hostCr4).hasBit 5 = true

end Code

/-! ### What the checks ask for -/

/-- On a 32-bit host the complement of the register has no upper half, and a bit there that the second MSR does not allow
counts as set. -/
theorem checkFixedBits_iff (cr fixedBits0 fixedBits1 : BitVec 64) :
    checkFixedBits arch cr fixedBits0 fixedBits1 = true ↔
      FixedBitsRule cr fixedBits0 fixedBits1 ∧ ∀ i, arch.bitsPerLong ≤ i → i < 64 → fixedBits1.hasBit i = true := by
  have hcode : checkFixedBits arch cr fixedBits0 fixedBits1 = true ↔ cr &&& fixedBits0 = fixedBits0 ∧
      ((~~~cr).setWidth arch.bitsPerLong).setWidth 64 &&& ~~~fixedBits1 = ~~~fixedBits1 := by
    unfold checkFixedBits
    by_cases h0 : cr &&& fixedBits0 = fixedBits0 <;>
      by_cases h1 : ((~~~cr).setWidth arch.bitsPerLong).setWidth 64 &&& ~~~fixedBits1 = ~~~fixedBits1 <;> simp [h0, h1]
  have hnot : ∀ i, (((~~~cr).setWidth arch.bitsPerLong).setWidth 64).hasBit i =
      (decide (i < 64 ∧ i < arch.bitsPerLong) && !cr.hasBit i) := by
    intro i
    rw [BitVec.hasBit_setWidth, BitVec.hasBit_setWidth, BitVec.hasBit_not]
    by_cases h64 : i < 64 <;> simp [h64]
  rw [hcode, Bits.and_eq_mask_iff, Bits.and_eq_mask_iff, fixedBitsRule_iff, and_assoc]
  refine and_congr_right fun _ => ?_
  constructor
  · intro hall
    have hclear : ∀ i < 64, fixedBits1.hasBit i = false → i < arch.bitsPerLong ∧ cr.hasBit i = false := by
      intro i hi hf
      have := hall i (by rw [BitVec.hasBit_not]; simp [hi, hf])
      rw [hnot] at this
      simp only [Bool.and_eq_true, decide_eq_true_eq, Bool.not_eq_true'] at this
      exact ⟨this.1.2, this.2⟩
    refine ⟨fun i hi => ?_, fun i hle hi => ?_⟩
    · by_contra hf
      have h64 : i < 64 := by
        by_contra hge
        rw [BitVec.hasBit_of_ge cr (by omega)] at hi
        cases hi
      rw [(hclear i h64 (Bool.eq_false_iff.2 hf)).2] at hi
      cases hi
    · by_contra hf
      have := (hclear i hi (Bool.eq_false_iff.2 hf)).1
      omega
  · rintro ⟨hzeros, hupper⟩ i hi
    rw [BitVec.hasBit_not] at hi
    simp only [Bool.and_eq_true, decide_eq_true_eq, Bool.not_eq_true'] at hi
    rw [hnot]
    have hlt : i < arch.bitsPerLong := by
      by_contra hge
      rw [hupper i (by omega) hi.1] at hi
      simp at hi
    have hcr : cr.hasBit i = false := by
      cases hc : cr.hasBit i with
      | false => rfl
      | true => rw [hzeros i hc] at hi; simp at hi
    simp [hi.1, hlt, hcr]

theorem checkSelector_iff (null : Bool) (sel : BitVec 16) :
    checkSelector true null sel = true ↔ sel.toNat % 8 = 0 ∧ (null = true → sel ≠ 0#16) := by
  have hlow : (sel &&& 7#16).toNat = sel.toNat % 8 := by
    rw [BitVec.toNat_and]
    exact Nat.and_two_pow_sub_one_eq_mod _ 3
  have hbits : sel &&& 7#16 = 0#16 ↔ sel.toNat % 8 = 0 := by
    rw [← BitVec.toNat_inj, hlow]
    rfl
  unfold checkSelector
  rw [← hbits]
  by_cases hrpl : sel &&& 7#16 = 0#16 <;> cases null <;> simp [hrpl]

/-- `check_canonical` looks at bits 63 to 48. -/
theorem checkCanonical_iff (reg : BitVec 64) :
    checkCanonical .x86_64 reg = true ↔ ∀ i, 48 ≤ i → i < 64 → reg.hasBit i = reg.hasBit 63 := by
  have hbit : ∀ i < 64, (reg.sshiftRight 48).hasBit i = reg.hasBit (min (48 + i) 63) := by
    intro i hi
    unfold BitVec.hasBit
    rw [BitVec.getLsbD_sshiftRight]
    by_cases h16 : 48 + i < 64
    · simp [show ¬64 ≤ i by omega, h16, show min (48 + i) 63 = 48 + i by omega]
    · simp [show ¬64 ≤ i by omega, h16, show min (48 + i) 63 = 63 by omega, BitVec.msb_eq_getLsbD_last]
  have hconst : ∀ b : Bool, (∀ i < 64, (reg.sshiftRight 48).hasBit i = b) ↔
      ∀ i, 48 ≤ i → i < 64 → reg.hasBit i = b := by
    intro b
    constructor
    · intro h i h48 hi
      have := h (i - 48) (by omega)
      rwa [hbit _ (by omega), show min (48 + (i - 48)) 63 = i by omega] at this
    · intro h i hi
      rw [hbit i hi]
      exact h _ (by omega) (by omega)
  have hzero : reg.sshiftRight 48 = 0#64 ↔ ∀ i < 64, (reg.sshiftRight 48).hasBit i = false :=
    ⟨fun h i _ => by rw [h, BitVec.hasBit_zero], fun h => BitVec.eq_of_hasBit fun i hi => by
      rw [h i hi, BitVec.hasBit_zero]⟩
  have hones : reg.sshiftRight 48 = ~~~0#64 ↔ ∀ i < 64, (reg.sshiftRight 48).hasBit i = true :=
    ⟨fun h i hi => by rw [h, BitVec.hasBit_not, BitVec.hasBit_zero]; simp [hi], fun h => BitVec.eq_of_hasBit fun i hi => by
      rw [h i hi, BitVec.hasBit_not, BitVec.hasBit_zero]; simp [hi]⟩
  unfold checkCanonical
  simp only [Bool.or_eq_true, beq_iff_eq]
  rw [hzero, hones, hconst, hconst]
  cases h63 : reg.hasBit 63 with
  | false =>
    have hnot : ¬ ∀ i, 48 ≤ i → i < 64 → reg.hasBit i = true := fun h => by
      rw [h 63 (by omega) (by omega)] at h63
      cases h63
    rw [or_iff_left hnot]
  | true =>
    have hnot : ¬ ∀ i, 48 ≤ i → i < 64 → reg.hasBit i = false := fun h => by
      rw [h 63 (by omega) (by omega)] at h63
      cases h63
    rw [or_iff_right hnot]

section Results

variable (env : HostEnv) (v : Vmcs)

/-- The fixed bits of the MSRs allow the half of a register that the host does not have. -/
def UpperAllowed : Prop :=
  ∀ i, arch.bitsPerLong ≤ i → i < 64 → env.cr0Fixed1.hasBit i = true ∧ env.cr4Fixed1.hasBit i = true

theorem hostChecks_false : hostChecks arch env v false = false := by
  unfold hostChecks
  cases arch <;> simp

/-- What the module of 2.6.30 checks. -/
theorem kmodVmEntryTestHost_eq :
    kmodVmEntryTestHost arch env v = true ↔
      HostStateRules arch env v (checkCanonical arch · = true) ∧ UpperAllowed arch env := by
  have hcr3 : readl arch v .hostCr3 >>> physAddrWidth env = 0#64 ↔
      (readl arch v .hostCr3).toNat < 2 ^ physAddrWidth env := by
    rw [← BitVec.toNat_inj, BitVec.toNat_ushiftRight, Nat.shiftRight_eq_div_pow]
    exact Nat.div_eq_zero_iff_lt (Nat.two_pow_pos _)
  have hupper : UpperAllowed arch env ↔
      (∀ i, arch.bitsPerLong ≤ i → i < 64 → env.cr0Fixed1.hasBit i = true) ∧
        ∀ i, arch.bitsPerLong ≤ i → i < 64 → env.cr4Fixed1.hasBit i = true := by
    simp only [UpperAllowed, ← forall_and]
  unfold kmodVmEntryTestHost hostChecks
  rw [hostStateRules_iff, hupper]
  cases arch with
  | i386 =>
    simp only [Bool.true_and, Bool.and_eq_true, checkFixedBits_iff, checkSelector_iff, Bool.if_false_left, Bool.not_eq_true',
      decide_eq_false_iff_not, bne_iff_ne, ne_eq, not_not, hcr3, testedAddresses, hostSelectors, List.forall_mem_cons,
      List.not_mem_nil, false_imp_iff, implies_true, and_true, true_imp_iff, Bool.false_eq_true, and_assoc, reduceCtorEq]
    tauto
  | x86_64 =>
    simp only [Bool.true_and, Bool.and_eq_true, checkFixedBits_iff, checkSelector_iff, Bool.if_false_left, Bool.not_eq_true',
      decide_eq_false_iff_not, bne_iff_ne, ne_eq, not_not, hcr3, testedAddresses, hostSelectors, List.forall_mem_cons,
      List.not_mem_nil, false_imp_iff, implies_true, and_true, true_imp_iff, Bool.false_eq_true, and_assoc, cr4PaeMask,
      Bits.and_one_shiftLeft_beq_zero, Nat.reduceLT, Bool.not_eq_false]
    tauto

/-- All addresses that are tested are canonical in the sense of `is_canonical`. -/
def TestedCanonical : Prop := ∀ field ∈ testedAddresses arch, Canonical (readl arch v field)

/-- The function is right about this state, and so is `vm_entry_test` with it. -/
structure RightVerdict (rg rh : Bool) : Prop where
  host : rh = true ↔ HostStateRules arch env v Canonical
  entry : vmEntryTest rg rh = true ↔ rg = true ∧ HostStateRules arch env v Canonical

variable {arch env v} in
theorem rightVerdict_iff {rg rh : Bool} :
    RightVerdict arch env v rg rh ↔ (rh = true ↔ HostStateRules arch env v Canonical) := by
  refine ⟨RightVerdict.host, fun h => ⟨h, ?_⟩⟩
  unfold vmEntryTest
  rw [Bool.and_eq_true, h]

variable {arch env v} in
theorem HostStateRules.with_addresses {p q : BitVec 64 → Prop} (h : HostStateRules arch env v p)
    (hq : ∀ field ∈ testedAddresses arch, q (readl arch v field)) : HostStateRules arch env v q :=
  { h with addresses := hq }

/-- Canonical addresses pass `check_canonical`. -/
theorem checkCanonical_of_canonical {addr : BitVec 64} (h : Canonical addr) : checkCanonical arch addr = true := by
  cases arch with
  | i386 => rfl
  | x86_64 =>
    rw [checkCanonical_iff]
    intro i h48 hi
    rw [h i (by omega) hi, h 63 (by omega) (by omega)]

/-- The module of 2006 is right iff some rule is broken, since it refuses every state.  The one of 2.6.30 is right iff a rule
is broken that it checks, or the MSRs allow the half of a register that the host does not have and bit 47 of every tested
address is that of the bits above. -/
theorem vmEntryTestHost_iff (rg : Bool) :
    (RightVerdict arch env v rg (vmEntryTestHost arch env v) ↔ ¬ HostStateRules arch env v Canonical) ∧
      (RightVerdict arch env v rg (kmodVmEntryTestHost arch env v) ↔
        ¬ HostStateRules arch env v (checkCanonical arch · = true) ∨ UpperAllowed arch env ∧ TestedCanonical arch v) := by
  rw [rightVerdict_iff, rightVerdict_iff, kmodVmEntryTestHost_eq]
  constructor
  · unfold vmEntryTestHost
    rw [hostChecks_false]
    simp
  · have hloose : HostStateRules arch env v Canonical → HostStateRules arch env v (checkCanonical arch · = true) := fun h =>
      h.with_addresses fun field hf => checkCanonical_of_canonical arch (h.addresses field hf)
    constructor
    · intro h
      by_cases hchecked : HostStateRules arch env v (checkCanonical arch · = true)
      · by_cases hupper : UpperAllowed arch env
        · exact .inr ⟨hupper, (h.1 ⟨hchecked, hupper⟩).addresses⟩
        · -- only a 32-bit host lacks a half, and its addresses are canonical
          have hstated : HostStateRules arch env v Canonical := by
            cases arch with
            | i386 => exact hchecked.with_addresses fun field _ => canonical_readl_i386 v field
            | x86_64 => exact absurd (fun i hi h64 => absurd hi (Nat.not_le.2 h64)) hupper
          exact absurd (h.2 hstated).2 hupper
      · exact .inl hchecked
    · rintro (hbroken | ⟨hupper, htested⟩)
      · exact ⟨fun h => absurd h.1 hbroken, fun h => absurd (hloose h) hbroken⟩
      · exact ⟨fun h => h.1.with_addresses htested, fun h => ⟨hloose h, hupper⟩⟩

end Results

/-! ### States that are not recognised -/

/-- A host state that keeps all rules. -/
def soundHost : Vmcs
  | .hostCr4 => 0x20
  | .vmExitControls => 0x200
  | .hostCsSelector | .hostTrSelector => 8
  | _ => 0

theorem soundHost_addresses : ∀ field ∈ testedAddresses .x86_64, isCanonical .x86_64 (readl .x86_64 soundHost field) = true := by
  decide

/-- The same with bit 47 set in RIP. -/
def looseHost : Vmcs
  | .hostRip => 0x800000000000
  | field => soundHost field

/-- A processor that lets the software choose every bit. -/
def anyBits : HostEnv := ⟨0, ~~~0, 0, ~~~0, 40⟩

/-- Neither version is right about every state: the first refuses `soundHost`, the second accepts an address with bit 47
set and bits 63 to 48 clear. -/
theorem vmEntryTestHost_wrong :
    (¬ ∀ (arch : Arch) (env : HostEnv) (v : Vmcs) (rg : Bool), RightVerdict arch env v rg (vmEntryTestHost arch env v)) ∧
      ¬ ∀ (arch : Arch) (env : HostEnv) (v : Vmcs) (rg : Bool),
        RightVerdict arch env v rg (kmodVmEntryTestHost arch env v) := by
  constructor
  · intro hall
    have hloose : HostStateRules .x86_64 anyBits soundHost (checkCanonical .x86_64 · = true) :=
      ((kmodVmEntryTestHost_eq .x86_64 anyBits soundHost).1 (by decide)).1
    have hrules : HostStateRules .x86_64 anyBits soundHost Canonical :=
      hloose.with_addresses fun field hf => (isCanonical_iff _).1 (soundHost_addresses field hf)
    have hrefused : vmEntryTestHost .x86_64 anyBits soundHost = true := (hall .x86_64 anyBits soundHost true).host.2 hrules
    exact absurd hrefused (by decide)
  · intro hall
    have haccepted : kmodVmEntryTestHost .x86_64 anyBits looseHost = true := by decide
    have hrip := ((hall .x86_64 anyBits looseHost true).host.1 haccepted).addresses .hostRip (by decide)
    exact absurd (hrip 48 (by decide) (by decide)) (by decide)

end EntryTest

end LearnKvm
