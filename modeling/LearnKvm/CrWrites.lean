import Mathlib.Tactic.FinCases
import LearnKvm.Registers
import LearnKvm.Mmu.Frame

/-!
# Writes to control registers (`handle_cr`)

A `MOV` to a control register should either take effect, with RIP moved behind the instruction, or raise a general
protection fault and change nothing (`CrAtomic`).  The setters inject the fault and return nothing, and `handle_cr` skips
the instruction in either case; `set_cr4` also goes on after the injection for reserved bits of the page-directory
pointers.  So the write is atomic exactly when it is legal (`crAtomic_iff`), an instruction of length zero apart.
-/

namespace LearnKvm

variable {s t : KvmVcpu} {v : BitVec 64}

/-! ### What the parts of the setters change -/

/-- Fields of the VMCS that the switches between modes leave alone. -/
def switchFields : List VmcsField :=
  [.cr0ReadShadow, .guestCr0, .cr4ReadShadow, .guestRip, .vmEntryIntrInfoField, .vmExitInstructionLen]

/-- Emulated real mode does not touch the entry controls either. -/
def rmodeFields : List VmcsField := .vmEntryControls :: switchFields

theorem enterPmode_kept {f : VmcsField} (hf : f ∈ rmodeFields) : (enterPmode s).vmcs f = s.vmcs f := by
  fin_cases hf <;> rfl

theorem enterRmode_kept {f : VmcsField} (hf : f ∈ rmodeFields) : (enterRmode s).vmcs f = s.vmcs f := by
  fin_cases hf <;> rfl

/-- The states differ at most in the VMCS, outside of these fields, in EFER and its entry of `guest_msrs`, and in what
real mode hides. -/
structure ModeSwitch (fields : List VmcsField) (s s' : KvmVcpu) : Prop where
  eq : s' = { s with rmode := s'.rmode, vmcs := s'.vmcs, shadowEfer := s'.shadowEfer, guestMsrs := s'.guestMsrs }
  kept : ∀ f ∈ fields, s'.vmcs f = s.vmcs f

namespace ModeSwitch

variable {l : List VmcsField}

theorem refl (s : KvmVcpu) : ModeSwitch l s s := ⟨rfl, fun _ _ => rfl⟩

theorem trans {s s' s'' : KvmVcpu} (h : ModeSwitch l s s') (h' : ModeSwitch l s' s'') : ModeSwitch l s s'' :=
  ⟨by rw [h'.eq, h.eq], fun f hf => (h'.kept f hf).trans (h.kept f hf)⟩

end ModeSwitch

theorem switchRmode_modeSwitch (s : KvmVcpu) (cr0 : BitVec 64) : ModeSwitch rmodeFields s (switchRmode s cr0) := by
  have hp : ∀ s, ModeSwitch rmodeFields s (enterPmode s) := fun s => ⟨rfl, fun _ => enterPmode_kept⟩
  have hr : ∀ s, ModeSwitch rmodeFields s (enterRmode s) := fun s => ⟨rfl, fun _ => enterRmode_kept⟩
  unfold switchRmode
  dsimp only
  split
  · split
    · exact (hp s).trans (hr _)
    · exact hp s
  · split
    · exact hr s
    · exact .refl s

theorem switchLmode_modeSwitch {cr0 : BitVec 64} (h : switchLmode s cr0 = some t) : ModeSwitch switchFields s t := by
  have henter : ∀ {s t}, enterLmode s = some t → ModeSwitch switchFields s t := by
    intro s t h
    unfold enterLmode at h
    dsimp only at h
    split at h
    · cases h
    · obtain rfl := Option.some.inj h
      refine ⟨?_, fun f hf => ?_⟩
      · split <;> rfl
      · split <;> fin_cases hf <;> rfl
  have hexit : ∀ s, ModeSwitch switchFields s (exitLmode s) := by
    intro s
    refine ⟨rfl, fun f hf => ?_⟩
    fin_cases hf <;> rfl
  unfold switchLmode at h
  split at h
  · obtain ⟨s1, h1, rfl⟩ := Option.map_eq_some_iff.1 h
    have hs1 : ModeSwitch switchFields s s1 := by
      split at h1
      · exact henter h1
      · obtain rfl := Option.some.inj h1
        exact .refl s
    split
    · exact hs1.trans (hexit s1)
    · exact hs1
  · obtain rfl := Option.some.inj h
    exact .refl s

theorem guestCr0_write (v : Vmcs) (cr0 : BitVec 64) :
    guestCr0 (vmcsWritel (vmcsWritel v .cr0ReadShadow cr0) .guestCr0 (cr0 ||| kvmVmCr0AlwaysOn)) = cr0 := by
  have h : guestCr0 (vmcsWritel (vmcsWritel v .cr0ReadShadow cr0) .guestCr0 (cr0 ||| kvmVmCr0AlwaysOn)) =
      (cr0 &&& kvmGuestCr0Mask) ||| ((cr0 ||| kvmGuestCr0Mask) &&& ~~~kvmGuestCr0Mask) := rfl
  rw [h]
  apply BitVec.eq_of_hasBit
  intro i hi
  cases hm : kvmGuestCr0Mask.hasBit i <;> simp [hm, hi]

theorem guestCr4_write (v : Vmcs) (cr4 on : BitVec 64) (hon : on &&& ~~~kvmGuestCr4Mask = 0) :
    guestCr4 (vmcsWritel (vmcsWritel v .cr4ReadShadow cr4) .guestCr4 (cr4 ||| on)) = cr4 := by
  have h : guestCr4 (vmcsWritel (vmcsWritel v .cr4ReadShadow cr4) .guestCr4 (cr4 ||| on)) =
      (cr4 &&& kvmGuestCr4Mask) ||| ((cr4 ||| on) &&& ~~~kvmGuestCr4Mask) := rfl
  rw [h]
  apply BitVec.eq_of_hasBit
  intro i hi
  have hbit : (on &&& ~~~kvmGuestCr4Mask).hasBit i = false := by
    rw [hon]
    exact BitVec.hasBit_zero i
  cases hm : kvmGuestCr4Mask.hasBit i with
  | false =>
    have hoff : on.hasBit i = false := by simpa [hm, hi] using hbit
    simp [hm, hi, hoff]
  | true => simp [hm]

/-- `rawSetCr0` switches modes and writes the two fields for CR0. -/
theorem rawSetCr0_spec {cr0 : BitVec 64} (h : rawSetCr0 s cr0 = some t) : ∃ s1, ModeSwitch switchFields s s1 ∧
    t = s1.setVmcs (vmcsWritel (vmcsWritel s1.vmcs .cr0ReadShadow cr0) .guestCr0 (cr0 ||| kvmVmCr0AlwaysOn)) := by
  obtain ⟨s1, h1, rfl⟩ := Option.map_eq_some_iff.1 h
  have hr := switchRmode_modeSwitch s cr0
  exact ⟨s1, .trans ⟨hr.eq, fun f hf => hr.kept f (List.mem_cons_of_mem _ hf)⟩ (switchLmode_modeSwitch h1), rfl⟩

/-! ### The end of an exit -/

theorem skipEmulatedInstruction_vmcs (s : KvmVcpu) {f : VmcsField} (h : f ≠ .guestRip) (h' : f ≠ .guestInterruptibilityInfo) :
    (skipEmulatedInstruction s).vmcs f = s.vmcs f := by
  have h1 : ∀ x, vmcsWritel s.vmcs .guestRip x f = s.vmcs f := fun x => vmcsReadl_vmcsWritel_of_ne h
  unfold skipEmulatedInstruction
  dsimp only [KvmVcpu.setVmcs]
  split
  · exact (vmcsReadl_vmcsWritel_of_ne h').trans (h1 _)
  · exact h1 _

theorem skipEmulatedInstruction_rip (s : KvmVcpu) : (skipEmulatedInstruction s).vmcs .guestRip =
    s.vmcs .guestRip + (vmcsRead32 s.vmcs .vmExitInstructionLen).setWidth 64 := by
  unfold skipEmulatedInstruction
  dsimp only [KvmVcpu.setVmcs]
  split <;> rfl

theorem vmcsRead32_vmcsWrite32 (v : Vmcs) (f : VmcsField) (x : BitVec 32) : vmcsRead32 (vmcsWrite32 v f x) f = x := by
  unfold vmcsRead32 vmcsWrite32
  rw [vmcsReadl_vmcsWritel_self]
  exact BitVec.setWidth_setWidth_of_le _ (by decide)

/-- Of the fields of the VMCS, `inject_gp` writes the event and its error code. -/
theorem injectGp_vmcs (v : Vmcs) {f : VmcsField} (h : f ≠ .vmEntryIntrInfoField) (h' : f ≠ .vmEntryExceptionErrorCode) :
    injectGp v f = v f :=
  (vmcsReadl_vmcsWritel_of_ne h).trans (vmcsReadl_vmcsWritel_of_ne h')

/-! ### Atomic writes -/

/-- The control registers that the guest writes with `MOV`. -/
inductive CrReg where
  | cr0 | cr3 | cr4 | cr8

namespace CrReg

def num : CrReg → Nat
  | cr0 => 0
  | cr3 => 3
  | cr4 => 4
  | cr8 => 8

/-- The guest's view of the register. -/
def value (s : KvmVcpu) : CrReg → BitVec 64
  | cr0 => guestCr0 s.vmcs
  | cr3 => s.cr3
  | cr4 => guestCr4 s.vmcs
  | cr8 => s.cr8

end CrReg

/-- `set_cr4` finds reserved bits in the page-directory pointers, in the mode where it looks at them. -/
def cr4PdptrFaults (s : KvmVcpu) (cr4 : BitVec 64) : Option Bool :=
  if !isLongMode s.vmcs && (isPaging s.vmcs && !isPae s.vmcs && cr4 &&& cr4PaeMask != 0) then
    pdptrsHaveReservedBitsSet s.toVcpu s.cr3
  else some false

/-- The value is not legal for the register: one of the checks of its setter fails. -/
def crFaults (s : KvmVcpu) (v : BitVec 64) : CrReg → Option Bool
  | .cr0 => cr0Faults s v
  | .cr3 => cr3HasReservedBits s.toVcpu v
  | .cr4 =>
    if v &&& cr4ReservedBits != 0 then some true
    else if isLongMode s.vmcs && v &&& cr4PaeMask == 0 then some true
    else (cr4PdptrFaults s v).map fun b => b || v &&& cr4VmxeMask != 0
  | .cr8 => some (v &&& cr8ReservedBits != 0)

/-- The exit is a `MOV` to this register from a general register. -/
structure MovToCr (s : KvmVcpu) (cr : CrReg) (reg : Fin 16) : Prop where
  op : (Bits.field 4 2 (vmcsReadl s.vmcs .exitQualification)).toNat = 0
  cr : (Bits.field 0 4 (vmcsReadl s.vmcs .exitQualification)).toNat = cr.num
  reg : (Bits.field 8 4 (vmcsReadl s.vmcs .exitQualification)).toFin = reg

def instructionLen (s : KvmVcpu) : BitVec 64 := (vmcsRead32 s.vmcs .vmExitInstructionLen).setWidth 64

/-- The write has taken effect. -/
structure CrCommitted (cr : CrReg) (v : BitVec 64) (s s' : KvmVcpu) : Prop where
  legal : crFaults s v cr = some false
  noEvent : s'.vmcs .vmEntryIntrInfoField = s.vmcs .vmEntryIntrInfoField
  value : cr.value s' = v
  rip : s'.vmcs .guestRip = s.vmcs .guestRip + instructionLen s

/-- The write has raised a fault, and nothing else. -/
structure CrFaulted (s s' : KvmVcpu) : Prop where
  event : vmcsRead32 s'.vmcs .vmEntryIntrInfoField = exceptionInfo gpVector
  rip : s'.vmcs .guestRip = s.vmcs .guestRip
  registers : ∀ f ∈ [VmcsField.cr0ReadShadow, .cr4ReadShadow, .guestCr0, .guestCr4], s'.vmcs f = s.vmcs f
  cr3 : s'.cr3 = s.cr3
  cr8 : s'.cr8 = s.cr8
  mmu : s'.mmu = s.mmu

/-- The exit handler emulates the write `MOV cr, reg` atomically. -/
def CrAtomic (s : KvmVcpu) (cr : CrReg) (reg : Fin 16) : Prop :=
  ∃ s', handleCr s = some (s', true) ∧ (CrCommitted cr ((vcpuLoadRspRip s).regs reg) s s' ∨ CrFaulted s s')

/-- The setter of a register. -/
def setCr (s : KvmVcpu) (v : BitVec 64) : CrReg → Option KvmVcpu
  | .cr0 => setCr0 s v
  | .cr3 => s.setCr3 v
  | .cr4 => setCr4 s v
  | .cr8 => some (setCr8 s v)

theorem handleCr_eq {cr : CrReg} {reg : Fin 16} (h : MovToCr s cr reg) : handleCr s =
    (setCr (vcpuLoadRspRip s) ((vcpuLoadRspRip s).regs reg) cr).map fun s => (skipEmulatedInstruction s, true) := by
  unfold handleCr
  dsimp only
  rw [h.op, h.cr, h.reg]
  cases cr <;> rfl

/-! ### The setters -/

/-- The fields for CR0 and CR4. -/
def crFields : List VmcsField := [.cr0ReadShadow, .cr4ReadShadow, .guestCr0, .guestCr4]

theorem CrReg.value_congr (hf : ∀ f ∈ crFields, t.vmcs f = s.vmcs f) (h3 : t.cr3 = s.cr3) (h8 : t.cr8 = s.cr8)
    (cr : CrReg) : cr.value t = cr.value s := by
  cases cr with
  | cr0 =>
    show guestCr0 t.vmcs = guestCr0 s.vmcs
    unfold guestCr0 vmcsReadl
    rw [hf .cr0ReadShadow (by decide), hf .guestCr0 (by decide)]
  | cr3 => exact h3
  | cr4 =>
    show guestCr4 t.vmcs = guestCr4 s.vmcs
    unfold guestCr4 vmcsReadl
    rw [hf .cr4ReadShadow (by decide), hf .guestCr4 (by decide)]
  | cr8 => exact h8

/-- What a setter does with a legal value. -/
structure SetSpec (cr : CrReg) (v : BitVec 64) (s t : KvmVcpu) : Prop where
  value : cr.value t = v
  kept : ∀ f ∈ [VmcsField.guestRip, .vmEntryIntrInfoField, .vmExitInstructionLen], t.vmcs f = s.vmcs f

theorem resetContext_vmcs (s : KvmVcpu) {f : VmcsField} (h : f ≠ .guestCr3) : s.resetContext.vmcs f = s.vmcs f :=
  (ContextOnly.kvmMmuResetContext s.toVcpu).vmcs f h

/-- Replacing the context keeps what the setter has done. -/
theorem SetSpec.resetContext {cr : CrReg} (h : SetSpec cr v s t) : SetSpec cr v s t.resetContext := by
  refine ⟨(CrReg.value_congr (fun f hf => resetContext_vmcs t ?_) (ContextOnly.kvmMmuResetContext t.toVcpu).cr3 rfl cr).trans
    h.value, fun f hf => (resetContext_vmcs t ?_).trans (h.kept f hf)⟩
  · fin_cases hf <;> decide
  · fin_cases hf <;> decide

theorem setCr0_legal (h : cr0Faults s v = some false) (ht : setCr0 s v = some t) : SetSpec .cr0 v s t := by
  unfold setCr0 at ht
  rw [h] at ht
  obtain ⟨s1, h1, rfl⟩ := Option.map_eq_some_iff.1 ht
  obtain ⟨s2, h2, rfl⟩ := rawSetCr0_spec h1
  refine SetSpec.resetContext ⟨guestCr0_write _ _, fun f hf => ?_⟩
  refine Eq.trans ?_ (h2.kept f ?_)
  · fin_cases hf <;> rfl
  · fin_cases hf <;> decide

theorem setCr3_legal (h : cr3HasReservedBits s.toVcpu v = some false) : ∃ t, s.setCr3 v = some t ∧ SetSpec .cr3 v s t := by
  refine ⟨{ s with toVcpu := mmuNewCr3 { s.toVcpu with cr3 := v } }, ?_, ?_⟩
  · unfold KvmVcpu.setCr3 setCr3
    rw [h]
    rfl
  · have hnew := ContextOnly.mmuNewCr3 { s.toVcpu with cr3 := v }
    refine ⟨hnew.cr3, fun f hf => hnew.vmcs f ?_⟩
    fin_cases hf <;> decide

theorem rawSetCr4_spec (s : KvmVcpu) (v : BitVec 64) : SetSpec .cr4 v s (rawSetCr4 s v) := by
  refine ⟨guestCr4_write _ _ _ ?_, fun f hf => ?_⟩
  · split <;> decide
  · fin_cases hf <;> rfl

theorem loadCr4_eq (h : (v &&& cr4VmxeMask != 0) = false) (s : KvmVcpu) : loadCr4 s v = (rawSetCr4 s v).resetContext := by
  unfold loadCr4
  rw [if_neg (by rw [h]; decide)]

/-- `set_cr4` by its checks: after reserved bits of the page-directory pointers it goes on. -/
theorem setCr4_eq (s : KvmVcpu) (v : BitVec 64) : setCr4 s v =
    if v &&& cr4ReservedBits != 0 then some s.injectGp
    else if isLongMode s.vmcs && v &&& cr4PaeMask == 0 then some s.injectGp
    else (cr4PdptrFaults s v).map fun b => loadCr4 (if b then s.injectGp else s) v := by
  unfold setCr4 cr4PdptrFaults
  by_cases hr : (v &&& cr4ReservedBits != 0) = true
  · rw [if_pos hr, if_pos hr]
  · rw [if_neg hr, if_neg hr]
    cases hl : isLongMode s.vmcs with
    | true =>
      cases hpae : v &&& cr4PaeMask == 0 <;> rfl
    | false =>
      cases hc : isPaging s.vmcs && !isPae s.vmcs && v &&& cr4PaeMask != 0 with
      | false => rfl
      | true =>
        simp only [Bool.false_eq_true, if_false, if_true, Bool.not_false, Bool.true_and, Bool.false_and]
        cases hp : pdptrsHaveReservedBitsSet s.toVcpu s.cr3 with
        | none => rfl
        | some b => cases b <;> rfl

theorem crFaults_cr4 (s : KvmVcpu) (v : BitVec 64) : crFaults s v .cr4 =
    if v &&& cr4ReservedBits != 0 then some true
    else if isLongMode s.vmcs && v &&& cr4PaeMask == 0 then some true
    else (cr4PdptrFaults s v).map fun b => b || v &&& cr4VmxeMask != 0 := rfl

theorem setCr_legal {cr : CrReg} (h : crFaults s v cr = some false) (ht : setCr s v cr = some t) : SetSpec cr v s t := by
  cases cr with
  | cr0 => exact setCr0_legal h ht
  | cr3 =>
    obtain ⟨t', ht', hspec⟩ := setCr3_legal h
    obtain rfl := Option.some.inj (ht'.symm.trans ht)
    exact hspec
  | cr4 =>
    rw [crFaults_cr4] at h
    have ht : setCr4 s v = some t := ht
    rw [setCr4_eq] at ht
    split at h
    · cases h
    · rename_i hr
      rw [if_neg hr] at ht
      split at h
      · cases h
      · rename_i hl
        rw [if_neg hl] at ht
        obtain ⟨b, hb, hvmxe⟩ := Option.map_eq_some_iff.1 h
        obtain ⟨rfl, hvmxe⟩ := Bool.or_eq_false_iff.1 hvmxe
        rw [hb] at ht
        obtain rfl := Option.some.inj ht
        show SetSpec .cr4 v s (loadCr4 s v)
        rw [loadCr4_eq hvmxe]
        exact (rawSetCr4_spec s v).resetContext
  | cr8 =>
    have hlegal : (v &&& cr8ReservedBits != 0) = false := Option.some.inj h
    obtain rfl := Option.some.inj ht
    unfold setCr8
    rw [if_neg (by rw [hlegal]; decide)]
    exact ⟨rfl, fun _ _ => rfl⟩

/-- The write switches to long mode, for which the entry of `guest_msrs` for EFER is needed. -/
def entersLmode (s : KvmVcpu) (cr0 : BitVec 64) : Bool :=
  s.shadowEfer &&& eferLme != 0 && (!isPaging s.vmcs && cr0 &&& cr0PgMask != 0)

theorem switchRmode_eq (s : KvmVcpu) (cr0 : BitVec 64) :
    switchRmode s cr0 = { s with rmode := (switchRmode s cr0).rmode, vmcs := (switchRmode s cr0).vmcs } := by
  unfold switchRmode
  dsimp only
  split
  · split <;> rfl
  · split <;> rfl

theorem isPaging_congr {v v' : Vmcs} (h : v' .cr0ReadShadow = v .cr0ReadShadow) (h' : v' .guestCr0 = v .guestCr0) :
    isPaging v' = isPaging v := by
  unfold isPaging guestCr0 vmcsReadl
  rw [h, h']

theorem rawSetCr0_isSome (s : KvmVcpu) (cr0 : BitVec 64) :
    (rawSetCr0 s cr0).isSome = (!entersLmode s cr0 || (findMsrEntry s msrEfer).isSome) := by
  have hr := switchRmode_modeSwitch s cr0
  have hpaging : isPaging (switchRmode s cr0).vmcs = isPaging s.vmcs :=
    isPaging_congr (hr.kept _ (by decide)) (hr.kept _ (by decide))
  have heq := switchRmode_eq s cr0
  have hefer : (switchRmode s cr0).shadowEfer = s.shadowEfer := by rw [heq]
  have hfind : findMsrEntry (switchRmode s cr0) msrEfer = findMsrEntry s msrEfer := by
    rw [heq]
    rfl
  have henter : (enterLmode (switchRmode s cr0)).isSome = (findMsrEntry s msrEfer).isSome := by
    have hfind' : ∀ s1 : KvmVcpu, s1 = (if vmcsRead32 (switchRmode s cr0).vmcs .guestTrArBytes &&& arTypeMask != arTypeBusy64Tss then
        (switchRmode s cr0).setVmcs (vmcsWrite32 (switchRmode s cr0).vmcs .guestTrArBytes
          ((vmcsRead32 (switchRmode s cr0).vmcs .guestTrArBytes &&& ~~~arTypeMask) ||| arTypeBusy64Tss))
        else switchRmode s cr0) →
        findMsrEntry { s1 with shadowEfer := s1.shadowEfer ||| eferLma } msrEfer = findMsrEntry s msrEfer := by
      rintro s1 rfl
      rw [← hfind]
      split <;> rfl
    unfold enterLmode
    dsimp only
    rw [hfind' _ rfl]
    cases findMsrEntry s msrEfer <;> rfl
  unfold rawSetCr0 switchLmode entersLmode
  rw [Option.isSome_map, hefer, hpaging]
  cases s.shadowEfer &&& eferLme != 0 with
  | false => rfl
  | true =>
    rw [if_pos rfl, Option.isSome_map]
    cases !isPaging s.vmcs && cr0 &&& cr0PgMask != 0 with
    | false => rfl
    | true =>
      rw [if_pos rfl, henter]
      simp

theorem setCr_isSome {cr : CrReg} (h : crFaults s v cr = some false) :
    (setCr s v cr).isSome = true ↔ (cr = .cr0 → entersLmode s v = true → (findMsrEntry s msrEfer).isSome = true) := by
  cases cr with
  | cr0 =>
    have hfaults : cr0Faults s v = some false := h
    show (setCr0 s v).isSome = true ↔ _
    unfold setCr0
    rw [hfaults]
    dsimp only
    rw [Option.isSome_map, rawSetCr0_isSome]
    cases entersLmode s v <;> simp
  | cr3 =>
    obtain ⟨t, ht, -⟩ := setCr3_legal h
    exact iff_of_true (Option.isSome_iff_exists.2 ⟨t, ht⟩) fun hcr => by cases hcr
  | cr4 =>
    refine iff_of_true ?_ fun hcr => by cases hcr
    show (setCr4 s v).isSome = true
    rw [setCr4_eq]
    split
    · rfl
    · split
      · rfl
      · rename_i hr hl
        rw [crFaults_cr4] at h
        rw [if_neg hr, if_neg hl] at h
        obtain ⟨b, hb, -⟩ := Option.map_eq_some_iff.1 h
        rw [hb]
        rfl
  | cr8 => exact iff_of_true rfl fun hcr => by cases hcr

/-- The fault that `set_cr4` raises without returning. -/
def Cr4PdptrFault (s : KvmVcpu) (v : BitVec 64) (cr : CrReg) : Prop :=
  cr = .cr4 ∧ (v &&& cr4ReservedBits != 0) = false ∧ cr4PdptrFaults s v = some true

/-- For an illegal value the fault is injected, and nothing else happens unless it is the one for reserved bits of the
page-directory pointers in `set_cr4`. -/
theorem setCr_fault {cr : CrReg} (h : crFaults s v cr = some true) (hp : ¬Cr4PdptrFault s v cr) :
    setCr s v cr = some s.injectGp := by
  cases cr with
  | cr0 =>
    have hfaults : cr0Faults s v = some true := h
    show setCr0 s v = _
    unfold setCr0
    rw [hfaults]
  | cr3 =>
    have hfaults : cr3HasReservedBits s.toVcpu v = some true := h
    show (LearnKvm.setCr3 s.toVcpu v).map _ = _
    unfold setCr3
    rw [hfaults]
    rfl
  | cr4 =>
    show setCr4 s v = _
    rw [setCr4_eq]
    rw [crFaults_cr4] at h
    split
    · rfl
    · rename_i hr
      rw [if_neg hr] at h
      split
      · rfl
      · rename_i hl
        rw [if_neg hl] at h
        obtain ⟨b, hb, hvmxe⟩ := Option.map_eq_some_iff.1 h
        cases b with
        | true => exact absurd ⟨rfl, Bool.eq_false_iff.2 hr, hb⟩ hp
        | false =>
          rw [hb]
          have hvmxe : (v &&& cr4VmxeMask != 0) = true := hvmxe
          show some (loadCr4 s v) = _
          unfold loadCr4
          rw [if_pos hvmxe]
  | cr8 =>
    have hfaults : (v &&& cr8ReservedBits != 0) = true := Option.some.inj h
    show some (setCr8 s v) = _
    unfold setCr8
    rw [if_pos hfaults]

theorem setCr_none {cr : CrReg} (h : crFaults s v cr = none) : setCr s v cr = none := by
  cases cr with
  | cr0 =>
    have hfaults : cr0Faults s v = none := h
    show setCr0 s v = _
    unfold setCr0
    rw [hfaults]
  | cr3 =>
    have hfaults : cr3HasReservedBits s.toVcpu v = none := h
    show (LearnKvm.setCr3 s.toVcpu v).map _ = _
    unfold setCr3
    rw [hfaults]
    rfl
  | cr4 =>
    show setCr4 s v = _
    rw [setCr4_eq]
    rw [crFaults_cr4] at h
    split
    · rename_i hr
      rw [if_pos hr] at h
      cases h
    · rename_i hr
      rw [if_neg hr] at h
      split
      · rename_i hl
        rw [if_pos hl] at h
        cases h
      · rename_i hl
        rw [if_neg hl] at h
        rw [Option.map_eq_none_iff.1 h]
        rfl
  | cr8 => cases h

/-! ### The exit handler -/

theorem crFaulted_skip_injectGp (hlen : instructionLen s = 0) : CrFaulted s (skipEmulatedInstruction (vcpuLoadRspRip s).injectGp) := by
  have hkept : ∀ f ∈ crFields, (skipEmulatedInstruction (vcpuLoadRspRip s).injectGp).vmcs f = s.vmcs f := by
    intro f hf
    refine (skipEmulatedInstruction_vmcs _ ?_ ?_).trans (injectGp_vmcs _ ?_ ?_) <;> fin_cases hf <;> decide
  refine ⟨?_, ?_, hkept, rfl, rfl, rfl⟩
  · have hevent : vmcsRead32 (skipEmulatedInstruction (vcpuLoadRspRip s).injectGp).vmcs .vmEntryIntrInfoField =
        vmcsRead32 (injectGp s.vmcs) .vmEntryIntrInfoField := by
      unfold vmcsRead32 vmcsReadl
      rw [skipEmulatedInstruction_vmcs _ (by decide) (by decide)]
      rfl
    rw [hevent]
    exact vmcsRead32_vmcsWrite32 _ _ _
  · rw [skipEmulatedInstruction_rip]
    show s.vmcs .guestRip + instructionLen s = s.vmcs .guestRip
    rw [hlen]
    exact BitVec.add_zero _

/-- Reserved bits in the page-directory pointers let the write to CR4 happen, so the fault is not all that happens. -/
theorem not_crFaulted_of_pdptr {cr : CrReg} (hp : Cr4PdptrFault s v cr) (ht : setCr s v cr = some t) {s' : KvmVcpu}
    (hs' : s'.vmcs .cr4ReadShadow = t.vmcs .cr4ReadShadow) : s'.vmcs .cr4ReadShadow ≠ s.vmcs .cr4ReadShadow := by
  obtain ⟨rfl, hr, hp⟩ := hp
  have ht : setCr4 s v = some t := ht
  have hmode : (!isLongMode s.vmcs && (isPaging s.vmcs && !isPae s.vmcs && v &&& cr4PaeMask != 0)) = true := by
    by_contra hno
    unfold cr4PdptrFaults at hp
    rw [if_neg hno] at hp
    cases hp
  simp only [Bool.and_eq_true, Bool.not_eq_true'] at hmode
  obtain ⟨hlong, ⟨-, hpae⟩, hv⟩ := hmode
  rw [setCr4_eq, if_neg (by rw [hr]; decide), if_neg (by rw [hlong]; simp), hp] at ht
  obtain rfl := Option.some.inj ht
  -- the VMXE bit is among the reserved bits
  have hvmxe : (v &&& cr4VmxeMask != 0) = false := by
    have hmask : cr4VmxeMask = cr4ReservedBits &&& cr4VmxeMask := by decide
    have h0 : v &&& cr4ReservedBits = 0 := by simpa using hr
    rw [hmask, ← BitVec.and_assoc, h0]
    decide
  have hload : (loadCr4 s.injectGp v).vmcs .cr4ReadShadow = v := by
    rw [loadCr4_eq hvmxe, resetContext_vmcs _ (by decide)]
    rfl
  have hs' : s'.vmcs .cr4ReadShadow = (loadCr4 s.injectGp v).vmcs .cr4ReadShadow := hs'
  rw [hs', hload]
  rintro rfl
  have : guestCr4 s.vmcs &&& cr4PaeMask = s.vmcs .cr4ReadShadow &&& cr4PaeMask := by
    unfold guestCr4 vmcsReadl
    apply BitVec.eq_of_hasBit
    intro i hi
    by_cases h5 : i = 5
    · subst h5
      have hm : kvmGuestCr4Mask.hasBit 5 = true := by decide
      simp [hm]
    · have hm : cr4PaeMask.hasBit i = false := by
        unfold cr4PaeMask
        rw [Bits.hasBit_one_shiftLeft (by decide)]
        simpa using h5
      simp [hm]
  unfold isPae at hpae
  rw [this, hv] at hpae
  cases hpae

theorem crFaults_vcpuLoadRspRip (s : KvmVcpu) (v : BitVec 64) (cr : CrReg) :
    crFaults (vcpuLoadRspRip s) v cr = crFaults s v cr := by
  cases cr <;> rfl

/-- The condition for the write to be atomic. -/
def CrAtomicWhen (s : KvmVcpu) (v : BitVec 64) (cr : CrReg) : Prop :=
  (crFaults s v cr = some false ∧ (cr = .cr0 → entersLmode s v = true → (findMsrEntry s msrEfer).isSome = true)) ∨
    (crFaults s v cr = some true ∧ instructionLen s = 0 ∧ ¬Cr4PdptrFault s v cr)

theorem CrAtomic.when {cr : CrReg} {reg : Fin 16} (h : MovToCr s cr reg) (ha : CrAtomic s cr reg) :
    CrAtomicWhen s ((vcpuLoadRspRip s).regs reg) cr := by
  have hv := crFaults_vcpuLoadRspRip s ((vcpuLoadRspRip s).regs reg) cr
  unfold CrAtomic at ha
  rw [handleCr_eq h] at ha
  generalize (vcpuLoadRspRip s).regs reg = v at hv ha ⊢
  obtain ⟨s', hs', hatomic⟩ := ha
  obtain ⟨t, ht, heq⟩ := Option.map_eq_some_iff.1 hs'
  obtain rfl : skipEmulatedInstruction t = s' := congrArg Prod.fst heq
  cases hf : crFaults s v cr with
  | none =>
    rw [setCr_none (hv.trans hf)] at ht
    cases ht
  | some b =>
    cases b with
    | false => exact Or.inl ⟨hf, (setCr_isSome (hv.trans hf)).1 (Option.isSome_iff_exists.2 ⟨t, ht⟩)⟩
    | true =>
      rcases hatomic with hcommit | hfaulted
      · have hlegal := hcommit.legal
        rw [hf] at hlegal
        cases hlegal
      · have hp : ¬Cr4PdptrFault (vcpuLoadRspRip s) v cr := fun hp =>
          not_crFaulted_of_pdptr hp ht (skipEmulatedInstruction_vmcs t (by decide) (by decide))
            (hfaulted.registers _ (by decide))
        refine Or.inr ⟨hf, ?_, hp⟩
        obtain rfl := Option.some.inj ((setCr_fault (hv.trans hf) hp).symm.trans ht)
        have hrip := hfaulted.rip
        rw [skipEmulatedInstruction_rip] at hrip
        have hrip : s.vmcs .guestRip + instructionLen s = s.vmcs .guestRip := hrip
        simpa using hrip

theorem CrAtomicWhen.crAtomic {cr : CrReg} {reg : Fin 16} (h : MovToCr s cr reg)
    (hw : CrAtomicWhen s ((vcpuLoadRspRip s).regs reg) cr) : CrAtomic s cr reg := by
  have hv := crFaults_vcpuLoadRspRip s ((vcpuLoadRspRip s).regs reg) cr
  unfold CrAtomic
  rw [handleCr_eq h]
  generalize (vcpuLoadRspRip s).regs reg = v at hv hw ⊢
  rcases hw with ⟨hf, hefer⟩ | ⟨hf, hlen, hp⟩
  · obtain ⟨t, ht⟩ := Option.isSome_iff_exists.1 ((setCr_isSome (hv.trans hf)).2 hefer)
    have hspec := setCr_legal (hv.trans hf) ht
    rw [ht]
    refine ⟨_, rfl, Or.inl ⟨hf, ?_, ?_, ?_⟩⟩
    · rw [skipEmulatedInstruction_vmcs t (by decide) (by decide)]
      exact hspec.kept _ (by decide)
    · rw [CrReg.value_congr (fun f hf => skipEmulatedInstruction_vmcs t ?_ ?_) rfl rfl]
      · exact hspec.value
      all_goals fin_cases hf <;> decide
    · rw [skipEmulatedInstruction_rip, hspec.kept _ (by decide)]
      unfold instructionLen vmcsRead32 vmcsReadl
      rw [hspec.kept _ (by decide)]
      rfl
  · rw [setCr_fault (hv.trans hf) hp]
    exact ⟨_, rfl, Or.inr (crFaulted_skip_injectGp hlen)⟩

/-- **Control-register writes are fault-atomic** exactly when they are legal, or raise a fault by an instruction of
length zero, other than the fault of `set_cr4` for reserved bits of the page-directory pointers. -/
theorem crAtomic_iff {cr : CrReg} {reg : Fin 16} (h : MovToCr s cr reg) :
    CrAtomic s cr reg ↔ CrAtomicWhen s ((vcpuLoadRspRip s).regs reg) cr :=
  ⟨CrAtomic.when h, CrAtomicWhen.crAtomic h⟩

/-- The guest executes `MOV CR0, RAX` with this value. -/
def movCr0Vcpu (value : BitVec 64) : KvmVcpu :=
  { (default : KvmVcpu) with
    regs := fun _ => value
    vmcs := Function.update (fun _ => 0) .vmExitInstructionLen 3 }

/-- CR0 with PE alone is legal. -/
theorem crAtomic_iff_pe : CrAtomic (movCr0Vcpu cr0PeMask) .cr0 0 :=
  (@crAtomic_iff (movCr0Vcpu cr0PeMask) .cr0 0 ⟨by decide, by decide, by decide⟩).2
    (Or.inl ⟨by decide, fun _ hl => absurd hl (by decide)⟩)

/-- CR0 with PG and without PE raises a fault, and the instruction is skipped. -/
theorem cr0_pg_without_pe : ¬∀ s cr reg, MovToCr s cr reg → CrAtomic s cr reg := by
  intro hall
  have hmov : MovToCr (movCr0Vcpu cr0PgMask) .cr0 0 := ⟨by decide, by decide, by decide⟩
  rcases (hall _ _ _ hmov).when hmov with ⟨hlegal, -⟩ | ⟨-, hlen, -⟩
  · exact absurd hlegal (by decide)
  · exact absurd hlen (by decide)

end LearnKvm
