import LearnKvm.Sregs
import LearnKvm.LongMode

/-!
# The shadows of CR0 and CR4 (`enter_pmode`, `enter_rmode`)

Bits of CR0 and CR4 that the hypervisor needs are set in the hardware registers, and the guest sees the values of the
read shadows for them.  Along every run of register writes CR0 is coherent with its shadow, and real mode is emulated
exactly while the guest's CR0.PE is clear (`ModeOp.run_cr0Coherent`).  For CR4 this depends on the guest: on leaving real
mode `enter_pmode` takes CR4.VME from the shadow of CR0, where the bit is PE and clear, so VME is lost
(`not_coherent_of_dropsVme`) and CR4 is coherent along the runs that do not leave real mode with CR4.VME set
(`crShadow_coherent`).
-/

namespace LearnKvm

open Relation

variable {s t : KvmVcpu}

/-- The guest writes a register, or user space replaces the special registers. -/
inductive ModeOp where
  | write (w : GuestWrite)
  | setSregs (sregs : KvmSregs)

def ModeOp.run (s : KvmVcpu) : ModeOp → Option KvmVcpu
  | write w => w.run s
  | setSregs sregs => LearnKvm.setSregs s sregs

/-- Real mode is emulated while PE is clear, and CR0 is the guest's with the bits of the hypervisor. -/
structure Cr0Coherent (s : KvmVcpu) : Prop where
  rmode : s.rmode.active = (guestCr0 s.vmcs &&& cr0PeMask == 0)
  cr0 : vmcsReadl s.vmcs .guestCr0 = guestCr0 s.vmcs ||| kvmVmCr0AlwaysOn

/-- CR4 is the guest's with the bits of the hypervisor. -/
def Cr4Coherent (s : KvmVcpu) : Prop :=
  vmcsReadl s.vmcs .guestCr4 =
    guestCr4 s.vmcs ||| (if s.rmode.active then kvmRmodeVmCr4AlwaysOn else kvmPmodeVmCr4AlwaysOn)

structure CrCoherent (s : KvmVcpu) : Prop extends Cr0Coherent s where
  cr4 : Cr4Coherent s

/-- The operation sets CR0.PE, and so leaves emulated real mode, while the guest's CR4.VME is set. -/
def DropsVme (s : KvmVcpu) : ModeOp → Prop
  | .write (.cr0 v) => cr0Faults s v = some false ∧ s.rmode.active = true ∧ (v &&& cr0PeMask != 0) = true ∧
      (guestCr4 s.vmcs &&& cr4VmeMask != 0) = true
  | .write (.lmsw msw) => (msw &&& cr0PeMask != 0) = true ∧ (guestCr0 s.vmcs &&& cr0PeMask == 0) = true ∧
      (guestCr4 s.vmcs &&& cr4VmeMask != 0) = true
  | _ => False

/-! ### Coherence by bits -/

theorem cr0Coherent_iff : Cr0Coherent s ↔ s.rmode.active = !(s.vmcs .cr0ReadShadow).hasBit 0 ∧
    ∀ i, kvmGuestCr0Mask.hasBit i = true → (s.vmcs .guestCr0).hasBit i = true := by
  have hpe : (guestCr0 s.vmcs &&& cr0PeMask == 0) = !(s.vmcs .cr0ReadShadow).hasBit 0 := by
    rw [← hasBit_guestCr0 s.vmcs (by decide), ← pe_eq]
    exact (Bool.not_not _).symm
  constructor
  · rintro ⟨hr, h0⟩
    refine ⟨hr.trans hpe, fun i hi => ?_⟩
    have := congrArg (BitVec.hasBit · i) h0
    simp only [BitVec.hasBit_or] at this
    rw [show kvmVmCr0AlwaysOn = kvmGuestCr0Mask from rfl, hi, Bool.or_true] at this
    exact this
  · rintro ⟨hr, h0⟩
    refine ⟨hr.trans hpe.symm, BitVec.eq_of_hasBit fun i hi => ?_⟩
    unfold guestCr0 vmcsReadl kvmVmCr0AlwaysOn
    cases hm : kvmGuestCr0Mask.hasBit i with
    | true => simp [hm, h0 i hm]
    | false => simp [hm, hi]

/-- The bits of the hypervisor in CR4. -/
def cr4AlwaysOn (active : Bool) : BitVec 64 := if active then kvmRmodeVmCr4AlwaysOn else kvmPmodeVmCr4AlwaysOn

theorem cr4Coherent_iff : Cr4Coherent s ↔ ∀ i, kvmGuestCr4Mask.hasBit i = true →
    (s.vmcs .guestCr4).hasBit i = ((s.vmcs .cr4ReadShadow).hasBit i || (cr4AlwaysOn s.rmode.active).hasBit i) := by
  have hon : ∀ i, kvmGuestCr4Mask.hasBit i = false → (cr4AlwaysOn s.rmode.active).hasBit i = false := by
    intro i hi
    have hmask : cr4AlwaysOn s.rmode.active = cr4AlwaysOn s.rmode.active &&& kvmGuestCr4Mask := by
      cases s.rmode.active <;> decide
    rw [hmask, BitVec.hasBit_and, hi, Bool.and_false]
  constructor
  · intro h i hi
    have := congrArg (BitVec.hasBit · i) h
    simp only [BitVec.hasBit_or, hasBit_guestCr4 s.vmcs hi] at this
    exact this
  · intro h
    refine BitVec.eq_of_hasBit fun i hi => ?_
    show (s.vmcs .guestCr4).hasBit i = (guestCr4 s.vmcs ||| cr4AlwaysOn s.rmode.active).hasBit i
    rw [BitVec.hasBit_or]
    cases hm : kvmGuestCr4Mask.hasBit i with
    | true => rw [hasBit_guestCr4 s.vmcs hm, h i hm]
    | false =>
      rw [hon i hm, Bool.or_false]
      unfold guestCr4 vmcsReadl
      simp [hm, hi]

theorem ModesKept.cr0Coherent (h : ModesKept s t) (hs : Cr0Coherent s) : Cr0Coherent t := by
  rw [cr0Coherent_iff] at hs ⊢
  rw [h.rmode, h.vmcs .cr0ReadShadow (by decide), h.vmcs .guestCr0 (by decide)]
  exact hs

theorem ModesKept.cr4Coherent (h : ModesKept s t) (hs : Cr4Coherent s) : Cr4Coherent t := by
  rw [cr4Coherent_iff] at hs ⊢
  rw [h.rmode, h.vmcs .cr4ReadShadow (by decide), h.vmcs .guestCr4 (by decide)]
  exact hs

theorem cr4_congr (hr : t.rmode.active = s.rmode.active) (h : ∀ f ∈ [VmcsField.cr4ReadShadow, .guestCr4], t.vmcs f = s.vmcs f) :
    Cr4Coherent t ↔ Cr4Coherent s := by
  rw [cr4Coherent_iff, cr4Coherent_iff, hr, h .cr4ReadShadow (by decide), h .guestCr4 (by decide)]

theorem cr0_congr (hr : t.rmode.active = s.rmode.active) (h : ∀ f ∈ [VmcsField.cr0ReadShadow, .guestCr0], t.vmcs f = s.vmcs f) :
    Cr0Coherent t ↔ Cr0Coherent s := by
  rw [cr0Coherent_iff, cr0Coherent_iff, hr, h .cr0ReadShadow (by decide), h .guestCr0 (by decide)]

/-! ### The switch between the modes -/

theorem cr4AlwaysOn_rmode : cr4AlwaysOn true = cr4AlwaysOn false ||| cr4VmeMask := by decide

theorem cr4VmeMask_hasBit (i : Nat) : cr4VmeMask.hasBit i = decide (i = 0) := Bits.hasBit_one_shiftLeft (by decide) i

/-- `enter_pmode` clears CR4.VME, whatever the guest has set. -/
theorem enterPmode_cr4 (hpe : (s.vmcs .cr0ReadShadow).hasBit 0 = false) (hr : s.rmode.active = true) (hs : Cr4Coherent s) :
    Cr4Coherent (enterPmode s) ↔ (s.vmcs .cr4ReadShadow).hasBit 0 = false := by
  rw [cr4Coherent_iff, hr] at hs
  have hkept : (enterPmode s).vmcs .cr4ReadShadow = s.vmcs .cr4ReadShadow := rfl
  have hnew : (enterPmode s).vmcs .guestCr4 =
      (s.vmcs .guestCr4 &&& ~~~cr4VmeMask) ||| (s.vmcs .cr0ReadShadow &&& cr4VmeMask) := rfl
  have hp0 : (cr4AlwaysOn false).hasBit 0 = false := by decide
  rw [cr4Coherent_iff, hkept, hnew, show (enterPmode s).rmode.active = false from rfl]
  constructor
  · intro h
    have h0 := h 0 (by decide)
    simp only [BitVec.hasBit_or, BitVec.hasBit_and, BitVec.hasBit_not, cr4VmeMask_hasBit, hpe, hp0] at h0
    simpa using h0.symm
  · intro hvme i hi
    have hi64 : i < 64 := by
      by_contra hge
      rw [BitVec.hasBit_of_ge _ (by omega)] at hi
      cases hi
    by_cases h0 : i = 0
    · subst h0
      simp [cr4VmeMask_hasBit, hpe, hp0, hvme]
    · have hold := hs i hi
      rw [cr4AlwaysOn_rmode] at hold
      simp only [BitVec.hasBit_or, cr4VmeMask_hasBit, h0, decide_false, Bool.or_false] at hold
      simp [cr4VmeMask_hasBit, h0, hi64, hold]

/-- `enter_rmode` sets CR4.VME. -/
theorem enterRmode_cr4 (hr : s.rmode.active = false) (hs : Cr4Coherent s) : Cr4Coherent (enterRmode s) := by
  rw [cr4Coherent_iff, hr] at hs
  have hkept : (enterRmode s).vmcs .cr4ReadShadow = s.vmcs .cr4ReadShadow := rfl
  have hnew : (enterRmode s).vmcs .guestCr4 = s.vmcs .guestCr4 ||| cr4VmeMask := rfl
  rw [cr4Coherent_iff, hkept, hnew, show (enterRmode s).rmode.active = true from rfl, cr4AlwaysOn_rmode]
  intro i hi
  rw [BitVec.hasBit_or, BitVec.hasBit_or, hs i hi, Bool.or_assoc]

theorem switchRmode_active (s : KvmVcpu) (v : BitVec 64) : (switchRmode s v).rmode.active = !v.hasBit 0 := by
  rcases switchRmode_cases s v with ⟨heq, h⟩ | ⟨-, hv, heq⟩ | ⟨-, hv, heq⟩
  · rw [heq, h]
  · rw [heq, hv]
    rfl
  · rw [heq, hv]
    rfl

/-- The switch of the mode loses CR4.VME when it leaves real mode. -/
theorem switchRmode_cr4 {v : BitVec 64} (h0 : Cr0Coherent s) (hs : Cr4Coherent s) : Cr4Coherent (switchRmode s v) ↔
    ¬(s.rmode.active = true ∧ v.hasBit 0 = true ∧ (s.vmcs .cr4ReadShadow).hasBit 0 = true) := by
  have hpe := (cr0Coherent_iff.1 h0).1
  rcases switchRmode_cases s v with ⟨heq, hsame⟩ | ⟨hr, hv, heq⟩ | ⟨hr, hv, heq⟩
  · rw [heq]
    refine iff_of_true hs ?_
    rintro ⟨hr, hv, -⟩
    rw [hr, hv] at hsame
    cases hsame
  · rw [heq, enterPmode_cr4 (by simpa [hr] using hpe) hr hs]
    cases (s.vmcs .cr4ReadShadow).hasBit 0 <;> simp [hr, hv]
  · rw [heq]
    refine iff_of_true (enterRmode_cr4 hr hs) ?_
    rintro ⟨hno, -⟩
    rw [hr] at hno
    cases hno

/-- The switch into or out of long mode does not touch CR4. -/
theorem switchLmode_cr4 {v : BitVec 64} (h : switchLmode s v = some t) :
    t.rmode = s.rmode ∧ ∀ f ∈ [VmcsField.cr4ReadShadow, .guestCr4], t.vmcs f = s.vmcs f := by
  rcases switchLmode_cases h with ⟨rfl, -⟩ | ⟨-, -, -, henter⟩ | ⟨-, -, -, rfl⟩
  · exact ⟨rfl, fun _ _ => rfl⟩
  · refine ⟨by rw [henter.eq], fun f hf => henter.kept f ?_ ?_⟩ <;> fin_cases hf <;> decide
  · refine ⟨rfl, fun f hf => ?_⟩
    fin_cases hf <;> rfl

theorem rawSetCr0_cr4 {v : BitVec 64} (h : rawSetCr0 s v = some t) : Cr4Coherent t ↔ Cr4Coherent (switchRmode s v) := by
  obtain ⟨s1, h1, rfl⟩ := Option.map_eq_some_iff.1 h
  obtain ⟨hr, hf⟩ := switchLmode_cr4 h1
  refine cr4_congr (by rw [← hr]; rfl) fun f hmem => ?_
  rw [← hf f hmem]
  fin_cases hmem <;> rfl

theorem cr0Coherent_write {v : BitVec 64} (hr : s.rmode.active = !v.hasBit 0) (h : s.vmcs .cr0ReadShadow = v)
    (h' : s.vmcs .guestCr0 = v ||| kvmVmCr0AlwaysOn) : Cr0Coherent s := by
  rw [cr0Coherent_iff, h, h']
  refine ⟨hr, fun i hi => ?_⟩
  rw [BitVec.hasBit_or, show kvmVmCr0AlwaysOn = kvmGuestCr0Mask from rfl, hi, Bool.or_true]

theorem rawSetCr0_cr0 {v : BitVec 64} (h : rawSetCr0 s v = some t) : Cr0Coherent t := by
  obtain ⟨s1, h1, rfl⟩ := Option.map_eq_some_iff.1 h
  refine cr0Coherent_write (v := v) ?_ rfl rfl
  show s1.rmode.active = _
  rw [(switchLmode_cr4 h1).1, switchRmode_active]

/-! ### The other operations -/

theorem guestPe_eq (v : Vmcs) : (guestCr0 v &&& cr0PeMask == 0) = !(v .cr0ReadShadow).hasBit 0 := by
  rw [← hasBit_guestCr0 v (by decide), ← pe_eq]
  exact (Bool.not_not _).symm

/-- `lmsw` writes bits of CR0 that belong to the guest, and enters protected mode on PE. -/
theorem lmsw_cr0 (msw : BitVec 64) (h0 : Cr0Coherent s) : Cr0Coherent (lmsw s msw) := by
  obtain ⟨hr, hhw⟩ := cr0Coherent_iff.1 h0
  have hmask : ∀ i, kvmGuestCr0Mask.hasBit i = true → lmswGuestMask.hasBit i = false := by
    intro i hi
    have hand : kvmGuestCr0Mask &&& lmswGuestMask = 0#64 := by decide
    have := congrArg (BitVec.hasBit · i) hand
    simpa [hi] using this
  have hwrite : ∀ (x : BitVec 64) (i : Nat), (∀ j, kvmGuestCr0Mask.hasBit j = true → x.hasBit j = true) →
      kvmGuestCr0Mask.hasBit i = true → ((x &&& ~~~lmswGuestMask) ||| (msw &&& lmswGuestMask)).hasBit i = true := by
    intro x i hx hi
    have hi64 : i < 64 := by
      by_contra hge
      rw [BitVec.hasBit_of_ge _ (by omega)] at hi
      cases hi
    simp [hx i hi, hmask i hi, hi64]
  unfold lmsw
  dsimp only
  split
  · refine cr0Coherent_iff.2 ⟨?_, fun i hi => hwrite _ i hhw hi⟩
    have hpe : cr0PeMask.hasBit 0 = true := by decide
    show false = !(guestCr0 s.vmcs ||| cr0PeMask).hasBit 0
    rw [BitVec.hasBit_or, hpe, Bool.or_true]
    rfl
  · exact cr0Coherent_iff.2 ⟨hr, fun i hi => hwrite _ i hhw hi⟩

theorem lmsw_cr4 (msw : BitVec 64) (h0 : Cr0Coherent s) (hs : Cr4Coherent s) : Cr4Coherent (lmsw s msw) ↔
    ¬(msw.hasBit 0 = true ∧ (s.vmcs .cr0ReadShadow).hasBit 0 = false ∧ (s.vmcs .cr4ReadShadow).hasBit 0 = true) := by
  have hr := (cr0Coherent_iff.1 h0).1
  have hcond : (msw &&& cr0PeMask != 0 && guestCr0 s.vmcs &&& cr0PeMask == 0) =
      (msw.hasBit 0 && !(s.vmcs .cr0ReadShadow).hasBit 0) := by rw [pe_eq, guestPe_eq]
  unfold lmsw
  dsimp only
  rw [hcond]
  split
  · rename_i h
    rw [Bool.and_eq_true, Bool.not_eq_true'] at h
    have hpmode := enterPmode_cr4 h.2 (by rw [hr, h.2]; rfl) hs
    refine (cr4_congr (s := enterPmode s) rfl fun f hf => ?_).trans (hpmode.trans ?_)
    · fin_cases hf <;> rfl
    · cases (s.vmcs .cr4ReadShadow).hasBit 0 <;> simp [h.1, h.2]
  · rename_i h
    refine iff_of_true ((cr4_congr (s := s) rfl fun f hf => ?_).2 hs) ?_
    · fin_cases hf <;> rfl
    · rintro ⟨hm, hp, -⟩
      rw [hm, hp] at h
      exact h rfl

theorem rawSetCr4_cr0 (v : BitVec 64) (h0 : Cr0Coherent s) : Cr0Coherent (rawSetCr4 s v) := by
  rw [cr0Coherent_iff] at h0 ⊢
  exact h0

theorem cr4Coherent_write {v : BitVec 64} (h : s.vmcs .cr4ReadShadow = v)
    (h' : s.vmcs .guestCr4 = v ||| cr4AlwaysOn s.rmode.active) : Cr4Coherent s := by
  rw [cr4Coherent_iff, h, h']
  exact fun i _ => BitVec.hasBit_or ..

theorem SregsLoaded.crCoherent {sregs : KvmSregs} (h : SregsLoaded sregs s t) : CrCoherent t := by
  refine ⟨cr0Coherent_write ?_ h.cr0ReadShadow h.guestCr0, cr4Coherent_write h.cr4ReadShadow h.guestCr4⟩
  rw [h.rmode, ← pe_eq]
  exact (Bool.not_not _).symm

theorem setSregs_crCoherent {sregs : KvmSregs} (h : setSregs s sregs = some t) : CrCoherent t := by
  obtain ⟨s1, hloaded, rfl⟩ := setSregs_spec h
  have h1 := hloaded.crCoherent
  split
  · have hkept := ModesKept.resetContext s1
    exact ⟨hkept.cr0Coherent h1.toCr0Coherent, hkept.cr4Coherent h1.cr4⟩
  · exact h1

/-! ### One operation -/

/-- EFER takes no part. -/
theorem setEfer_crFields {v : BitVec 64} (h : setEfer s v = some t) :
    (Cr0Coherent s → Cr0Coherent t) ∧ (Cr4Coherent s → Cr4Coherent t) := by
  rcases setEfer_cases h with hkept | ⟨-, _, _, -, -, hkept⟩
  · exact ⟨hkept.cr0Coherent, hkept.cr4Coherent⟩
  · refine ⟨fun h0 => hkept.cr0Coherent ?_, fun h4 => hkept.cr4Coherent ?_⟩
    · refine (cr0_congr ?_ ?_).2 h0
      · rfl
      · exact fun _ _ => rfl
    · refine (cr4_congr ?_ ?_).2 h4
      · rfl
      · exact fun _ _ => rfl

/-- An operation keeps CR0 coherent. -/
theorem ModeOp.run_cr0 {op : ModeOp} (h0 : Cr0Coherent s) (h : op.run s = some t) : Cr0Coherent t := by
  match op, h with
  | .write (.cr0 v), h =>
    rcases setCr0_cases h with ⟨-, rfl⟩ | ⟨-, s1, h1, rfl⟩
    · exact (ModesKept.injectGp s).cr0Coherent h0
    · exact (ModesKept.resetContext s1).cr0Coherent (rawSetCr0_cr0 h1)
  | .write (.cr3 v), h => exact (setCr3_modesKept h).cr0Coherent h0
  | .write (.cr4 v), h =>
    rcases setCr4_modesKept h with hkept | hkept
    · exact hkept.cr0Coherent h0
    · exact hkept.cr0Coherent (rawSetCr4_cr0 v h0)
  | .write (.efer v), h => exact (setEfer_crFields h).1 h0
  | .write (.lmsw msw), h =>
    obtain rfl := Option.some.inj h
    exact lmsw_cr0 msw h0
  | .setSregs sregs, h => exact (setSregs_crCoherent h).toCr0Coherent

/-- It keeps CR4 coherent exactly when it does not lose VME. -/
theorem ModeOp.run_cr4 {op : ModeOp} (hs : CrCoherent s) (h : op.run s = some t) :
    Cr4Coherent t ↔ ¬DropsVme s op := by
  have hvme : (guestCr4 s.vmcs &&& cr4VmeMask != 0) = (s.vmcs .cr4ReadShadow).hasBit 0 :=
    (Bits.and_one_shiftLeft_bne_zero (by decide) _).trans (hasBit_guestCr4 _ (by decide))
  match op, h with
  | .write (.cr0 v), h =>
    rcases setCr0_cases h with ⟨hf, rfl⟩ | ⟨hf, s1, h1, rfl⟩
    · refine iff_of_true ((ModesKept.injectGp s).cr4Coherent hs.cr4) ?_
      rintro ⟨hno, -⟩
      rw [hf] at hno
      cases hno
    · have hreset : Cr4Coherent s1.resetContext ↔ Cr4Coherent s1 :=
        cr4_congr rfl fun f hf => resetContext_vmcs s1 (by fin_cases hf <;> decide)
      rw [hreset, rawSetCr0_cr4 h1, switchRmode_cr4 hs.toCr0Coherent hs.cr4]
      show _ ↔ ¬(cr0Faults s v = some false ∧ _ ∧ _ ∧ _)
      rw [hf, hvme, pe_eq]
      simp
  | .write (.cr3 v), h => exact iff_of_true ((setCr3_modesKept h).cr4Coherent hs.cr4) id
  | .write (.cr4 v), h =>
    refine iff_of_true ?_ id
    rcases setCr4_modesKept h with hkept | hkept
    · exact hkept.cr4Coherent hs.cr4
    · exact hkept.cr4Coherent (cr4Coherent_write (v := v) rfl rfl)
  | .write (.efer v), h => exact iff_of_true ((setEfer_crFields h).2 hs.cr4) id
  | .write (.lmsw msw), h =>
    obtain rfl := Option.some.inj h
    rw [lmsw_cr4 msw hs.toCr0Coherent hs.cr4]
    show _ ↔ ¬(_ ∧ _ ∧ _)
    rw [hvme, pe_eq, guestPe_eq, Bool.not_eq_true']
  | .setSregs sregs, h => exact iff_of_true (setSregs_crCoherent h).cr4 id

/-! ### Runs -/

theorem RealModeStart.crCoherent (h : RealModeStart s) : CrCoherent s := by
  refine ⟨cr0Coherent_write ?_ h.cr0ReadShadow h.guestCr0, cr4Coherent_write h.cr4ReadShadow ?_⟩
  · rw [h.rmode]
    decide
  · rw [h.guestCr4, h.rmode]
    rfl

/-- Along every run CR0 is coherent. -/
theorem ModeOp.run_cr0Coherent {s₀ : KvmVcpu} (h₀ : SetUp s₀)
    (hrun : ReflTransGen (fun s t => ∃ op : ModeOp, op.run s = some t) s₀ s) : Cr0Coherent s := by
  induction hrun with
  | refl => exact h₀.start.crCoherent.toCr0Coherent
  | tail _ hstep ih =>
    obtain ⟨op, hop⟩ := hstep
    exact ModeOp.run_cr0 ih hop

/-- **CR shadow coherence**, along the runs in which no operation leaves emulated real mode while CR4.VME is set. -/
theorem crShadow_coherent {s₀ : KvmVcpu} (h₀ : SetUp s₀)
    (hrun : ReflTransGen (fun s t => ∃ op : ModeOp, op.run s = some t ∧ ¬DropsVme s op) s₀ s) : CrCoherent s := by
  induction hrun with
  | refl => exact h₀.start.crCoherent
  | tail _ hstep ih =>
    obtain ⟨op, hop, hvme⟩ := hstep
    exact ⟨ModeOp.run_cr0 ih.toCr0Coherent hop, (ModeOp.run_cr4 ih hop).2 hvme⟩

/-- Right after set-up. -/
theorem crShadow_coherent_setUp : ∃ s, SetUp s ∧ CrCoherent s := by
  obtain ⟨s, hs⟩ := setUp_smallVm
  exact ⟨s, hs, crShadow_coherent hs .refl⟩

/-- An operation that leaves real mode with CR4.VME set breaks the coherence. -/
theorem not_coherent_of_dropsVme {op : ModeOp} (hs : CrCoherent s) (hop : DropsVme s op) (h : op.run s = some t) :
    ¬CrCoherent t := fun ht => (ModeOp.run_cr4 hs h).1 ht.cr4 hop

/-- The guest sets CR4.VME in real mode, and enters protected mode. -/
theorem enter_pmode_drops_vme : ¬∀ s₀ s, SetUp s₀ →
    ReflTransGen (fun s t => ∃ op : ModeOp, op.run s = some t) s₀ s → CrCoherent s := by
  intro hall
  obtain ⟨s, hs⟩ := setUp_smallVm
  have hstart := hs.start
  have hpaging : isPaging s.vmcs = false := by
    rw [isPaging_eq, hstart.cr0ReadShadow]
    decide
  have hpdptr : cr4PdptrFaults s cr4VmeMask = some false := by
    unfold cr4PdptrFaults
    rw [hpaging, if_neg (by simp)]
  have h1 : setCr4 s cr4VmeMask = some (rawSetCr4 s cr4VmeMask).resetContext := by
    rw [setCr4_eq, if_neg (by decide), hstart.longMode, if_neg (by simp), hpdptr, ← loadCr4_eq (by decide)]
    rfl
  have hkept := ModesKept.resetContext (rawSetCr4 s cr4VmeMask)
  generalize hs1 : (rawSetCr4 s cr4VmeMask).resetContext = s1 at h1 hkept
  obtain ⟨s2, hset⟩ := setCr0_pe s1
  have hdrops : DropsVme s1 (.write (.cr0 cr0PeMask)) := by
    refine ⟨cr0Faults_pe s1, ?_, by decide, ?_⟩
    · rw [hkept.rmode]
      exact hstart.rmode
    · refine (Bits.and_one_shiftLeft_bne_zero (by decide) _).trans ?_
      rw [hasBit_guestCr4 _ (by decide), hkept.vmcs .cr4ReadShadow (by decide)]
      show cr4VmeMask.hasBit 0 = true
      decide
  have hrun1 : ReflTransGen (fun s t => ∃ op : ModeOp, op.run s = some t) s s1 := .single ⟨.write (.cr4 cr4VmeMask), h1⟩
  exact not_coherent_of_dropsVme (hall s s1 hs hrun1) hdrops hset
    (hall s _ hs (hrun1.tail ⟨.write (.cr0 cr0PeMask), hset⟩))

end LearnKvm
