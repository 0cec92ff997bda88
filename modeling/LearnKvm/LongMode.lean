import LearnKvm.GuestWrites
import LearnKvm.Mmu.Conservation

/-!
# Long mode (`enter_lmode`, `exit_lmode`, `set_efer`)

That the guest is in long mode is recorded three times: in EFER.LMA, in the controls for VM entry, and in the value of
EFER that is loaded at VM entry, an entry of `guest_msrs`.  The first two always agree with EFER.LME and CR0.PG
(`GuestWrite.run_modeBits`).  The third is not updated when long mode is left, so the three agree along every run in
which the guest does not leave long mode (`longMode_coherent`), and a step that leaves it always breaks the agreement
(`not_coherent_of_leavesLongMode`).
-/

namespace LearnKvm

open Relation

variable {s t : KvmVcpu}

/-- The value of EFER for the processor: outside long mode without LME. -/
def loadedEfer (efer : BitVec 64) : BitVec 64 :=
  if efer &&& eferLma != 0 then efer else efer &&& ~~~(eferLme ||| eferLma)

/-- LMA is set when LME and PG are, and the entry controls say the same. -/
structure ModeBits (s : KvmVcpu) : Prop where
  lma : (s.shadowEfer &&& eferLma != 0) = (s.shadowEfer &&& eferLme != 0 && isPaging s.vmcs)
  ia32e : isLongMode s.vmcs = (s.shadowEfer &&& eferLma != 0)

/-- The entry of `guest_msrs` for EFER holds the value for the processor. -/
def MsrLoaded (s : KvmVcpu) : Prop :=
  ∃ i, findMsrEntry s msrEfer = some i ∧ (s.guestMsrs i).data = loadedEfer s.shadowEfer

structure LongModeCoherent (s : KvmVcpu) : Prop extends ModeBits s where
  msr : MsrLoaded s

/-- The write clears CR0.PG in long mode. -/
def LeavesLongMode (s : KvmVcpu) (w : GuestWrite) : Prop :=
  ∃ v, w = .cr0 v ∧ cr0Faults s v = some false ∧ isLongMode s.vmcs = true ∧ (v &&& cr0PgMask != 0) = false

/-! ### What does not change the mode -/

/-- Paging, EFER, its entry of `guest_msrs` and the entry controls are the same. -/
structure LmodeKept (s t : KvmVcpu) : Prop where
  isPaging : isPaging t.vmcs = isPaging s.vmcs
  isLongMode : isLongMode t.vmcs = isLongMode s.vmcs
  shadowEfer : t.shadowEfer = s.shadowEfer
  nmsrs : t.nmsrs = s.nmsrs
  guestMsrs : t.guestMsrs = s.guestMsrs

namespace LmodeKept

theorem trans {s s' s'' : KvmVcpu} (h : LmodeKept s s') (h' : LmodeKept s' s'') : LmodeKept s s'' where
  isPaging := h'.isPaging.trans h.isPaging
  isLongMode := h'.isLongMode.trans h.isLongMode
  shadowEfer := h'.shadowEfer.trans h.shadowEfer
  nmsrs := h'.nmsrs.trans h.nmsrs
  guestMsrs := h'.guestMsrs.trans h.guestMsrs

theorem findMsrEntry (h : LmodeKept s t) (msr : BitVec 32) : findMsrEntry t msr = LearnKvm.findMsrEntry s msr := by
  unfold LearnKvm.findMsrEntry
  rw [h.nmsrs, h.guestMsrs]

theorem modeBits (h : LmodeKept s t) (hs : ModeBits s) : ModeBits t where
  lma := by rw [h.shadowEfer, h.isPaging, hs.lma]
  ia32e := by rw [h.isLongMode, h.shadowEfer, hs.ia32e]

theorem msrLoaded (h : LmodeKept s t) (hs : MsrLoaded s) : MsrLoaded t := by
  obtain ⟨i, hi, hdata⟩ := hs
  exact ⟨i, (h.findMsrEntry _).trans hi, by rw [h.guestMsrs, h.shadowEfer, hdata]⟩

end LmodeKept

theorem ModesKept.lmodeKept (h : ModesKept s t) : LmodeKept s t :=
  ⟨h.isPaging, h.isLongMode, h.shadowEfer, h.nmsrs, h.guestMsrs⟩

theorem rawSetCr4_lmodeKept (s : KvmVcpu) (v : BitVec 64) : LmodeKept s (rawSetCr4 s v) where
  isPaging := by
    rw [isPaging_eq, isPaging_eq]
    rfl
  isLongMode := by
    rw [isLongMode_eq, isLongMode_eq]
    rfl
  shadowEfer := rfl
  nmsrs := rfl
  guestMsrs := rfl

theorem switchRmode_lmodeKept (s : KvmVcpu) (v : BitVec 64) : LmodeKept s (switchRmode s v) where
  isPaging := by
    rw [isPaging_eq, isPaging_eq, (switchRmode_modeSwitch s v).kept _ (by decide)]
  isLongMode := by
    rw [isLongMode_eq, isLongMode_eq, (switchRmode_modeSwitch s v).kept _ (by decide)]
  shadowEfer := by rw [switchRmode_eq]
  nmsrs := by rw [switchRmode_eq]
  guestMsrs := by rw [switchRmode_eq]

/-- `lmsw` writes PE, which does not take part. -/
theorem lmsw_lmodeKept (s : KvmVcpu) (msw : BitVec 64) : LmodeKept s (lmsw s msw) := by
  unfold lmsw
  dsimp only
  split
  · refine ⟨?_, ?_, rfl, rfl, rfl⟩
    · rw [isPaging_eq, isPaging_eq]
      show (guestCr0 s.vmcs ||| cr0PeMask).hasBit 31 = _
      have hpe : cr0PeMask.hasBit 31 = false := by decide
      rw [BitVec.hasBit_or, hasBit_guestCr0 _ (by decide), hpe, Bool.or_false]
    · rw [isLongMode_eq, isLongMode_eq]
      exact congrArg (BitVec.hasBit · 9) (enterPmode_kept (f := .vmEntryControls) (by decide))
  · refine ⟨?_, ?_, rfl, rfl, rfl⟩
    · rw [isPaging_eq, isPaging_eq]
      rfl
    · rw [isLongMode_eq, isLongMode_eq]
      rfl

/-! ### One write -/

theorem loadedEfer_of_lma {x : BitVec 64} (h : x.hasBit 10 = true) : loadedEfer x = x := by
  unfold loadedEfer
  rw [lma_eq, h, if_pos rfl]

theorem loadedEfer_of_not_lma {x : BitVec 64} (h : x.hasBit 10 = false) :
    loadedEfer x = x &&& ~~~(eferLme ||| eferLma) := by
  unfold loadedEfer
  rw [lma_eq, h, if_neg (by decide)]

/-- What `__set_efer` and `set_efer` load is the value for the processor. -/
theorem loadedEfer_eq (x : BitVec 64) : (if x.hasBit 10 then x else x &&& ~~~eferLme) = loadedEfer x := by
  cases h : x.hasBit 10 with
  | true => rw [if_pos rfl, loadedEfer_of_lma h]
  | false =>
    rw [if_neg (by decide), loadedEfer_of_not_lma h]
    apply BitVec.eq_of_hasBit
    intro i hi
    by_cases hi10 : i = 10
    · subst hi10
      simp [h]
    · have hbit : eferLma.hasBit i = false := by
        unfold eferLma
        rw [Bits.hasBit_one_shiftLeft (by decide)]
        simpa using hi10
      simp [hbit]

/-- What `enter_lmode` makes of the value loaded outside of long mode. -/
theorem loadedEfer_or {x : BitVec 64} (hlme : x.hasBit 8 = true) (hlma : x.hasBit 10 = false) :
    loadedEfer x ||| (eferLma ||| eferLme) = loadedEfer (x ||| eferLma) := by
  have hbit : eferLma.hasBit 10 = true := by decide
  rw [loadedEfer_of_not_lma hlma, loadedEfer_of_lma (by rw [BitVec.hasBit_or, hbit, Bool.or_true])]
  apply BitVec.eq_of_hasBit
  intro i hi
  by_cases hi8 : i = 8
  · subst hi8
    have hme : eferLme.hasBit 8 = true := by decide
    simp [hme, hlme]
  · have hme : eferLme.hasBit i = false := by
      unfold eferLme
      rw [Bits.hasBit_one_shiftLeft (by decide)]
      simpa using hi8
    cases ha : eferLma.hasBit i <;> simp [hme, ha, hi]

theorem ModeBits.hasBit_lma (h : ModeBits s) : s.shadowEfer.hasBit 10 = (s.shadowEfer.hasBit 8 && isPaging s.vmcs) := by
  rw [← lma_eq, ← lme_eq]
  exact h.lma

/-- The steps of `__set_cr0`: the mode after it, and when `guest_msrs` is behind. -/
theorem rawSetCr0_lmode {v : BitVec 64} (hs : ModeBits s) (h : rawSetCr0 s v = some t) :
    ModeBits t ∧ (MsrLoaded s → ¬(isLongMode s.vmcs = true ∧ v.hasBit 31 = false) → MsrLoaded t) := by
  obtain ⟨s2, h2, rfl⟩ := Option.map_eq_some_iff.1 h
  have hu := switchRmode_lmodeKept s v
  have hbits := hu.modeBits hs
  have hlong : isLongMode (switchRmode s v).vmcs = isLongMode s.vmcs := hu.isLongMode
  have hmsr : MsrLoaded s → MsrLoaded (switchRmode s v) := hu.msrLoaded
  rw [← hlong]
  generalize switchRmode s v = u at h2 hbits hmsr
  -- the write of CR0 itself determines paging
  have hpaging : ∀ u' : KvmVcpu,
      isPaging (vmcsWritel (vmcsWritel u'.vmcs .cr0ReadShadow v) .guestCr0 (v ||| kvmVmCr0AlwaysOn)) = v.hasBit 31 := by
    intro u'
    rw [isPaging_eq]
    rfl
  have hia32e : ∀ u' : KvmVcpu,
      isLongMode (vmcsWritel (vmcsWritel u'.vmcs .cr0ReadShadow v) .guestCr0 (v ||| kvmVmCr0AlwaysOn)) =
        isLongMode u'.vmcs := by
    intro u'
    rw [isLongMode_eq, isLongMode_eq]
    rfl
  have hbuild : ∀ u' : KvmVcpu, u'.shadowEfer.hasBit 10 = (u'.shadowEfer.hasBit 8 && v.hasBit 31) →
      isLongMode u'.vmcs = u'.shadowEfer.hasBit 10 → ModeBits (u'.setVmcs
        (vmcsWritel (vmcsWritel u'.vmcs .cr0ReadShadow v) .guestCr0 (v ||| kvmVmCr0AlwaysOn))) := by
    intro u' hlma hentry
    refine ⟨?_, ?_⟩
    · show (u'.shadowEfer &&& eferLma != 0) = (u'.shadowEfer &&& eferLme != 0 && isPaging (vmcsWritel _ _ _))
      rw [hpaging, lma_eq, lme_eq, hlma]
    · show isLongMode (vmcsWritel _ _ _) = (u'.shadowEfer &&& eferLma != 0)
      rw [hia32e, hentry, lma_eq]
  rcases switchLmode_cases h2 with ⟨rfl, hsame⟩ | ⟨hlme, hp, hpg, henter⟩ | ⟨hlme, hp, hpg, rfl⟩
  · refine ⟨hbuild s2 ?_ (hbits.ia32e.trans (lma_eq _)), fun hm _ => hmsr hm⟩
    rw [hbits.hasBit_lma]
    cases hlme : s2.shadowEfer.hasBit 8 with
    | false => rfl
    | true => rw [hsame hlme]
  · have hold : u.shadowEfer.hasBit 10 = false := by rw [hbits.hasBit_lma, hp, Bool.and_false]
    have hefer : s2.shadowEfer = u.shadowEfer ||| eferLma := by rw [henter.eq]
    have hbit : eferLma.hasBit 10 = true := by decide
    have hnew : s2.shadowEfer.hasBit 10 = true := by rw [hefer, BitVec.hasBit_or, hbit, Bool.or_true]
    refine ⟨hbuild s2 ?_ (henter.longMode.trans hnew.symm), fun hm _ => ?_⟩
    · rw [hnew, hefer, BitVec.hasBit_or, hlme, hpg]
      rfl
    · obtain ⟨i, hi, hi', hdata⟩ := henter.msr
      obtain ⟨j, hj, hold'⟩ := hmsr hm
      obtain rfl : i = j := Option.some.inj (hi.symm.trans hj)
      refine ⟨i, hi', ?_⟩
      show (s2.guestMsrs i).data = loadedEfer s2.shadowEfer
      rw [hdata, hold', hefer, loadedEfer_or hlme hold]
  · have hnew : (exitLmode u).shadowEfer.hasBit 10 = false := by
      have hbit : eferLma.hasBit 10 = true := by decide
      show (u.shadowEfer &&& ~~~eferLma).hasBit 10 = false
      simp [hbit]
    refine ⟨hbuild _ ?_ ((isLongMode_clear _ _).trans hnew.symm), fun _ hstay => ?_⟩
    · rw [hnew, hpg, Bool.and_false]
    · refine absurd ⟨?_, hpg⟩ hstay
      rw [hbits.ia32e, lma_eq, hbits.hasBit_lma, hlme, hp]
      rfl

/-- `set_efer` keeps the LMA bit, and LME while the guest is paging. -/
theorem setEfer_lmode {v : BitVec 64} (hs : ModeBits s) (h : setEfer s v = some t) :
    ModeBits t ∧ (MsrLoaded s → MsrLoaded t) := by
  rcases setEfer_cases h with hkept | ⟨hlme, i, efer, hi, rfl, hkept⟩
  · exact ⟨hkept.lmodeKept.modeBits hs, hkept.lmodeKept.msrLoaded⟩
  · generalize hx : v &&& ~~~eferLma ||| s.shadowEfer &&& eferLma = efer at hkept
    have hnew : efer.hasBit 10 = s.shadowEfer.hasBit 10 ∧ efer.hasBit 8 = v.hasBit 8 := by
      subst hx
      have h8 : eferLma.hasBit 8 = false := by decide
      have h10 : eferLma.hasBit 10 = true := by decide
      simp [h8, h10]
    have hbits : ModeBits ((({ s with shadowEfer := efer } : KvmVcpu).setMsr i
        (if efer.hasBit 10 then efer else efer &&& ~~~eferLme))) := by
      refine ⟨?_, ?_⟩
      · show (efer &&& eferLma != 0) = (efer &&& eferLme != 0 && isPaging s.vmcs)
        rw [lma_eq, lme_eq, hnew.1, hnew.2, hs.hasBit_lma]
        cases hp : isPaging s.vmcs with
        | false => rw [Bool.and_false, Bool.and_false]
        | true => rw [hlme hp]
      · show isLongMode s.vmcs = (efer &&& eferLma != 0)
        rw [lma_eq, hnew.1, ← lma_eq]
        exact hs.ia32e
    refine ⟨hkept.lmodeKept.modeBits hbits, fun _ => hkept.lmodeKept.msrLoaded ⟨i, ?_, ?_⟩⟩
    · rw [findMsrEntry_setMsr]
      exact hi
    · rw [setMsr_data, loadedEfer_eq]
      rfl

/-- A write keeps the mode bits together, and `guest_msrs` with them unless it leaves long mode. -/
theorem GuestWrite.run_lmode {w : GuestWrite} (hs : ModeBits s) (h : w.run s = some t) :
    ModeBits t ∧ (MsrLoaded s → ¬LeavesLongMode s w → MsrLoaded t) := by
  have hkeep : LmodeKept s t → ModeBits t ∧ (MsrLoaded s → ¬LeavesLongMode s w → MsrLoaded t) :=
    fun hkept => ⟨hkept.modeBits hs, fun hm _ => hkept.msrLoaded hm⟩
  cases w with
  | cr0 v =>
    rcases setCr0_cases h with ⟨-, rfl⟩ | ⟨hf, s1, h1, rfl⟩
    · exact hkeep (ModesKept.injectGp s).lmodeKept
    · obtain ⟨hbits, hmsr⟩ := rawSetCr0_lmode hs h1
      have hreset := (ModesKept.resetContext s1).lmodeKept
      refine ⟨hreset.modeBits hbits, fun hm hstay => hreset.msrLoaded (hmsr hm ?_)⟩
      rintro ⟨hlong, hpg⟩
      exact hstay ⟨v, rfl, hf, hlong, (pg_eq v).trans hpg⟩
  | cr3 v => exact hkeep (setCr3_modesKept h).lmodeKept
  | cr4 v =>
    rcases setCr4_modesKept h with hkept | hkept
    · exact hkeep hkept.lmodeKept
    · exact hkeep ((rawSetCr4_lmodeKept s v).trans hkept.lmodeKept)
  | efer v =>
    obtain ⟨hbits, hmsr⟩ := setEfer_lmode hs h
    exact ⟨hbits, fun hm _ => hmsr hm⟩
  | lmsw v =>
    obtain rfl := Option.some.inj h
    exact hkeep (lmsw_lmodeKept s v)

/-! ### Runs -/

theorem RealModeStart.longModeCoherent (h : RealModeStart s) : LongModeCoherent s := by
  obtain ⟨i, hi, hdata⟩ := h.msr
  refine ⟨⟨?_, ?_⟩, i, hi, ?_⟩
  · rw [h.efer, isPaging_eq, h.cr0ReadShadow]
    decide
  · rw [h.longMode, h.efer]
    decide
  · rw [hdata, h.efer]
    decide

/-- Along every run LMA is set when LME and PG are, and the entry controls say the same. -/
theorem GuestWrite.run_modeBits {s₀ : KvmVcpu} (h₀ : SetUp s₀)
    (hrun : ReflTransGen (fun s t => ∃ w : GuestWrite, w.run s = some t) s₀ s) : ModeBits s := by
  induction hrun with
  | refl => exact h₀.start.longModeCoherent.toModeBits
  | tail _ hstep ih =>
    obtain ⟨w, hw⟩ := hstep
    exact (GuestWrite.run_lmode ih hw).1

/-- **Long-mode coherence**, along the runs in which no write leaves long mode. -/
theorem longMode_coherent {s₀ : KvmVcpu} (h₀ : SetUp s₀)
    (hrun : ReflTransGen (fun s t => ∃ w : GuestWrite, w.run s = some t ∧ ¬LeavesLongMode s w) s₀ s) :
    LongModeCoherent s := by
  induction hrun with
  | refl => exact h₀.start.longModeCoherent
  | tail _ hstep ih =>
    obtain ⟨w, hw, hstay⟩ := hstep
    obtain ⟨hbits, hmsr⟩ := GuestWrite.run_lmode ih.toModeBits hw
    exact ⟨hbits, hmsr ih.msr hstay⟩

/-- Without CR4.PAE the guest does not get into long mode. -/
theorem setCr0_stays {v : BitVec 64} (hpae : isPae s.vmcs = false) (hlong : isLongMode s.vmcs = false)
    (h : setCr0 s v = some t) : isPae t.vmcs = false ∧ isLongMode t.vmcs = false := by
  rcases setCr0_cases h with ⟨-, rfl⟩ | ⟨hf, s1, h1, rfl⟩
  · have hkept := ModesKept.injectGp s
    exact ⟨hkept.isPae.trans hpae, hkept.isLongMode.trans hlong⟩
  · have hreset := ModesKept.resetContext s1
    rw [hreset.isPae, hreset.isLongMode]
    obtain ⟨s2, h2, rfl⟩ := Option.map_eq_some_iff.1 h1
    have hu := switchRmode_lmodeKept s v
    have hpae1 : isPae (s2.setVmcs (vmcsWritel (vmcsWritel s2.vmcs .cr0ReadShadow v) .guestCr0
        (v ||| kvmVmCr0AlwaysOn))).vmcs = isPae s.vmcs := by
      rw [isPae_eq, isPae_eq]
      show (s2.vmcs .cr4ReadShadow).hasBit 5 = _
      rw [(switchLmode_modeSwitch h2).kept _ (by decide), (switchRmode_modeSwitch s v).kept _ (by decide)]
    have hlong1 : isLongMode (s2.setVmcs (vmcsWritel (vmcsWritel s2.vmcs .cr0ReadShadow v) .guestCr0
        (v ||| kvmVmCr0AlwaysOn))).vmcs = isLongMode s2.vmcs := by
      rw [isLongMode_eq, isLongMode_eq]
      rfl
    refine ⟨hpae1.trans hpae, hlong1.trans ?_⟩
    rcases switchLmode_cases h2 with ⟨rfl, -⟩ | ⟨hlme, hp, hpg, -⟩ | ⟨-, -, -, rfl⟩
    · exact hu.isLongMode.trans hlong
    · -- the checks have refused to start paging without PAE
      rw [hu.shadowEfer] at hlme
      rw [hu.isPaging] at hp
      unfold cr0Faults at hf
      rw [pg_eq, hpg, hp, lme_eq, hlme, hpae] at hf
      simp at hf
    · exact isLongMode_clear _ _

/-- In particular along every run of writes to CR0 and EFER alone. -/
theorem longMode_coherent_of_cr0_efer {s₀ : KvmVcpu} (h₀ : SetUp s₀)
    (hrun : ReflTransGen (fun s t => ∃ v, setCr0 s v = some t ∨ setEfer s v = some t) s₀ s) :
    LongModeCoherent s := by
  have hstart := h₀.start
  have hinv : LongModeCoherent s ∧ isPae s.vmcs = false ∧ isLongMode s.vmcs = false := by
    induction hrun with
    | refl =>
      refine ⟨hstart.longModeCoherent, ?_, hstart.longMode⟩
      rw [isPae_eq, hstart.cr4ReadShadow]
      decide
    | tail _ hstep ih =>
      obtain ⟨hcoh, hpae, hlong⟩ := ih
      obtain ⟨v, h | h⟩ := hstep
      · obtain ⟨hbits, hmsr⟩ := GuestWrite.run_lmode (w := .cr0 v) hcoh.toModeBits h
        refine ⟨⟨hbits, hmsr hcoh.msr ?_⟩, setCr0_stays hpae hlong h⟩
        rintro ⟨_, -, -, hno, -⟩
        rw [hlong] at hno
        cases hno
      · obtain ⟨hbits, hmsr⟩ := setEfer_lmode hcoh.toModeBits h
        refine ⟨⟨hbits, hmsr hcoh.msr⟩, ?_⟩
        rcases setEfer_cases h with hkept | ⟨-, _, _, -, -, hkept⟩
        · exact ⟨hkept.isPae.trans hpae, hkept.isLongMode.trans hlong⟩
        · exact ⟨hkept.isPae.trans hpae, hkept.isLongMode.trans hlong⟩
  exact hinv.1

/-! ### Leaving long mode -/

/-- Leaving long mode clears LMA and keeps it in `guest_msrs`. -/
theorem not_coherent_of_leavesLongMode {w : GuestWrite} (hs : LongModeCoherent s) (hw : LeavesLongMode s w)
    (h : w.run s = some t) : ¬LongModeCoherent t := by
  obtain ⟨v, rfl, hf, hlong, hpg⟩ := hw
  rw [pg_eq] at hpg
  have hlma : s.shadowEfer.hasBit 10 = true := by rw [← lma_eq, ← hs.ia32e, hlong]
  rcases setCr0_cases h with ⟨hno, -⟩ | ⟨-, s1, h1, rfl⟩
  · rw [hf] at hno
    cases hno
  · obtain ⟨s2, h2, rfl⟩ := Option.map_eq_some_iff.1 h1
    have hu := switchRmode_lmodeKept s v
    have hlmaU : (switchRmode s v).shadowEfer.hasBit 10 = true := by rw [hu.shadowEfer, hlma]
    have hbits := (hu.modeBits hs.toModeBits).hasBit_lma
    rw [hlmaU, eq_comm, Bool.and_eq_true] at hbits
    obtain ⟨i, hi, hdata⟩ := hu.msrLoaded hs.msr
    rw [loadedEfer_of_lma hlmaU] at hdata
    rcases switchLmode_cases h2 with ⟨-, hsame⟩ | ⟨-, hno, -⟩ | ⟨-, -, -, rfl⟩
    · have := hsame hbits.1
      rw [hbits.2, hpg] at this
      cases this
    · rw [hbits.2] at hno
      cases hno
    · rintro ⟨-, j, hj, hnew⟩
      obtain rfl : i = j := Option.some.inj (hi.symm.trans hj)
      have hnew : ((switchRmode s v).guestMsrs i).data =
          loadedEfer ((switchRmode s v).shadowEfer &&& ~~~eferLma) := hnew
      have hbit : eferLma.hasBit 10 = true := by decide
      rw [hdata, loadedEfer_of_not_lma (by simp [hbit])] at hnew
      have := congrArg (BitVec.hasBit · 10) hnew
      simp [hbit, hlmaU] at this

/-- PG takes the vcpu into long mode when EFER.LME is set. -/
theorem rawSetCr0_enters {v : BitVec 64} (hlme : s.shadowEfer.hasBit 8 = true) (hp : isPaging s.vmcs = false)
    (hpg : v.hasBit 31 = true) (h : rawSetCr0 s v = some t) : isLongMode t.vmcs = true := by
  obtain ⟨s1, h1, rfl⟩ := Option.map_eq_some_iff.1 h
  have hu := switchRmode_lmodeKept s v
  have hpu : isPaging (switchRmode s v).vmcs = false := hu.isPaging.trans hp
  have hmode : isLongMode s1.vmcs = true := by
    rcases switchLmode_cases h1 with ⟨rfl, hsame⟩ | ⟨-, -, -, henter⟩ | ⟨-, hno, -⟩
    · have := hsame (by rw [hu.shadowEfer, hlme])
      rw [hpu, hpg] at this
      cases this
    · exact henter.longMode
    · rw [hpu] at hno
      cases hno
  rw [isLongMode_eq] at hmode ⊢
  exact hmode

/-- From real mode the guest can enter long mode: it sets EFER.LME, CR4.PAE, and CR0.PG with PE. -/
theorem RealModeStart.enters_longMode (h : RealModeStart s) :
    ∃ t, ReflTransGen (fun s t => ∃ w : GuestWrite, w.run s = some t) s t ∧ LongModeCoherent t ∧
      isLongMode t.vmcs = true := by
  have hpaging : isPaging s.vmcs = false := by
    rw [isPaging_eq, h.cr0ReadShadow]
    decide
  obtain ⟨i, hi, -⟩ := h.msr
  obtain ⟨s1, hs1⟩ : ∃ s1, s1 = skipEmulatedInstruction (({ s with shadowEfer := eferLme } : KvmVcpu).setMsr i 0) :=
    ⟨_, rfl⟩
  have h1 : setEfer s eferLme = some s1 := by
    have hefer : eferLme &&& ~~~eferLma ||| s.shadowEfer &&& eferLma = eferLme := by
      rw [h.efer]
      decide
    have hfind : findMsrEntry { s with shadowEfer := eferLme } msrEfer = some i := hi
    unfold setEfer
    rw [if_neg (by decide), hpaging, if_neg (by simp)]
    dsimp only
    rw [hefer, hfind, hs1]
    rfl
  have hkept1 : LmodeKept { s with shadowEfer := eferLme, guestMsrs := s1.guestMsrs } s1 := by
    rw [hs1]
    exact (ModesKept.skipEmulatedInstruction _).lmodeKept
  obtain ⟨s2, hs2⟩ : ∃ s2, s2 = (rawSetCr4 s1 cr4PaeMask).resetContext := ⟨_, rfl⟩
  have h2 : setCr4 s1 cr4PaeMask = some s2 := by
    have hpdptr : cr4PdptrFaults s1 cr4PaeMask = some false := by
      unfold cr4PdptrFaults
      rw [hkept1.isPaging, hpaging, if_neg (by simp)]
    rw [setCr4_eq, if_neg (by decide), hkept1.isLongMode, h.longMode, if_neg (by simp), hpdptr, hs2,
      ← loadCr4_eq (by decide)]
    rfl
  have hkept2 : LmodeKept s1 s2 := by
    rw [hs2]
    exact (rawSetCr4_lmodeKept _ _).trans (ModesKept.resetContext _).lmodeKept
  have hcs : vmcsRead32 s2.vmcs .guestCsArBytes = vmcsRead32 s.vmcs .guestCsArBytes := by
    have heq : s2.vmcs .guestCsArBytes = s1.vmcs .guestCsArBytes := by
      rw [hs2]
      exact resetContext_vmcs _ (by decide)
    have heq1 : s1.vmcs .guestCsArBytes = s.vmcs .guestCsArBytes := by
      rw [hs1]
      exact skipEmulatedInstruction_vmcs _ (by decide) (by decide)
    unfold vmcsRead32 vmcsReadl
    rw [heq, heq1]
  have hpae : isPae s2.vmcs = true := by
    have heq : s2.vmcs .cr4ReadShadow = cr4PaeMask := by
      rw [hs2]
      exact resetContext_vmcs _ (by decide)
    rw [isPae_eq, heq]
    decide
  have hcoh1 : LongModeCoherent s1 := by
    obtain ⟨hbits, hmsr⟩ := setEfer_lmode h.longModeCoherent.toModeBits h1
    exact ⟨hbits, hmsr h.longModeCoherent.msr⟩
  have hcoh2 : LongModeCoherent s2 := ⟨hkept2.modeBits hcoh1.toModeBits, hkept2.msrLoaded hcoh1.msr⟩
  have hpaging2 : isPaging s2.vmcs = false := hkept2.isPaging.trans (hkept1.isPaging.trans hpaging)
  have hefer2 : s2.shadowEfer = eferLme := hkept2.shadowEfer.trans hkept1.shadowEfer
  have hf : cr0Faults s2 (cr0PgMask ||| cr0PeMask) = some false := by
    unfold cr0Faults
    rw [if_neg (by decide), if_neg (by decide), if_neg (by decide), hpaging2, if_pos (by decide), hefer2,
      if_pos (by decide), hpae, if_neg (by decide), hcs, h.csAr]
    decide
  have hsome : (rawSetCr0 s2 (cr0PgMask ||| cr0PeMask)).isSome = true := by
    obtain ⟨j, hj, -⟩ := hcoh2.msr
    rw [rawSetCr0_isSome, hj]
    simp
  obtain ⟨s3, h3⟩ := Option.isSome_iff_exists.1 hsome
  have hset : setCr0 s2 (cr0PgMask ||| cr0PeMask) = some s3.resetContext := by
    unfold setCr0
    rw [hf, h3]
    rfl
  obtain ⟨hbits, hmsr⟩ := rawSetCr0_lmode hcoh2.toModeBits h3
  have hcoh3 : LongModeCoherent s3 := by
    refine ⟨hbits, hmsr hcoh2.msr ?_⟩
    rintro ⟨-, hno⟩
    exact absurd hno (by decide)
  have hkept3 := (ModesKept.resetContext s3).lmodeKept
  refine ⟨s3.resetContext, ?_, ⟨hkept3.modeBits hcoh3.toModeBits, hkept3.msrLoaded hcoh3.msr⟩, ?_⟩
  · exact ((ReflTransGen.single ⟨.efer eferLme, h1⟩).tail ⟨.cr4 cr4PaeMask, h2⟩).tail
      ⟨.cr0 (cr0PgMask ||| cr0PeMask), hset⟩
  · rw [hkept3.isLongMode]
    exact rawSetCr0_enters (by rw [hefer2]; decide) hpaging2 (by decide) h3

/-- Right after set-up. -/
theorem longMode_coherent_setUp : ∃ s, SetUp s ∧ LongModeCoherent s := by
  obtain ⟨s, hs⟩ := setUp_smallVm
  exact ⟨s, hs, longMode_coherent hs .refl⟩

/-- The guest enters long mode and leaves it. -/
theorem exit_lmode_keeps_efer : ¬∀ s₀ s, SetUp s₀ →
    ReflTransGen (fun s t => ∃ w : GuestWrite, w.run s = some t) s₀ s → LongModeCoherent s := by
  intro hall
  obtain ⟨s₀, h₀⟩ := setUp_smallVm
  obtain ⟨s, hrun, hs, hlong⟩ := h₀.start.enters_longMode
  obtain ⟨s1, hset⟩ := setCr0_pe s
  exact not_coherent_of_leavesLongMode (w := .cr0 cr0PeMask) hs ⟨cr0PeMask, rfl, cr0Faults_pe s, hlong, by decide⟩ hset
    (hall s₀ _ h₀ (hrun.tail ⟨.cr0 cr0PeMask, hset⟩))

end LearnKvm
