import LearnKvm.CrShadow

/-!
# The exception bitmap (`update_exception_bitmap`, `kvm_dev_ioctl_debug_guest`)

EXCEPTION_BITMAP selects the exceptions that are intercepted: all of them in emulated real mode, page faults otherwise, and
#DB while the guest is debugged.  The switches of the mode write it from scratch and forget the debugger; KVM_DEBUG_GUEST
changes the bit of #DB and forgets real mode.  So the bitmap is exact along the runs in which protected mode is not entered
while the guest is debugged, and debugging is not switched off in real mode (`exceptionBitmap_exact`); each of these steps
breaks it (`DebugOp.run_exact`).
-/

namespace LearnKvm

open Relation

/-! ### The code -/

/-- `vcpu->guest_debug`. -/
structure KvmGuestDebug where
  enabled : BitVec 32
  bp : Fin 4 → BitVec 64
  singlestep : BitVec 32

structure KvmBreakpoint where
  enabled : BitVec 32
  address : BitVec 64

/-- The argument of KVM_DEBUG_GUEST. -/
structure KvmDebugGuest where
  enabled : BitVec 32
  breakpoints : Fin 4 → KvmBreakpoint
  singlestep : BitVec 32

structure DebugVcpu extends KvmVcpu where
  guestDebug : KvmGuestDebug

def x86EflagsRf : BitVec 64 := 0x10000#64

/-- The global enable bits of the breakpoints. -/
def enabledBreakpoints (dbg : KvmDebugGuest) (dr7 : BitVec 64) : BitVec 64 :=
  (List.finRange 4).foldl (fun dr7 i =>
    if (dbg.breakpoints i).enabled != 0 then dr7 ||| 2#64 <<< (i.val * 2) ||| 0#64 <<< (i.val * 4 + 16) else dr7) dr7

/-- `kvm_dev_ioctl_debug_guest`, for the vcpu that `vcpu_load` gives. -/
def debugGuest (s : DebugVcpu) (dbg : KvmDebugGuest) : DebugVcpu :=
  let exceptionBitmap := vmcsRead32 s.vmcs .exceptionBitmap
  let oldSinglestep := s.guestDebug.singlestep
  let dr7 : BitVec 64 := 0x400
  let (guestDebug, exceptionBitmap, dr7) : KvmGuestDebug × BitVec 32 × BitVec 64 :=
    if dbg.enabled != 0 then
      ({ enabled := dbg.enabled
         bp := fun i => if (dbg.breakpoints i).enabled != 0 then (dbg.breakpoints i).address else s.guestDebug.bp i
         singlestep := dbg.singlestep },
        exceptionBitmap ||| 1#32 <<< 1, enabledBreakpoints dbg (dr7 ||| 0x200))
    else ({ s.guestDebug with enabled := dbg.enabled, singlestep := 0 }, exceptionBitmap &&& ~~~(1#32 <<< 1), dr7)
  let v := if oldSinglestep != 0 && guestDebug.singlestep == 0 then
      vmcsWritel s.vmcs .guestRflags (vmcsReadl s.vmcs .guestRflags &&& ~~~(x86EflagsTf ||| x86EflagsRf))
    else s.vmcs
  let v := vmcsWrite32 v .exceptionBitmap exceptionBitmap
  { s with guestDebug := guestDebug, vmcs := vmcsWritel v .guestDr7 dr7 }

/-- Register writes and the ioctls. -/
inductive DebugOp where
  | mode (op : ModeOp)
  | debugGuest (dbg : KvmDebugGuest)

def DebugOp.run (s : DebugVcpu) : DebugOp → Option DebugVcpu
  | mode op => (op.run s.toKvmVcpu).map fun v => { s with toKvmVcpu := v }
  | debugGuest dbg => some (LearnKvm.debugGuest s dbg)

/-! ### The bitmap that should be there -/

/-- All exceptions in real mode; otherwise #PF, and #DB for the debugger. -/
def bitmapFor (active : Bool) (enabled : BitVec 32) : BitVec 32 :=
  if active then ~~~0 else 1#32 <<< pfVector ||| (if enabled != 0 then 1#32 <<< 1 else 0)

def BitmapExact (s : DebugVcpu) : Prop :=
  vmcsRead32 s.vmcs .exceptionBitmap = bitmapFor s.rmode.active s.guestDebug.enabled

/-- The operation writes the bitmap for protected mode. -/
def LoadsPmode (s : KvmVcpu) : ModeOp → Prop
  | .write (.cr0 v) => cr0Faults s v = some false ∧ s.rmode.active = true ∧ v.hasBit 0 = true
  | .write (.lmsw msw) => (msw &&& cr0PeMask != 0) = true ∧ (guestCr0 s.vmcs &&& cr0PeMask == 0) = true
  | .setSregs sregs => sregs.cr0.hasBit 0 = true
  | _ => False

/-- The operation loses a bit: that of the debugger, or that of #DB in real mode. -/
def ClobbersBitmap (s : DebugVcpu) : DebugOp → Prop
  | .mode op => LoadsPmode s.toKvmVcpu op ∧ s.guestDebug.enabled ≠ 0
  | .debugGuest dbg => s.rmode.active = true ∧ dbg.enabled = 0

/-- Neither the bitmap nor what it depends on changes. -/
structure BitmapKept (s t : DebugVcpu) : Prop where
  exceptionBitmap : t.vmcs .exceptionBitmap = s.vmcs .exceptionBitmap
  active : t.rmode.active = s.rmode.active
  enabled : t.guestDebug.enabled = s.guestDebug.enabled

/-! ### Switches of the mode -/

variable {s t : KvmVcpu}

/-- The bitmap is the one for the mode, without a debugger. -/
def FreshBitmap (t : KvmVcpu) : Prop := vmcsRead32 t.vmcs .exceptionBitmap = bitmapFor t.rmode.active 0

theorem freshBitmap_enterPmode (s : KvmVcpu) : FreshBitmap (enterPmode s) := by
  have hv : (enterPmode s).vmcs .exceptionBitmap = 0x4000 := rfl
  have hr : (enterPmode s).rmode.active = false := rfl
  unfold FreshBitmap vmcsRead32 vmcsReadl
  rw [hv, hr]
  decide

theorem freshBitmap_enterRmode (s : KvmVcpu) : FreshBitmap (enterRmode s) := by
  have hv : (enterRmode s).vmcs .exceptionBitmap = 0xffffffff := rfl
  have hr : (enterRmode s).rmode.active = true := rfl
  unfold FreshBitmap vmcsRead32 vmcsReadl
  rw [hv, hr]
  decide

/-- The bitmap and the mode are the same. -/
def SameBitmap (s t : KvmVcpu) : Prop := t.vmcs .exceptionBitmap = s.vmcs .exceptionBitmap ∧ t.rmode.active = s.rmode.active

theorem SameBitmap.trans {u : KvmVcpu} (h : SameBitmap s t) (h' : SameBitmap t u) : SameBitmap s u :=
  ⟨h'.1.trans h.1, h'.2.trans h.2⟩

theorem sameBitmap_injectGp (s : KvmVcpu) : SameBitmap s s.injectGp := ⟨rfl, rfl⟩

theorem sameBitmap_resetContext (s : KvmVcpu) : SameBitmap s s.resetContext := ⟨resetContext_vmcs s (by decide), rfl⟩

theorem sameBitmap_rawSetCr4 (s : KvmVcpu) (cr4 : BitVec 64) : SameBitmap s (rawSetCr4 s cr4) := ⟨rfl, rfl⟩

theorem rawSetCr0_sameBitmap {v : BitVec 64} (h : rawSetCr0 s v = some t) : SameBitmap (switchRmode s v) t := by
  obtain ⟨s1, h1, rfl⟩ := Option.map_eq_some_iff.1 h
  refine SameBitmap.trans (t := s1) ?_ ⟨rfl, rfl⟩
  rcases switchLmode_cases h1 with ⟨rfl, -⟩ | ⟨-, -, -, henter⟩ | ⟨-, -, -, rfl⟩
  · exact ⟨rfl, rfl⟩
  · refine ⟨henter.kept _ (by decide) (by decide), ?_⟩
    rw [henter.eq]
  · exact ⟨rfl, rfl⟩

theorem FreshBitmap.congr (h : SameBitmap s t) (hs : FreshBitmap s) : FreshBitmap t := by
  unfold FreshBitmap vmcsRead32 vmcsReadl at *
  rw [h.1, h.2]
  exact hs

theorem freshBitmap_update (s : KvmVcpu) : FreshBitmap (updateExceptionBitmap s) := by
  unfold FreshBitmap updateExceptionBitmap KvmVcpu.setVmcs bitmapFor
  dsimp only
  cases s.rmode.active with
  | true => exact vmcsRead32_vmcsWrite32 ..
  | false => exact vmcsRead32_vmcsWrite32 ..

theorem setCr0_bitmap {v : BitVec 64} (h : setCr0 s v = some t) : SameBitmap s t ∧ ¬LoadsPmode s (.write (.cr0 v)) ∨
    FreshBitmap t ∧ (t.rmode.active = false ↔ LoadsPmode s (.write (.cr0 v))) := by
  rcases setCr0_cases h with ⟨hfault, rfl⟩ | ⟨hlegal, s1, h1, rfl⟩
  · refine Or.inl ⟨sameBitmap_injectGp s, fun hload => ?_⟩
    rw [hload.1] at hfault
    cases hfault
  · have hsame := (rawSetCr0_sameBitmap h1).trans (sameBitmap_resetContext s1)
    rcases switchRmode_cases s v with ⟨heq, hact⟩ | ⟨hact, hpe, heq⟩ | ⟨hact, hpe, heq⟩
    · rw [heq] at hsame
      refine Or.inl ⟨hsame, fun hload => ?_⟩
      rw [hload.2.2, hload.2.1] at hact
      cases hact
    · rw [heq] at hsame
      refine Or.inr ⟨FreshBitmap.congr hsame (freshBitmap_enterPmode s), ?_⟩
      rw [hsame.2]
      exact ⟨fun _ => ⟨hlegal, hact, hpe⟩, fun _ => rfl⟩
    · rw [heq] at hsame
      refine Or.inr ⟨FreshBitmap.congr hsame (freshBitmap_enterRmode s), ?_⟩
      rw [hsame.2]
      refine ⟨fun hno => (nomatch hno), fun hload => ?_⟩
      rw [hload.2.1] at hact
      cases hact

theorem setCr3_bitmap {v : BitVec 64} (h : s.setCr3 v = some t) : SameBitmap s t := by
  rcases setCr3_cases h with rfl | rfl
  · exact sameBitmap_injectGp s
  · exact ⟨(ContextOnly.mmuNewCr3 { s.toVcpu with cr3 := v }).vmcs _ (by decide), rfl⟩

theorem setCr4_bitmap {v : BitVec 64} (h : setCr4 s v = some t) : SameBitmap s t := by
  obtain ⟨s1, hs1, ht⟩ := setCr4_cases h
  have hsame : SameBitmap s s1 := by
    rcases hs1 with rfl | rfl
    · exact ⟨rfl, rfl⟩
    · exact sameBitmap_injectGp s
  rcases ht with rfl | rfl
  · exact hsame.trans (sameBitmap_injectGp s1)
  · exact hsame.trans ((sameBitmap_rawSetCr4 s1 v).trans (sameBitmap_resetContext _))

theorem setEfer_bitmap {v : BitVec 64} (h : setEfer s v = some t) : SameBitmap s t := by
  unfold setEfer at h
  split at h
  · obtain rfl := Option.some.inj h
    exact sameBitmap_injectGp s
  · split at h
    · obtain rfl := Option.some.inj h
      exact sameBitmap_injectGp s
    · dsimp only at h
      split at h
      · cases h
      · obtain rfl := Option.some.inj h
        exact ⟨skipEmulatedInstruction_vmcs _ (by decide) (by decide), rfl⟩

theorem lmsw_bitmap (msw : BitVec 64) : SameBitmap s (lmsw s msw) ∧ ¬LoadsPmode s (.write (.lmsw msw)) ∨
    FreshBitmap (lmsw s msw) ∧ ((lmsw s msw).rmode.active = false ↔ LoadsPmode s (.write (.lmsw msw))) := by
  unfold lmsw LoadsPmode
  dsimp only
  split
  · rename_i hpe
    exact Or.inr ⟨FreshBitmap.congr ⟨rfl, rfl⟩ (freshBitmap_enterPmode s), fun _ => Bool.and_eq_true_iff.1 hpe, fun _ => rfl⟩
  · rename_i hpe
    exact Or.inl ⟨⟨rfl, rfl⟩, fun hload => hpe (Bool.and_eq_true_iff.2 hload)⟩

theorem loadCrs_freshBitmap (v : KvmVcpu) (sregs : KvmSregs) : FreshBitmap (loadCrs v sregs) := by
  refine FreshBitmap.congr ?_ (freshBitmap_update { v with
    apicBase := sregs.apicBase
    rmode := { v.rmode with active := sregs.cr0 &&& cr0PeMask == 0 } })
  exact ⟨rfl, rfl⟩

theorem setSregs_bitmap {sregs : KvmSregs} (h : setSregs s sregs = some t) :
    FreshBitmap t ∧ (t.rmode.active = false ↔ LoadsPmode s (.setSregs sregs)) := by
  rw [setSregs_eq] at h
  obtain ⟨s1, -, rfl⟩ := Option.map_eq_some_iff.1 h
  have hload := loadCrs_freshBitmap s1 sregs
  have hactive : (loadCrs s1 sregs).rmode.active = false ↔ sregs.cr0.hasBit 0 = true := by
    show (sregs.cr0 &&& cr0PeMask == 0) = false ↔ _
    rw [← pe_eq]
    unfold bne
    rw [Bool.not_eq_true']
  dsimp only
  split
  · have hreset := sameBitmap_resetContext (loadCrs s1 sregs)
    rw [hreset.2]
    exact ⟨hload.congr hreset, hactive⟩
  · exact ⟨hload, hactive⟩

/-- A register write leaves the bitmap alone, or writes it for the new mode. -/
theorem ModeOp.run_bitmap {op : ModeOp} (h : op.run s = some t) : SameBitmap s t ∧ ¬LoadsPmode s op ∨
    FreshBitmap t ∧ (t.rmode.active = false ↔ LoadsPmode s op) := by
  match op, h with
  | .write (.cr0 v), h => exact setCr0_bitmap h
  | .write (.cr3 v), h => exact Or.inl ⟨setCr3_bitmap h, fun hno => hno⟩
  | .write (.cr4 v), h => exact Or.inl ⟨setCr4_bitmap h, fun hno => hno⟩
  | .write (.efer v), h => exact Or.inl ⟨setEfer_bitmap h, fun hno => hno⟩
  | .write (.lmsw v), h =>
    obtain rfl := Option.some.inj h
    exact lmsw_bitmap v
  | .setSregs sregs, h => exact Or.inr (setSregs_bitmap h)

/-! ### Runs -/

theorem bitmapFor_or (active : Bool) {old enabled : BitVec 32} (h : enabled ≠ 0) :
    bitmapFor active old ||| 1#32 <<< 1 = bitmapFor active enabled := by
  have hne : (enabled != 0) = true := by simpa using h
  unfold bitmapFor
  rw [hne]
  generalize (old != 0) = b
  cases active <;> cases b <;> decide

theorem bitmapFor_and (active : Bool) (old : BitVec 32) :
    bitmapFor active old &&& ~~~(1#32 <<< 1) = bitmapFor active 0 ↔ active = false := by
  unfold bitmapFor
  generalize (old != 0) = b
  cases active <;> cases b <;> decide

theorem bitmapFor_fresh (active : Bool) (enabled : BitVec 32) :
    bitmapFor active 0 = bitmapFor active enabled ↔ ¬(active = false ∧ enabled ≠ 0) := by
  by_cases he : enabled = 0
  · subst he
    exact ⟨fun _ hno => hno.2 rfl, fun _ => rfl⟩
  · have hne : (enabled != 0) = true := by simpa using he
    unfold bitmapFor
    rw [hne]
    cases active with
    | true => exact ⟨fun _ hno => (nomatch hno.1), fun _ => rfl⟩
    | false => exact ⟨fun heq => absurd heq (by decide), fun hno => absurd ⟨rfl, he⟩ hno⟩

variable {d d' : DebugVcpu}

theorem BitmapKept.bitmapExact (h : BitmapKept d d') (hd : BitmapExact d) : BitmapExact d' := by
  unfold BitmapExact vmcsRead32 vmcsReadl at *
  rw [h.exceptionBitmap, h.active, h.enabled]
  exact hd

/-- KVM_DEBUG_GUEST changes the bit of #DB. -/
theorem debugGuest_bitmap (d : DebugVcpu) (dbg : KvmDebugGuest) : vmcsRead32 (debugGuest d dbg).vmcs .exceptionBitmap =
    (if dbg.enabled != 0 then vmcsRead32 d.vmcs .exceptionBitmap ||| 1#32 <<< 1
      else vmcsRead32 d.vmcs .exceptionBitmap &&& ~~~(1#32 <<< 1)) ∧
    (debugGuest d dbg).guestDebug.enabled = dbg.enabled ∧ (debugGuest d dbg).rmode = d.rmode := by
  have hdr7 : ∀ (v : Vmcs) x y, vmcsRead32 (vmcsWritel (vmcsWrite32 v .exceptionBitmap x) .guestDr7 y) .exceptionBitmap = x :=
    fun v x y => vmcsRead32_vmcsWrite32 v .exceptionBitmap x
  unfold debugGuest
  cases hen : dbg.enabled != 0 with
  | true => exact ⟨hdr7 .., rfl, rfl⟩
  | false => exact ⟨hdr7 .., rfl, rfl⟩

/-- **An operation keeps the bitmap exact unless it loses a bit.** -/
theorem DebugOp.run_exact {op : DebugOp} (hd : BitmapExact d) (h : op.run d = some d') :
    BitmapExact d' ↔ ¬ClobbersBitmap d op := by
  cases op with
  | mode op =>
    obtain ⟨v, hv, rfl⟩ := Option.map_eq_some_iff.1 h
    rcases ModeOp.run_bitmap hv with ⟨hsame, hno⟩ | ⟨hfresh, hiff⟩
    · have hkept : BitmapKept d { d with toKvmVcpu := v } := ⟨hsame.1, hsame.2, rfl⟩
      exact ⟨fun _ hclobbers => hno hclobbers.1, fun _ => hkept.bitmapExact hd⟩
    · unfold BitmapExact ClobbersBitmap
      show vmcsRead32 v.vmcs .exceptionBitmap = bitmapFor v.rmode.active d.guestDebug.enabled ↔ _
      rw [hfresh, bitmapFor_fresh, hiff]
  | debugGuest dbg =>
    obtain rfl := Option.some.inj h
    obtain ⟨hbitmap, henabled, hrmode⟩ := debugGuest_bitmap d dbg
    unfold BitmapExact ClobbersBitmap
    rw [hbitmap, henabled, hrmode, hd]
    by_cases hen : dbg.enabled = 0
    · rw [hen, if_neg (by simp), bitmapFor_and]
      exact ⟨fun hr hno => by simp [hr] at hno, fun hno => Bool.eq_false_iff.2 fun hr => hno ⟨hr, hen⟩⟩
    · rw [if_pos (by simpa using hen), bitmapFor_or _ hen]
      exact ⟨fun _ hno => hen hno.2, fun _ => rfl⟩

/-- A vcpu that `kvm_vcpu_setup` has set up, without a debugger. -/
def DebugSetUp (c : VcpuAlloc) (d : DebugVcpu) : Prop :=
  d.guestDebug.enabled = 0 ∧ ∃ (host : Host) (allocs : Allocs) (c' : VcpuAlloc), (initRmodeTss c.toVcpu).isSome = true ∧
    kvmVcpuSetup host allocs c = some (c', 0) ∧ d.toKvmVcpu = c'.toKvmVcpu

/-- Set-up writes the bitmap when it enters real mode. -/
theorem DebugSetUp.bitmapExact {c : VcpuAlloc} (h : DebugSetUp c d) (hr : c.rmode.active = false) : BitmapExact d := by
  obtain ⟨henabled, host, allocs, c', htss, hsetup, heq⟩ := h
  obtain ⟨s, t, ht⟩ := kvmVcpuSetup_reached htss hsetup
  have hmode := ht.mode
  unfold setupMode at hmode
  split at hmode
  · cases hmode
  · rename_i s1 h1
    have hefer := rawSetEfer_spec hmode
    have hswitch : switchRmode s 0x60000010 = enterRmode s := by
      rcases switchRmode_cases s 0x60000010 with ⟨-, hact⟩ | ⟨hact, -⟩ | ⟨-, -, heq⟩
      · rw [ht.rmode, hr] at hact
        exact absurd hact (by decide)
      · rw [ht.rmode, hr] at hact
        cases hact
      · exact heq
    have hsame := rawSetCr0_sameBitmap h1
    rw [hswitch] at hsame
    have hsame : SameBitmap (enterRmode s) t := by
      refine (hsame.trans (sameBitmap_rawSetCr4 s1 0)).trans ⟨hefer.kept _ (by decide), ?_⟩
      rw [hefer.eq]
    have hctx := (ContextOnly.kvmMmuInit allocs.mmuPages t.toVcpu).vmcs .exceptionBitmap (by decide)
    rw [ht.mmu] at hctx
    have hfresh : FreshBitmap c'.toKvmVcpu := by
      rw [ht.eq]
      exact FreshBitmap.congr ⟨hctx, rfl⟩ (FreshBitmap.congr hsame (freshBitmap_enterRmode s))
    unfold BitmapExact
    rw [heq, henabled]
    exact hfresh

/-- **The exception bitmap is exact** along every run from a set-up that finds real mode off, in which protected mode is
not entered while the guest is debugged, and debugging is not switched off in real mode. -/
theorem exceptionBitmap_exact {c : VcpuAlloc} {d₀ : DebugVcpu} (h₀ : DebugSetUp c d₀) (hr : c.rmode.active = false)
    (hrun : ReflTransGen (fun d d' => (∃ op : DebugOp, op.run d = some d' ∧ ¬ClobbersBitmap d op) ∨ BitmapKept d d') d₀ d) :
    BitmapExact d := by
  induction hrun with
  | refl => exact h₀.bitmapExact hr
  | tail _ hstep ih =>
    rcases hstep with ⟨op, hop, hno⟩ | hkept
    · exact (DebugOp.run_exact ih hop).2 hno
    · exact hkept.bitmapExact ih

theorem exists_debugSetUp : ∃ d, DebugSetUp smallVm d := by
  obtain ⟨c', hc'⟩ := @kvmVcpuSetup_ok eferHost someAllocs smallVm smallVm_tss rfl rfl (fun _ => rfl) rfl
  exact ⟨{ c'.toKvmVcpu with guestDebug := ⟨0, fun _ => 0, 0⟩ }, rfl, eferHost, someAllocs, c', smallVm_tss, hc', rfl⟩

/-- A debugger that sets no breakpoints. -/
def plainDebugger (enabled : BitVec 32) : KvmDebugGuest where
  enabled := enabled
  breakpoints := fun _ => ⟨0, 0⟩
  singlestep := 0

/-- A debugger of a guest in real mode. -/
theorem exceptionBitmap_exact_debugged : ∃ d, DebugSetUp smallVm d ∧ BitmapExact (debugGuest d (plainDebugger 1)) := by
  obtain ⟨d, hd⟩ := exists_debugSetUp
  refine ⟨d, hd, exceptionBitmap_exact hd rfl (.single (Or.inl ⟨.debugGuest (plainDebugger 1), rfl, ?_⟩))⟩
  rintro ⟨-, hno⟩
  exact absurd hno (by decide)

/-- The guest enters protected mode while it is debugged. -/
theorem pmode_switch_drops_debugger : ¬∀ (c : VcpuAlloc) (d₀ d : DebugVcpu), DebugSetUp c d₀ → c.rmode.active = false →
    ReflTransGen (fun d d' => ∃ op : DebugOp, op.run d = some d') d₀ d → BitmapExact d := by
  intro hall
  obtain ⟨d, hd⟩ := exists_debugSetUp
  have hrun : ReflTransGen (fun d d' => ∃ op : DebugOp, op.run d = some d') d (debugGuest d (plainDebugger 1)) :=
    .single ⟨.debugGuest (plainDebugger 1), rfl⟩
  obtain ⟨v, hv⟩ := setCr0_pe (debugGuest d (plainDebugger 1)).toKvmVcpu
  have hop : DebugOp.run (debugGuest d (plainDebugger 1)) (.mode (.write (.cr0 cr0PeMask))) =
      some { debugGuest d (plainDebugger 1) with toKvmVcpu := v } := Option.map_eq_some_iff.2 ⟨v, hv, rfl⟩
  have hclobbers : ClobbersBitmap (debugGuest d (plainDebugger 1)) (.mode (.write (.cr0 cr0PeMask))) := by
    obtain ⟨-, henabled, hrmode⟩ := debugGuest_bitmap d (plainDebugger 1)
    refine ⟨⟨cr0Faults_pe _, ?_, by decide⟩, ?_⟩
    · obtain ⟨-, host, allocs, c', htss, hsetup, heq⟩ := hd
      have hstart : RealModeStart c'.toKvmVcpu := SetUp.start ⟨host, allocs, smallVm, c', htss, hsetup, rfl⟩
      rw [hrmode, heq]
      exact hstart.rmode
    · rw [henabled]
      decide
  have hexact := hall smallVm d _ hd rfl hrun
  exact (DebugOp.run_exact hexact hop).1 (hall smallVm d _ hd rfl (hrun.tail ⟨_, hop⟩)) hclobbers

end LearnKvm
