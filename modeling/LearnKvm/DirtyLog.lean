import LearnKvm.BitmapLifetime
import LearnKvm.Machine

/-!
# Dirty marks during KVM_GET_DIRTY_LOG

While a thread copies and clears the bitmap of a slot, the vcpu handles faults and marks pages in it.  `MarksKept` says
that no mark is lost: what is set at some moment of the call is in the log that the call returns, or is still set then.
It holds if no new page is marked between the copy to user space and the `memset` (`dirty_marks_kept`).  A page marked
there is in neither, and it is writable, so that it is not marked again (`late_mark_lost`).
-/

namespace LearnKvm

open Relation

variable {v : Vcpu} {s s' : Machine} {t : Nat} {c : MemCall} {slot : BitVec 32}

/-- The thread `t` goes on with its call of KVM_GET_DIRTY_LOG, or the vcpu runs. -/
inductive LogStep (t : Nat) : Machine → Machine → Prop
  | call {s : Machine} {c : MemCall} (copied : Bool) (h : s.calls t = some c) : LogStep t s (s.call t noAllocs copied c)
  | vcpu {s : Machine} {v : Vcpu} (h : s.created = true) (hv : MmuStep s.vcpu v) : LogStep t s { s with vcpu := v }
  | other {s : Machine} {v : Vcpu} (h : SameShadow s.vcpu v) (hkvm : v.kvm = s.vcpu.kvm) :
      LogStep t s { s with vcpu := v }

/-- The thread `t` starts the call. -/
def Machine.getDirtyLog (s : Machine) (t : Nat) (slot : BitVec 32) : Machine := s.setMem (s.mem.getDirtyLog t slot)

theorem LogStep.machineStep (h : LogStep t s s') : MachineStep s s' := by
  cases h with
  | call copied h => exact .call copied h (noAllocs_fresh _)
  | vcpu h hv => exact .vcpu h hv
  | other h hkvm => exact .other h hkvm

/-- What is set in some bitmap in the state `s` is still set in `s'`, or it is in the log of the slot. -/
def MarksKept (slot : BitVec 32) (s s' : Machine) (log : Option (Nat → Bool)) : Prop :=
  ∀ map nr, s.vcpu.kvm.bitmap map nr = true → s'.vcpu.kvm.bitmap map nr = true ∨
    ∃ (i : Fin 4) (l : Nat → Bool), i.val = slot.toNat ∧ map = (s'.vcpu.kvm.memslots i).dirtyBitmap ∧ log = some l ∧
      l nr = true

/-- The log of a call that has copied the bitmap and not cleared it. -/
def MemCall.copied : MemCall → Option (Fin 4 × Nat × (Nat → Bool))
  | logCopied slot n log => some (slot, n, log)
  | logProtected slot n log => some (slot, n, log)
  | _ => none

/-- The step does not set a clear bit of the bitmap between the copy and the `memset`. -/
def NoLateMark (t : Nat) (s s' : Machine) : Prop :=
  ∀ c slot n log, s.calls t = some c → c.copied = some (slot, n, log) → ∀ nr < 8 * n,
    s'.vcpu.kvm.bitmap (s.vcpu.kvm.memslots slot).dirtyBitmap nr = true →
      s.vcpu.kvm.bitmap (s.vcpu.kvm.memslots slot).dirtyBitmap nr = true

/-! ### The places of the call -/

/-- The log that a call is to return, once it has cleared the bitmap. -/
def MemCall.log : MemCall → Option (Nat → Bool)
  | logCleared _ log => some log
  | logOut _ log => log
  | returned _ log => log
  | _ => none

/-- The call is in KVM_GET_DIRTY_LOG for this slot; a copied log has what is set in the bitmap. -/
def LogPlace (slot : BitVec 32) (kvm : Kvm) : MemCall → Prop
  | .logBusy slot' => slot' = slot
  | .logScanned i _ _ => i.val = slot.toNat
  | .logCopied i n log => i.val = slot.toNat ∧ ∀ nr < 8 * n, kvm.bitmap (kvm.memslots i).dirtyBitmap nr = true → log nr = true
  | .logProtected i n log => i.val = slot.toNat ∧ ∀ nr < 8 * n, kvm.bitmap (kvm.memslots i).dirtyBitmap nr = true → log nr = true
  | .logCleared i _ => i.val = slot.toNat
  | .logOut _ _ => True
  | .returned _ _ => True
  | _ => False

/-- What is set in `before` is still set, or in the log of the call. -/
def LogKeeps (slot : BitVec 32) (before kvm : Kvm) (c : MemCall) : Prop :=
  ∀ map nr, before.bitmap map nr = true → kvm.bitmap map nr = true ∨
    ∃ (i : Fin 4) (l : Nat → Bool), i.val = slot.toNat ∧ map = (kvm.memslots i).dirtyBitmap ∧ c.log = some l ∧ l nr = true

/-- Only the shadow pages change when the call goes on. -/
theorem MemCall.onVcpu_kvm (hlog : c.logging = true) (v : Vcpu) : (c.onVcpu v).kvm = v.kvm := by
  cases c with
  | logCopied slot n log => rw [MemCall.onVcpu, kvmMmuSlotRemoveWriteAccess_eq]
  | committed => cases hlog
  | _ => rfl

theorem Machine.mem_call (s : Machine) (t : Nat) (allocs : RegionAllocs) (copied : Bool) (hlog : c.logging = true) :
    (s.call t allocs copied c).mem = c.step s.mem t allocs copied := by
  unfold Machine.call
  split
  · show c.step { s.mem with kvm := (c.onVcpu s.vcpu).kvm } t allocs copied = _
    rw [MemCall.onVcpu_kvm hlog]
    rfl
  · rfl

/-- The call goes on: it stays in KVM_GET_DIRTY_LOG for the slot, and what it clears is in its log. -/
theorem LogPlace.step {m : MemSystem} (h : m.calls t = some c) (hc : LogPlace slot m.kvm c) (copied : Bool) :
    ∃ c', (c.step m t noAllocs copied).calls t = some c' ∧ LogPlace slot (c.step m t noAllocs copied).kvm c' ∧
      (c.step m t noAllocs copied).kvm.memslots = m.kvm.memslots ∧
      ∀ before, LogKeeps slot before m.kvm c → LogKeeps slot before (c.step m t noAllocs copied).kvm c' := by
  -- a place without a log whose step keeps the bitmap
  have hmove : ∀ (c' : MemCall), LogPlace slot m.kvm c' → (∀ l, c.log = some l → c'.log = some l) →
      ∃ c'', (m.setCall t c').calls t = some c'' ∧ LogPlace slot (m.setCall t c').kvm c'' ∧
        (m.setCall t c').kvm.memslots = m.kvm.memslots ∧
        ∀ before, LogKeeps slot before m.kvm c → LogKeeps slot before (m.setCall t c').kvm c'' := by
    intro c' hplace hlog
    refine ⟨c', MemSystem.setCall_self .., hplace, rfl, fun before hb map nr hbit => (hb map nr hbit).imp_right ?_⟩
    rintro ⟨i, l, hi, hmap, hl, hnr⟩
    exact ⟨i, l, hi, hmap, hlog l hl, hnr⟩
  cases c with
  | logBusy slot' =>
    obtain rfl : slot' = slot := hc
    unfold MemCall.step
    dsimp only
    split
    · exact hmove _ trivial fun l hl => by cases hl
    · split
      · exact hmove _ trivial fun l hl => by cases hl
      · exact hmove _ rfl fun l hl => by cases hl
  | logScanned i n any =>
    cases copied with
    | false => exact hmove _ trivial fun l hl => by cases hl
    | true =>
      cases any with
      | true =>
        refine hmove (.logCopied i n (copyBitmap m.kvm (m.kvm.memslots i) n)) ⟨hc, fun nr hnr hbit => ?_⟩
          fun l hl => by cases hl
        unfold copyBitmap
        rw [hbit, decide_eq_true hnr]
        rfl
      | false => exact hmove _ trivial fun l hl => by cases hl
  | logCopied i n log => exact hmove (.logProtected i n log) hc fun l hl => by cases hl
  | logProtected i n log =>
    refine ⟨.logCleared i log, MemSystem.setCall_self .., hc.1, rfl, fun before hb map nr hbit => ?_⟩
    show (clearBitmap m.kvm (m.kvm.memslots i) n).bitmap map nr = true ∨ _
    unfold clearBitmap
    dsimp only
    split
    · rename_i hin
      -- the bit is cleared, and it is in the log
      obtain ⟨rfl, hlt⟩ := hin
      have hset := (hb _ nr hbit).resolve_right fun ⟨_, l, _, _, hl, _⟩ => by cases hl
      exact Or.inr ⟨i, log, hc.1, rfl, rfl, hc.2 nr hlt hset⟩
    · refine Or.inl ((hb map nr hbit).resolve_right fun ⟨_, l, _, _, hl, _⟩ => by cases hl)
  | logCleared i log => exact hmove (.logOut 0 (some log)) trivial fun l hl => hl
  | logOut r log => exact hmove (.returned r log) trivial fun l hl => hl
  | returned r log => exact hmove (.returned r log) trivial fun l hl => hl
  | _ => exact hc.elim

/-! ### The run -/

/-- What holds during the call, `before` being an earlier state. -/
structure LogCallInv (t : Nat) (slot : BitVec 32) (before : Kvm) (s : Machine) : Prop where
  machine : MachineInv s
  keeps : ∃ c, s.calls t = some c ∧ LogPlace slot s.vcpu.kvm c ∧ LogKeeps slot before s.vcpu.kvm c

/-- The vcpu marks pages, but no new one between the copy and the `memset`. -/
theorem LogPlace.grow {kvm kvm' : Kvm} (h : LogPlace slot kvm c) (hgrows : KvmGrows kvm kvm')
    (hlate : ∀ i n log, c.copied = some (i, n, log) → ∀ nr < 8 * n,
      kvm'.bitmap (kvm.memslots i).dirtyBitmap nr = true → kvm.bitmap (kvm.memslots i).dirtyBitmap nr = true) :
    LogPlace slot kvm' c := by
  have hslots : kvm'.memslots = kvm.memslots := by rw [hgrows.frame]
  cases c with
  | logCopied i n log =>
    refine ⟨h.1, fun nr hnr hbit => h.2 nr hnr (hlate i n log rfl nr hnr ?_)⟩
    rwa [hslots] at hbit
  | logProtected i n log =>
    refine ⟨h.1, fun nr hnr hbit => h.2 nr hnr (hlate i n log rfl nr hnr ?_)⟩
    rwa [hslots] at hbit
  | _ => exact h

theorem LogKeeps.grow {before kvm kvm' : Kvm} (h : LogKeeps slot before kvm c) (hgrows : KvmGrows kvm kvm') :
    LogKeeps slot before kvm' c := by
  have hslots : kvm'.memslots = kvm.memslots := by rw [hgrows.frame]
  intro map nr hbit
  rcases h map nr hbit with hset | hlog
  · exact Or.inl (hgrows.bits map nr hset)
  · rw [hslots]
    exact Or.inr hlog

theorem LogCallInv.step {before : Kvm} (hi : LogCallInv t slot before s) (h : LogStep t s s') (hlate : NoLateMark t s s') :
    LogCallInv t slot before s' := by
  obtain ⟨hm, c, hc, hplace, hkeeps⟩ := hi
  have hm' := hm.step h.machineStep
  have hgrow : ∀ v : Vcpu, KvmGrows s.vcpu.kvm v.kvm → NoLateMark t s { s with vcpu := v } →
      ∃ c, ({ s with vcpu := v } : Machine).calls t = some c ∧ LogPlace slot v.kvm c ∧ LogKeeps slot before v.kvm c :=
    fun v hgrows hlate => ⟨c, hc, hplace.grow hgrows fun i n log hcopied => hlate c i n log hc hcopied,
      hkeeps.grow hgrows⟩
  refine ⟨hm', ?_⟩
  cases h with
  | @call c' copied h =>
    obtain rfl : c = c' := Option.some.inj (hc.symm.trans h)
    have hlog : c.logging = true ∨ ∃ r log, c = .returned r log := by
      cases c with
      | returned r log => exact Or.inr ⟨r, log, rfl⟩
      | raced => exact hplace.elim
      | checked => exact hplace.elim
      | allocated => exact hplace.elim
      | committed => exact hplace.elim
      | reset => exact hplace.elim
      | _ => exact Or.inl rfl
    have hmem : (s.call t noAllocs copied c).mem = c.step s.mem t noAllocs copied := by
      rcases hlog with hlog | ⟨r, log, rfl⟩
      · exact s.mem_call t noAllocs copied hlog
      · unfold Machine.call
        split <;> rfl
    obtain ⟨c', hc', hplace', -, hkeeps'⟩ := LogPlace.step (m := s.mem) h hplace copied
    rw [← hmem] at hc' hplace' hkeeps'
    exact ⟨c', hc', hplace', hkeeps' before hkeeps⟩
  | vcpu hcreated hv =>
    obtain ⟨pool, lvl, r, h1, hlen⟩ := hm.mmu hcreated
    exact hgrow _ (hv.kvmGrows h1 (List.ne_nil_of_length_pos (by omega))) hlate
  | @other v h hkvm => exact hgrow v (hkvm ▸ .refl _) hlate

/-- A run of the call in which no new page is marked between the copy and the `memset`. -/
def LogRun (t : Nat) : Machine → Machine → Prop := ReflTransGen fun s s' => LogStep t s s' ∧ NoLateMark t s s'

theorem LogRun.steps (h : LogRun t s s') : ReflTransGen (LogStep t) s s' := ReflTransGen.mono (fun _ _ h => h.1) _ _ h

theorem LogCallInv.run {before : Kvm} (hi : LogCallInv t slot before s) (h : LogRun t s s') : LogCallInv t slot before s' := by
  induction h with
  | refl => exact hi
  | tail _ hstep ih => exact ih.step hstep.1 hstep.2

/-- **No dirty mark is lost** when no new page is marked between the copy and the `memset`: whatever is set in a bitmap
at some moment of the call, by `mark_page_dirty` or before, is in the log that the call returns or is still set then. -/
theorem dirty_marks_kept {s₀ : Machine} (h₀ : MachineRun (fun _ => True) (.opened v) s₀) (hfree : s₀.mem.Free t)
    (hrun : LogRun t (s₀.getDirtyLog t slot) s) (hrest : LogRun t s s') {r : Int} {log : Option (Nat → Bool)}
    (hret : s'.calls t = some (.returned r log)) : MarksKept slot s s' log := by
  have hm : MachineInv (s₀.getDirtyLog t slot) := ((machineInv_opened v).run h₀).step (.getDirtyLog slot hfree)
  have hstart : LogCallInv t slot (s₀.getDirtyLog t slot).vcpu.kvm (s₀.getDirtyLog t slot) :=
    ⟨hm, .logBusy slot, MemSystem.setCall_self .., rfl, fun _ _ hbit => Or.inl hbit⟩
  -- the same invariant from the state `s` on, with what is set there
  obtain ⟨hm', c, hc, hplace, -⟩ := hstart.run hrun
  have hmid : LogCallInv t slot s.vcpu.kvm s := ⟨hm', c, hc, hplace, fun _ _ hbit => Or.inl hbit⟩
  obtain ⟨-, c', hc', -, hkeeps⟩ := hmid.run hrest
  obtain rfl : c' = .returned r log := Option.some.inj (hc'.symm.trans hret)
  exact hkeeps

/-! ### A page that is marked too late -/

/-- A slot of two pages with a bitmap. -/
def loggedPages : KvmMemoryRegion := { loggedPage with memorySize := 0x2000 }

def loggedPagesAllocs : RegionAllocs :=
  { loggedAllocs with page := fun i => if i < 2 then some (BitVec.ofNat 40 (i + 1000)) else none }

theorem loggedPagesAllocs_fresh : loggedPagesAllocs.Fresh [] :=
  ⟨fun _ _ => List.not_mem_nil, loggedAllocs_fresh.bitmap, fun _ _ _ => List.not_mem_nil,
    consecutive_pages (fun _ => rfl) (by decide)⟩

def loggedPagesSlot : Allocated := allocRegion loggedPagesAllocs (newSlot loggedPages noMemory)
def loggedPagesKvm : Kvm := commitRegion (loggedPagesSlot.store noMemory default) 0 loggedPagesSlot.slot

/-- A thread creates the slot. -/
theorem loggedPages_created : ∃ m, ReflTransGen ThreadStep .opened m ∧ m.kvm = loggedPagesKvm ∧
    m.live = runOps [] loggedPagesSlot.ops ∧ m.commits = 1 ∧ ∀ t, m.Free t := by
  have halloc := call_allocates (s := .opened) (t := 0) loggedPages (fun c hc => by cases hc) rfl rfl
    loggedPagesAllocs_fresh rfl rfl
  have hreturn := call_returns (MemSystem.setCall_self { MemSystem.opened with
    kvm := loggedPagesSlot.store noMemory MemSystem.opened.kvm
    live := runOps [] loggedPagesSlot.ops } 0 (.allocated loggedPages 0 noMemory loggedPagesSlot 0 0)) rfl rfl
  refine ⟨_, halloc.trans hreturn, rfl, rfl, rfl, fun t c hc => ?_⟩
  by_cases ht : t = 0
  · subst ht
    rw [MemSystem.setCall_self] at hc
    exact ⟨0, none, (Option.some.inj hc).symm⟩
  · rw [MemSystem.setCall_of_ne ht, MemSystem.setCall_of_ne ht] at hc
    cases hc

/-- The shadow pages are none of the slot. -/
theorem somePages_fresh {m : MemSystem} (hlive : m.live = runOps [] loggedPagesSlot.ops) (i : Fin 256) (p : Pfn)
    (hi : somePages i = some p) : Resource.page p ∉ m.live := by
  rw [hlive, show runOps [] loggedPagesSlot.ops = [.array 2, .page 1001, .page 1000, .array 1] from rfl]
  have hp := congrArg BitVec.toNat (Option.some.inj hi)
  rw [BitVec.toNat_ofNat, Nat.mod_eq_of_lt (by omega)] at hp
  intro hmem
  simp only [List.mem_cons, Resource.page.injEq, reduceCtorEq, false_or, List.not_mem_nil, or_false] at hmem
  rcases hmem with rfl | rfl
  · exact absurd hp (by simp; omega)
  · exact absurd hp (by simp; omega)

/-- Then the vcpu is created. -/
theorem loggedPages_machine : ∃ s, MachineRun (fun _ => True) (.opened default) s ∧ s.created = true ∧
    s.vcpu.mmu.ops = .nonpaging ∧ (∃ pages, s.vcpu.kvm = { loggedPagesKvm with activeMmuPages := pages }) ∧
    s.commits = 1 ∧ ∀ t, s.mem.Free t := by
  obtain ⟨m, hrun, hkvm, hlive, hcommits, hfree⟩ := loggedPages_created
  obtain ⟨s, hrun', hcreated, hops, ⟨pages, hkvm'⟩, -, hcalls, hcommits', -⟩ :=
    exists_created hrun somePages_injective (fun _ => rfl) (somePages_fresh hlive)
  refine ⟨s, hrun', hcreated, hops, ⟨pages, hkvm'.trans ?_⟩, hcommits'.trans hcommits, fun t c hc => ?_⟩
  · rw [hkvm]
  · exact hfree t c ((congrFun hcalls t).symm.trans hc)

/-- The call sets no bit. -/
theorem MemCall.bitmap_step (m : MemSystem) (t : Nat) (copied : Bool) (hlog : c.logging = true) {map nr : Nat}
    (hbit : (c.step m t noAllocs copied).kvm.bitmap map nr = true) : m.kvm.bitmap map nr = true := by
  cases c with
  | logBusy slot =>
    obtain ⟨c', heq, -⟩ := step_logBusy m t noAllocs copied slot
    rwa [heq] at hbit
  | logScanned i n any =>
    obtain ⟨c', heq, -⟩ := step_logScanned m t noAllocs copied i n any
    rwa [heq] at hbit
  | logProtected i n log =>
    replace hbit : (if map = (m.kvm.memslots i).dirtyBitmap ∧ nr < 8 * n then false else m.kvm.bitmap map nr) = true := hbit
    split at hbit
    · cases hbit
    · exact hbit
  | logCopied i n log => exact hbit
  | logCleared i log => exact hbit
  | logOut r log => exact hbit
  | _ => cases hlog

/-- The call can go on; only the shadow pages and the registers of the vcpu change beside what the threads see. -/
theorem exists_logStep (h : s.calls t = some c) (hlog : c.logging = true) (copied : Bool) :
    ∃ s', LogRun t s s' ∧ s'.mem = c.step s.mem t noAllocs copied ∧ s'.created = s.created ∧
      s'.vcpu.mmu = s.vcpu.mmu := by
  have hmem := s.mem_call t noAllocs copied hlog
  refine ⟨_, .single ⟨.call copied h, fun _ _ _ _ _ _ nr _ hbit => ?_⟩, hmem, ?_, ?_⟩
  · rw [show (s.call t noAllocs copied c).vcpu.kvm = _ from congrArg MemSystem.kvm hmem] at hbit
    exact MemCall.bitmap_step s.mem t copied hlog hbit
  · unfold Machine.call
    split <;> rfl
  · have hmmu : (c.onVcpu s.vcpu).mmu = s.vcpu.mmu := by
      cases c with
      | logCopied slot n log => rw [MemCall.onVcpu, kvmMmuSlotRemoveWriteAccess_eq]
      | committed => cases hlog
      | _ => rfl
    unfold Machine.call
    split
    · exact hmmu
    · rfl

/-- The call scans the bitmap, finds a set bit, and copies it. -/
theorem log_copied (h : s.calls t = some (.logBusy slot)) {i : Fin 4} (hi : i.val = slot.toNat) {n : Nat}
    (hmap : (s.vcpu.kvm.memslots i).dirtyBitmap ≠ 0) (hn : logBytes (s.vcpu.kvm.memslots i) = n)
    (hscan : scanBitmap s.vcpu.kvm (s.vcpu.kvm.memslots i) n = true) :
    ∃ s', LogRun t s s' ∧ s'.vcpu.kvm = s.vcpu.kvm ∧ s'.created = s.created ∧ s'.vcpu.mmu = s.vcpu.mmu ∧
      s'.calls t = some (.logCopied i n (copyBitmap s.vcpu.kvm (s.vcpu.kvm.memslots i) n)) := by
  have hslot : ¬kvmMemorySlots ≤ slot.toNat := by
    rw [← hi]
    exact Nat.not_le_of_lt i.isLt
  obtain rfl : i = ⟨slot.toNat, Nat.lt_of_not_le hslot⟩ := Fin.ext hi
  subst hn
  obtain ⟨s₁, hstep₁, hmem₁, hcreated₁, hmmu₁⟩ := exists_logStep h rfl true
  unfold MemCall.step at hmem₁
  dsimp only at hmem₁
  rw [dif_neg hslot, if_neg (show ¬(s.mem.kvm.memslots _).dirtyBitmap = 0 from hmap),
    show scanBitmap s.mem.kvm (s.mem.kvm.memslots _) (logBytes (s.mem.kvm.memslots _)) = true from hscan] at hmem₁
  have hkvm₁ : s₁.vcpu.kvm = s.vcpu.kvm := congrArg MemSystem.kvm hmem₁
  have hcall₁ : s₁.calls t = some (.logScanned _ _ true) :=
    (congrArg (fun m => m.calls t) hmem₁).trans (MemSystem.setCall_self ..)
  obtain ⟨s₂, hstep₂, hmem₂, hcreated₂, hmmu₂⟩ := exists_logStep hcall₁ rfl true
  refine ⟨s₂, hstep₁.trans hstep₂, ?_, hcreated₂.trans hcreated₁, hmmu₂.trans hmmu₁, ?_⟩
  · exact (congrArg MemSystem.kvm hmem₂).trans hkvm₁
  · refine (congrArg (fun m => m.calls t) hmem₂).trans ((MemSystem.setCall_self ..).trans ?_)
    rw [show s₁.mem.kvm = s.vcpu.kvm from hkvm₁]
    rfl

/-- From there on nothing depends on the bitmap any more. -/
theorem log_returned {i : Fin 4} {n : Nat} {log : Nat → Bool} (h : s.calls t = some (.logCopied i n log)) :
    ∃ s', LogRun t s s' ∧ s'.calls t = some (.returned 0 (some log)) ∧
      s'.vcpu.kvm.bitmap = (clearBitmap s.vcpu.kvm (s.vcpu.kvm.memslots i) n).bitmap := by
  have hself : ∀ (s s' : Machine) (m : MemSystem) (c : MemCall), s'.mem = m.setCall t c → s'.calls t = some c :=
    fun s s' m c hmem => (congrArg (fun m => m.calls t) hmem).trans (MemSystem.setCall_self ..)
  obtain ⟨s₁, hstep₁, hmem₁, -⟩ := exists_logStep h rfl true
  obtain ⟨s₂, hstep₂, hmem₂, -⟩ := exists_logStep (hself s s₁ _ _ hmem₁) rfl true
  obtain ⟨s₃, hstep₃, hmem₃, -⟩ := exists_logStep (hself s₁ s₂ _ _ hmem₂) rfl true
  obtain ⟨s₄, hstep₄, hmem₄, -⟩ := exists_logStep (hself s₂ s₃ _ _ hmem₃) rfl true
  have hkvm₁ : s₁.vcpu.kvm = s.vcpu.kvm := congrArg MemSystem.kvm hmem₁
  have hkvm₂ : s₂.vcpu.kvm = clearBitmap s₁.vcpu.kvm (s₁.vcpu.kvm.memslots i) n := congrArg MemSystem.kvm hmem₂
  have hkvm₃ : s₃.vcpu.kvm = s₂.vcpu.kvm := congrArg MemSystem.kvm hmem₃
  have hkvm₄ : s₄.vcpu.kvm = { s₃.vcpu.kvm with busy := s₃.vcpu.kvm.busy - 1#32 } := congrArg MemSystem.kvm hmem₄
  rw [hkvm₁] at hkvm₂
  refine ⟨s₄, ((hstep₁.trans hstep₂).trans hstep₃).trans hstep₄, hself s₃ s₄ _ _ hmem₄, ?_⟩
  rw [hkvm₄, hkvm₃, hkvm₂]

@[simp] theorem Machine.getDirtyLog_calls (s : Machine) (t : Nat) (slot : BitVec 32) :
    (s.getDirtyLog t slot).calls t = some (.logBusy slot) := MemSystem.setCall_self ..

/-- After a write to the first page. -/
def firstDirty : Kvm := markPageDirty loggedPagesKvm 0

theorem firstDirty_machine : ∃ s, MachineRun (fun _ => True) (.opened default) s ∧ s.created = true ∧
    s.vcpu.mmu.ops = .nonpaging ∧ (∃ pages, s.vcpu.kvm = { firstDirty with activeMmuPages := pages }) ∧
    s.commits = 1 ∧ (∀ t, s.mem.Free t) ∧
    ∃ q, OnPath s.vcpu 0 1 q ∧ (s.vcpu.shadow q (pt64Index 0 1)).hasBit 0 = true := by
  obtain ⟨s₀, hrun, hcreated, hops, ⟨pages, hkvm⟩, hcommits, hfree⟩ := loggedPages_machine
  have hsame : gpaToHpa s₀.vcpu.kvm (0 &&& pt64BaseAddrMask) = gpaToHpa loggedPagesKvm (0 &&& pt64BaseAddrMask) :=
    gpaToHpa_congr (by rw [hkvm]) (by rw [hkvm]) (by rw [hkvm]) _
  have herr : isErrorHpa (gpaToHpa s₀.vcpu.kvm (0 &&& pt64BaseAddrMask)) = false := by
    rw [hsame]
    decide
  obtain ⟨v, hv, hops', ⟨pages', hkvm'⟩, q, hq, hentry⟩ :=
    ((machineInv_opened default).run hrun).nonpaging_fault hcreated hops (by decide) herr
  rw [hkvm, markPageDirty_active] at hkvm'
  refine ⟨_, hrun.tail ⟨.vcpu hcreated hv, trivial⟩, hcreated, hops', ⟨pages', hkvm'⟩, hcommits, hfree, q, hq, ?_⟩
  have hbit := congrArg (fun e => BitVec.hasBit e 0) hentry
  exact hbit.trans (by simp)

/-- The call on the machine with a dirty first page, up to the copy. -/
theorem firstDirty_copied : ∃ s₀ s, MachineRun (fun _ => True) (.opened default) s₀ ∧ s₀.mem.Free 0 ∧
    LogRun 0 (s₀.getDirtyLog 0 0) s ∧ s.created = true ∧ s.vcpu.mmu.ops = .nonpaging ∧
    s.vcpu.kvm.memslots = firstDirty.memslots ∧ s.vcpu.kvm.nmemslots = firstDirty.nmemslots ∧
    s.vcpu.kvm.pageArray = firstDirty.pageArray ∧ s.vcpu.kvm.bitmap = firstDirty.bitmap ∧
    s.calls 0 = some (.logCopied 0 1 (copyBitmap firstDirty (firstDirty.memslots 0) 1)) := by
  obtain ⟨s₀, hrun, hcreated, hops, ⟨pages, hkvm⟩, -, hfree, -⟩ := firstDirty_machine
  have hslots : s₀.vcpu.kvm.memslots = firstDirty.memslots := by rw [hkvm]
  have hbits : s₀.vcpu.kvm.bitmap = firstDirty.bitmap := by rw [hkvm]
  obtain ⟨s₁, hrun₁, hkvm₁, hcreated₁, hmmu₁, hcall₁⟩ := log_copied (s := s₀.getDirtyLog 0 0) (i := 0) (n := 1)
    (s₀.getDirtyLog_calls 0 0) rfl (show (s₀.vcpu.kvm.memslots 0).dirtyBitmap ≠ 0 by rw [hslots]; decide)
    (show logBytes (s₀.vcpu.kvm.memslots 0) = 1 by rw [hslots]; decide)
    (show (List.range 1).any (bitmapWord (s₀.vcpu.kvm.bitmap (s₀.vcpu.kvm.memslots 0).dirtyBitmap)) = true by
      rw [hslots, hbits]; decide)
  replace hkvm₁ : s₁.vcpu.kvm = { s₀.vcpu.kvm with busy := s₀.vcpu.kvm.busy + 1#32 } := hkvm₁
  refine ⟨s₀, s₁, hrun, hfree 0, hrun₁, hcreated₁.trans hcreated, by rw [hmmu₁]; exact hops, by rw [hkvm₁, hslots],
    by rw [hkvm₁, hkvm], by rw [hkvm₁, hkvm], by rw [hkvm₁, hbits], ?_⟩
  rw [hcall₁]
  have hcopy : copyBitmap (s₀.getDirtyLog 0 0).vcpu.kvm ((s₀.getDirtyLog 0 0).vcpu.kvm.memslots 0) 1 =
      copyBitmap s₀.vcpu.kvm (s₀.vcpu.kvm.memslots 0) 1 := rfl
  rw [hcopy]
  unfold copyBitmap
  rw [hslots, hbits]

/-- With no write during the call the log has the first page. -/
theorem dirty_marks_kept_firstDirty : ∃ s s' : Machine, ∃ log, s.calls 0 = some (.logBusy 0) ∧
    s'.calls 0 = some (.returned 0 (some log)) ∧ MarksKept 0 s s' (some log) := by
  obtain ⟨s₀, s, hrun₀, hfree, hrun, -, -, -, -, -, -, hcall⟩ := firstDirty_copied
  obtain ⟨s', hrun', hret, -⟩ := log_returned hcall
  exact ⟨_, s', _, s₀.getDirtyLog_calls 0 0, hret, dirty_marks_kept hrun₀ hfree .refl (hrun.trans hrun') hret⟩

/-- The first page is dirty when the call begins.  The second one is written when the bitmap has been copied. -/
theorem late_mark_lost : ¬∀ (v : Vcpu) (s₀ s s' : Machine) (t : Nat) (slot : BitVec 32) (r : Int)
    (log : Option (Nat → Bool)), MachineRun (fun _ => True) (.opened v) s₀ → s₀.mem.Free t →
      ReflTransGen (LogStep t) (s₀.getDirtyLog t slot) s → ReflTransGen (LogStep t) s s' →
      s'.calls t = some (.returned r log) → MarksKept slot s s' log := by
  intro hall
  obtain ⟨s₀, s, hrun, hfree, hrun₁, hcreated, hops, hslots, hn, hpages, hbits, hcall⟩ := firstDirty_copied
  have hinv : MachineInv s := (((machineInv_opened default).run hrun).step (.getDirtyLog 0 hfree)).run
    (ReflTransGen.mono (fun _ _ h => ⟨h.1.machineStep, trivial⟩) _ _ hrun₁)
  -- the write to the second page
  have hgpa : gpaToHpa s.vcpu.kvm (0x1000 &&& pt64BaseAddrMask) = gpaToHpa firstDirty (0x1000 &&& pt64BaseAddrMask) :=
    gpaToHpa_congr hn hslots hpages _
  obtain ⟨v, hv, -, ⟨pages', hkvm⟩, -⟩ := hinv.nonpaging_fault hcreated hops
    (show (0x1000 : BitVec 64).toNat < 2 ^ 32 by decide) (by rw [hgpa]; decide)
  have hset : v.kvm.bitmap 2 1 = true := by
    rw [hkvm]
    refine (bitmap_markPageDirty s.vcpu.kvm _ 2 1).2 (Or.inr ⟨0, ?_, ?_, ?_, ?_⟩)
    · exact (gfnToMemslot_congr hn hslots _).trans (by decide)
    all_goals rw [hslots]; decide
  -- the rest of the call
  obtain ⟨s', hrun', hret, hbits'⟩ := log_returned (s := { s with vcpu := v }) hcall
  have hclear : s'.vcpu.kvm.bitmap 2 1 = false := by
    have hmem : v.kvm.memslots = firstDirty.memslots := by rw [hkvm, markPageDirty_frame, hslots]
    rw [hbits']
    unfold clearBitmap
    dsimp only
    rw [hmem]
    exact if_pos (by decide)
  have hkept := hall default s₀ { s with vcpu := v } s' 0 0 0 _ hrun hfree (hrun₁.steps.tail (.vcpu hcreated hv))
    hrun'.steps hret
  rcases hkept 2 1 hset with hbit | ⟨i, l, -, -, hl, hbit⟩
  · rw [hclear] at hbit
    cases hbit
  · obtain rfl := Option.some.inj hl
    exact absurd hbit (by decide)

end LearnKvm
