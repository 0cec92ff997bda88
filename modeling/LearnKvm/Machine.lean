import LearnKvm.MemoryOwnership
import LearnKvm.Mmu.Conservation

/-!
# The machine

The vcpu and the threads that change the memory of the machine, as one system.  The vcpu handles faults and calls the MMU
under `kvm->lock`; a thread in KVM_SET_MEMORY_REGION resets the context of the vcpu after the commit, one in
KVM_GET_DIRTY_LOG withdraws write access.  `Machine.mem` is what the threads see of the machine: a step of the machine is
a step of `MemSystem` (`MachineRun.mem`), so what is known of its runs holds here.  `MachineInv` is what holds of the
shadow pages.
-/

namespace LearnKvm

open Relation

structure Machine where
  vcpu : Vcpu
  /-- `kvm_mmu_init` has succeeded, so that `vcpu_load` finds the vcpu. -/
  created : Bool
  live : List Resource
  commits : Nat
  calls : Nat → Option MemCall

namespace Machine

/-- The part of the machine that the threads see. -/
def mem (s : Machine) : MemSystem where
  kvm := s.vcpu.kvm
  live := s.live
  commits := s.commits
  calls := s.calls

def setMem (s : Machine) (m : MemSystem) : Machine where
  vcpu := { s.vcpu with kvm := m.kvm }
  created := s.created
  live := m.live
  commits := m.commits
  calls := m.calls

/-- A machine as `kvm_dev_open` leaves it. -/
def opened (v : Vcpu) : Machine where
  vcpu := { v with kvm := default, freePages := [], failed := [] }
  created := false
  live := []
  commits := 0
  calls := fun _ => none

end Machine

def flushGuestTlb (s : Vcpu) : Vcpu := { s with vmcs := vmcsWritel s.vmcs .guestCr3 (vmcsReadl s.vmcs .guestCr3) }

/-- What a call does with the vcpu when it goes on from a place. -/
def MemCall.onVcpu (s : Vcpu) : MemCall → Vcpu
  | committed _ _ => kvmMmuResetContext s
  | logCopied slot _ _ => kvmMmuSlotRemoveWriteAccess s slot
  | logCleared _ _ => flushGuestTlb s
  | _ => s

/-- The call of the thread `t` goes on. -/
def Machine.call (s : Machine) (t : Nat) (allocs : RegionAllocs) (copied : Bool) (c : MemCall) : Machine :=
  let s := if s.created then { s with vcpu := c.onVcpu s.vcpu } else s
  s.setMem (c.step s.mem t allocs copied)

/-- A call of the vcpu into the MMU. -/
inductive MmuStep : Vcpu → Vcpu → Prop
  | pageFault {s : Vcpu} {addr : BitVec 64} {errorCode : BitVec 32} {fuel : Nat} {out : Vcpu × Bool}
      (haddr : s.mmu.ops = .nonpaging → addr.toNat < 2 ^ 32) (h : mmuPageFault s addr errorCode fuel = some out) :
      MmuStep s out.1
  | invalPage (s : Vcpu) (addr : BitVec 64) : MmuStep s (mmuInvalPage s addr)
  | newCr3 (s : Vcpu) : MmuStep s (mmuNewCr3 s)
  | resetContext (s : Vcpu) : MmuStep s (kvmMmuResetContext s)

/-- A thread starts a call or goes on with it, `kvm_mmu_init` is called, the vcpu calls the MMU, or the guest and the host
change something that is neither in a shadow page nor in `struct kvm`. -/
inductive MachineStep : Machine → Machine → Prop
  | setMemoryRegion {s : Machine} {t : Nat} (mem : KvmMemoryRegion) (h : s.mem.Free t) :
      MachineStep s (s.setMem (s.mem.setMemoryRegion t mem))
  | getDirtyLog {s : Machine} {t : Nat} (slot : BitVec 32) (h : s.mem.Free t) :
      MachineStep s (s.setMem (s.mem.getDirtyLog t slot))
  | call {s : Machine} {t : Nat} {c : MemCall} {allocs : RegionAllocs} (copied : Bool) (h : s.calls t = some c)
      (hfresh : allocs.Fresh s.live) : MachineStep s (s.call t allocs copied c)
  | create {s : Machine} {alloc : Fin 256 → Option Pfn} (h : s.created = false)
      (hdistinct : ∀ i j p, alloc i = some p → alloc j = some p → i = j)
      (hfresh : ∀ i p, alloc i = some p → Resource.page p ∉ s.live) :
      MachineStep s { s with vcpu := (kvmMmuInit alloc s.vcpu).1, created := (kvmMmuInit alloc s.vcpu).2 }
  | vcpu {s : Machine} {v : Vcpu} (h : s.created = true) (hv : MmuStep s.vcpu v) : MachineStep s { s with vcpu := v }
  | other {s : Machine} {v : Vcpu} (h : SameShadow s.vcpu v) (hkvm : v.kvm = s.vcpu.kvm) :
      MachineStep s { s with vcpu := v }

/-- A run whose steps are taken in states with `ok`. -/
def MachineRun (ok : Machine → Prop) : Machine → Machine → Prop := ReflTransGen fun s s' => MachineStep s s' ∧ ok s

variable {pool : List Pfn} {lvl : Pfn → Nat} {r : Pfn} {v v' : Vcpu} {pt : PtType} {va hpa : BitVec 64}
  {s s' : Machine} {t : Nat} {c : MemCall}

/-! ### What the MMU changes in `struct kvm` -/

/-- Pages are marked dirty, and the list of shadow pages changes. -/
structure KvmGrows (kvm kvm' : Kvm) : Prop where
  frame : kvm' = { kvm with bitmap := kvm'.bitmap, activeMmuPages := kvm'.activeMmuPages }
  bits : ∀ map nr, kvm.bitmap map nr = true → kvm'.bitmap map nr = true

namespace KvmGrows

theorem refl (kvm : Kvm) : KvmGrows kvm kvm := ⟨rfl, fun _ _ h => h⟩

theorem trans {kvm kvm' kvm'' : Kvm} (h : KvmGrows kvm kvm') (h' : KvmGrows kvm' kvm'') : KvmGrows kvm kvm'' where
  frame := by rw [h'.frame, h.frame]
  bits map nr hb := h'.bits map nr (h.bits map nr hb)

theorem of_active {kvm kvm' : Kvm} (h : kvm' = { kvm with activeMmuPages := kvm'.activeMmuPages }) :
    KvmGrows kvm kvm' := by
  rw [h]
  exact ⟨rfl, fun _ _ hb => hb⟩

theorem markPageDirty (kvm : Kvm) (gfn : Nat) : KvmGrows kvm (markPageDirty kvm gfn) := by
  exact ⟨by rw [markPageDirty_frame], fun map nr hb => (bitmap_markPageDirty kvm gfn map nr).2 (Or.inl hb)⟩

theorem faultStep (h : MmuInv pool lvl r v) (hpool : pool ≠ []) (hs : FaultStep pt va v v') :
    KvmGrows v.kvm v'.kvm := by
  cases hs with
  | leaf =>
    unfold installLeaf
    dsimp only
    split
    · exact markPageDirty ..
    · exact refl _
  | flush =>
    obtain ⟨lvl', q, -, h1, -⟩ := nonpagingFlush_spec h hpool
    exact of_active (by rw [h1.kvm])
  | dirty => exact markPageDirty ..
  | inject errCode =>
    rw [injectPageFault_frame]
    exact refl _
  | link => exact of_active rfl
  | _ => exact refl _

theorem nonpagingStep (h : MmuInv pool lvl r v) (hpool : pool ≠ []) (hs : NonpagingStep va hpa v v') :
    KvmGrows v.kvm v'.kvm := by
  cases hs with
  | link => exact of_active rfl
  | @leaf p hp =>
    unfold nonpagingLeaf
    rw [(pageHeaderUpdateSlot_frame { v with kvm := LearnKvm.markPageDirty v.kvm (gfnOf va) } p va).1]
    exact markPageDirty ..
  | flush =>
    obtain ⟨lvl', q, -, h1, -⟩ := nonpagingFlush_spec h hpool
    exact of_active (by rw [h1.kvm])

theorem released (h : Released v v') : KvmGrows v.kvm v'.kvm := of_active (by rw [h.frame])

theorem gfnToMemslot {kvm kvm' : Kvm} (h : KvmGrows kvm kvm') (gfn : Nat) :
    gfnToMemslot kvm' gfn = LearnKvm.gfnToMemslot kvm gfn := by
  rw [h.frame]
  exact gfnToMemslot_congr rfl rfl gfn

end KvmGrows

theorem MmuStep.mmuCall (h : MmuStep v v') : MmuCall v v' := by
  cases h with
  | pageFault haddr h => exact .pageFault haddr h
  | invalPage addr => exact .invalPage v addr
  | newCr3 => exact .newCr3 v
  | resetContext => exact .resetContext v

/-- What the steps of both contexts keep, the fault handler keeps. -/
theorem MmuInv.pageFault_keeps {P : Vcpu → Prop} (h : MmuInv pool lvl r v) (hpool : pool ≠ []) {addr : BitVec 64}
    {errorCode : BitVec 32} {fuel : Nat} {out : Vcpu × Bool} (hs : LearnKvm.mmuPageFault v addr errorCode fuel = some out)
    (hfault : ∀ {pt : PtType} {v v' : Vcpu} {lvl : Pfn → Nat} {r : Pfn}, MmuInv pool lvl r v → P v →
      FaultStep pt addr v v' → P v')
    (hnonpaging : ∀ {v₁ v' : Vcpu} {lvl : Pfn → Nat} {r : Pfn}, v.mmu.ops = .nonpaging →
      isErrorHpa (gpaToHpa v.kvm (addr &&& pt64BaseAddrMask)) = false → MmuInv pool lvl r v₁ → P v₁ →
      NonpagingStep (addr &&& pageMask) (gpaToHpa v.kvm (addr &&& pt64BaseAddrMask)) v₁ v' → P v')
    (hv : P v) : P out.1 := by
  rcases h.pageFault_run hpool hs with rfl | ⟨hops, herr, hsteps⟩ | ⟨-, hsteps⟩
  · exact hv
  · exact (NonpagingStep.run hpool (hnonpaging hops herr) h hv hsteps).2
  · exact (FaultStep.run hpool hfault h hv hsteps).2

theorem MmuInv.kvmGrows_pageFault (h : MmuInv pool lvl r v) (hpool : pool ≠ []) {addr : BitVec 64}
    {errorCode : BitVec 32} {fuel : Nat} {out : Vcpu × Bool} (hs : LearnKvm.mmuPageFault v addr errorCode fuel = some out) :
    KvmGrows v.kvm out.1.kvm :=
  h.pageFault_keeps (P := fun v' => KvmGrows v.kvm v'.kvm) hpool hs
    (fun h1 h2 hstep => h2.trans (.faultStep h1 hpool hstep))
    (fun _ _ h1 h2 hstep => h2.trans (.nonpagingStep h1 hpool hstep)) (.refl _)

theorem MmuStep.kvmGrows (h : MmuInv pool lvl r v) (hpool : pool ≠ []) (hs : MmuStep v v') :
    KvmGrows v.kvm v'.kvm := by
  cases hs with
  | pageFault haddr hs => exact h.kvmGrows_pageFault hpool hs
  | invalPage addr =>
    obtain ⟨v₁, vmcs, hrel, -, heq⟩ := h.released_invalPage addr
    rw [heq]
    have := KvmGrows.released hrel
    exact this
  | newCr3 => exact .released h.released_newCr3.2
  | resetContext =>
    obtain ⟨lvl', q, -, h1, -⟩ := kvmMmuResetContext_spec h hpool
    exact .of_active (by rw [h1.kvm])

theorem MemCall.kvmGrows_onVcpu (h : MmuInv pool lvl r v) (hpool : pool ≠ []) (c : MemCall) :
    KvmGrows v.kvm (c.onVcpu v).kvm := by
  cases c with
  | committed old new =>
    obtain ⟨lvl', q, -, h1, -⟩ := kvmMmuResetContext_spec h hpool
    exact .of_active (by rw [MemCall.onVcpu, h1.kvm])
  | logCopied slot n log =>
    rw [MemCall.onVcpu, kvmMmuSlotRemoveWriteAccess_eq]
    exact .refl _
  | _ => exact .refl _

/-! ### The invariant -/

/-- Before `kvm_mmu_init` there are no shadow pages. -/
structure MachineInv (s : Machine) : Prop where
  mmu : s.created = true → ∃ pool lvl r, MmuInv pool lvl r s.vcpu ∧ pool.length = 256
  idle : s.created = false → s.vcpu.freePages = [] ∧ s.vcpu.kvm.activeMmuPages = [] ∧ s.vcpu.failed = []

/-- The calls do not touch the list of shadow pages. -/
theorem activeMmuPages_step (m : MemSystem) (t : Nat) (allocs : RegionAllocs) (copied : Bool) (c : MemCall) :
    (c.step m t allocs copied).kvm.activeMmuPages = m.kvm.activeMmuPages := by
  cases c with
  | raced mem slot => rcases step_raced m t allocs copied mem slot with ⟨r, -, heq⟩ | ⟨-, heq⟩ <;> rw [heq] <;> rfl
  | allocated mem slot old x version start =>
    rcases step_allocated m t allocs copied mem slot old x version start with ⟨_, _, -, -, heq⟩ | ⟨-, -, -, heq⟩ <;>
      rw [heq] <;> rfl
  | logBusy slot =>
    obtain ⟨c', heq, -⟩ := step_logBusy m t allocs copied slot
    rw [heq]
    rfl
  | logScanned slot n any =>
    obtain ⟨c', heq, -⟩ := step_logScanned m t allocs copied slot n any
    rw [heq]
    rfl
  | _ => rfl

/-- The tables do not depend on the rest of `struct kvm`. -/
theorem MmuInv.setKvm (h : MmuInv pool lvl r v) {kvm : Kvm} (hk : kvm.activeMmuPages = v.kvm.activeMmuPages) :
    MmuInv pool lvl r { v with kvm := kvm } :=
  h.congr rfl hk rfl (fun _ => rfl) (fun _ _ => Or.inl) rfl rfl

theorem MemCall.inv_onVcpu (h : MmuInv pool lvl r v) (hpool : pool ≠ []) (c : MemCall) :
    ∃ lvl' r', MmuInv pool lvl' r' (c.onVcpu v) := by
  cases c with
  | committed old new =>
    obtain ⟨lvl', q, h1, -, -⟩ := kvmMmuResetContext_spec h hpool
    exact ⟨lvl', q, h1⟩
  | logCopied slot n log => exact ⟨lvl, r, kvmMmuSlotRemoveWriteAccess_spec h slot⟩
  | logCleared slot log => exact ⟨lvl, r, h.congr rfl rfl rfl (fun _ => rfl) (fun _ _ => Or.inl) rfl rfl⟩
  | _ => exact ⟨lvl, r, h⟩

/-- A failed `kvm_mmu_init` frees the pages again. -/
theorem kvmMmuInit_failed {alloc : Fin 256 → Option Pfn} (h : (kvmMmuInit alloc v).2 = false) :
    (kvmMmuInit alloc v).1 = { v with shadow := (kvmMmuInit alloc v).1.shadow, freePages := [] } := by
  have hpages : ∀ (l : List (Fin 256)) (v : Vcpu), (allocMmuPages alloc l v).2 = false →
      (allocMmuPages alloc l v).1 = { v with shadow := (allocMmuPages alloc l v).1.shadow, freePages := [] } := by
    intro l
    induction l with
    | nil => exact fun v h => by cases h
    | cons i l ih =>
      intro v h
      unfold allocMmuPages at h ⊢
      cases hi : alloc i with
      | none => rfl
      | some page =>
        rw [hi] at h
        exact ih _ h
  have hall := hpages (List.finRange 256) v
  unfold kvmMmuInit at h ⊢
  generalize allocMmuPages alloc (List.finRange 256) v = out at h hall ⊢
  obtain ⟨v', ok⟩ := out
  cases ok with
  | true => cases h
  | false => exact hall rfl

/-- A step of the threads that keeps the list of shadow pages. -/
theorem MachineInv.setMem (hi : MachineInv s) {m : MemSystem} (hm : m.kvm.activeMmuPages = s.vcpu.kvm.activeMmuPages) :
    MachineInv (s.setMem m) := by
  refine ⟨fun h => ?_, fun h => ?_⟩
  · obtain ⟨pool, lvl, r, h1, hlen⟩ := hi.mmu h
    exact ⟨pool, lvl, r, h1.setKvm hm, hlen⟩
  · obtain ⟨h1, h2, h3⟩ := hi.idle h
    exact ⟨h1, hm.trans h2, h3⟩

theorem MachineInv.call (hi : MachineInv s) (t : Nat) (allocs : RegionAllocs) (copied : Bool) (c : MemCall) :
    MachineInv (s.call t allocs copied c) := by
  have hvcpu : MachineInv (if s.created then { s with vcpu := c.onVcpu s.vcpu } else s) := by
    split
    · rename_i hc
      obtain ⟨pool, lvl, r, h1, hlen⟩ := hi.mmu hc
      obtain ⟨lvl', r', h2⟩ := c.inv_onVcpu h1 (List.ne_nil_of_length_pos (by omega))
      exact ⟨fun _ => ⟨pool, lvl', r', h2, hlen⟩, fun h => by rw [hc] at h; cases h⟩
    · exact hi
  exact hvcpu.setMem (activeMmuPages_step _ t allocs copied c)

theorem MachineInv.step (hi : MachineInv s) (h : MachineStep s s') : MachineInv s' := by
  cases h with
  | setMemoryRegion mem h =>
    refine hi.setMem ?_
    unfold MemSystem.setMemoryRegion
    split <;> rfl
  | getDirtyLog slot h => exact hi.setMem rfl
  | call copied h hfresh => exact hi.call _ _ copied _
  | @create alloc h hdistinct hfresh =>
    obtain ⟨hfree, hactive, hfailed⟩ := hi.idle h
    cases hok : (kvmMmuInit alloc s.vcpu).2 with
    | true =>
      obtain ⟨hlen, lvl, q, h1, -⟩ := kvmMmuInit_spec hdistinct hfree hactive hfailed (Prod.ext rfl hok)
      exact ⟨fun _ => ⟨_, lvl, q, h1, hlen⟩, fun h => by cases h⟩
    | false =>
      rw [kvmMmuInit_failed hok]
      exact ⟨fun h => (by cases h), fun _ => ⟨rfl, hactive, hfailed⟩⟩
  | vcpu h hv =>
    obtain ⟨pool, lvl, r, h1, hlen⟩ := hi.mmu h
    obtain ⟨lvl', r', h2⟩ := hv.mmuCall.inv h1 (List.ne_nil_of_length_pos (by omega))
    refine ⟨fun _ => ⟨pool, lvl', r', h2, hlen⟩, fun hno => ?_⟩
    rw [show s.created = false from hno] at h
    cases h
  | other h hkvm =>
    refine ⟨fun hc => ?_, fun hc => ?_⟩
    · obtain ⟨pool, lvl, r, h1, hlen⟩ := hi.mmu hc
      obtain ⟨lvl', r', h2⟩ := (MmuCall.other h).inv h1 (List.ne_nil_of_length_pos (by omega))
      exact ⟨pool, lvl', r', h2, hlen⟩
    · obtain ⟨h1, h2, h3⟩ := hi.idle hc
      exact ⟨h.freePages.trans h1, h.active.trans h2, h.failed.trans h3⟩

theorem MachineInv.run {ok : Machine → Prop} (hi : MachineInv s) (h : MachineRun ok s s') : MachineInv s' := by
  induction h with
  | refl => exact hi
  | tail _ hstep ih => exact ih.step hstep.1

theorem machineInv_opened (v : Vcpu) : MachineInv (.opened v) := ⟨fun h => (by cases h), fun _ => ⟨rfl, rfl, rfl⟩⟩

/-! ### The threads -/

/-- Fewer than `2 ^ 32` commits have happened since the checks of any call. -/
def Machine.FewCommits (s : Machine) : Prop := LearnKvm.FewCommits s.mem

/-- What the vcpu does is a step for the threads. -/
theorem MemRun.of_kvmGrows (m : MemSystem) {kvm : Kvm} (h : KvmGrows m.kvm kvm) (hfew : FewCommits m) :
    MemRun m { m with kvm := kvm } := by
  rw [h.frame]
  exact .single ⟨.vcpu m _ _, hfew⟩

theorem MachineStep.mem (hi : MachineInv s) (hfew : s.FewCommits) (h : MachineStep s s') : MemRun s.mem s'.mem := by
  cases h with
  | setMemoryRegion mem h => exact .single ⟨.setMemoryRegion mem h, hfew⟩
  | getDirtyLog slot h => exact .single ⟨.getDirtyLog slot h, hfew⟩
  | @call t c allocs copied h hfresh =>
    unfold Machine.call
    split
    · rename_i hc
      obtain ⟨pool, lvl, r, h1, hlen⟩ := hi.mmu hc
      have hgrows := c.kvmGrows_onVcpu h1 (List.ne_nil_of_length_pos (by omega))
      exact (MemRun.of_kvmGrows s.mem hgrows hfew).tail ⟨.call copied h hfresh, hfew⟩
    · exact .single ⟨.call copied h hfresh, hfew⟩
  | @create alloc h hdistinct hfresh =>
    obtain ⟨hfree, hactive, hfailed⟩ := hi.idle h
    refine MemRun.of_kvmGrows s.mem ?_ hfew
    cases hok : (kvmMmuInit alloc s.vcpu).2 with
    | true =>
      obtain ⟨-, lvl, q, -, h1, -⟩ := kvmMmuInit_spec hdistinct hfree hactive hfailed (Prod.ext rfl hok)
      exact .of_active (by rw [h1.kvm]; rfl)
    | false =>
      rw [kvmMmuInit_failed hok]
      exact .refl _
  | vcpu h hv =>
    obtain ⟨pool, lvl, r, h1, hlen⟩ := hi.mmu h
    exact MemRun.of_kvmGrows s.mem (hv.kvmGrows h1 (List.ne_nil_of_length_pos (by omega))) hfew
  | other h hkvm =>
    unfold Machine.mem
    dsimp only
    rw [hkvm]
    exact .refl

/-- What the threads see of a run is a run of theirs. -/
theorem MachineRun.mem (hi : MachineInv s) (h : MachineRun Machine.FewCommits s s') : MemRun s.mem s'.mem := by
  induction h with
  | refl => exact .refl
  | tail hrun hstep ih => exact ih.trans (hstep.1.mem (hi.run hrun) hstep.2)

/-- A step of a thread before the vcpu is created. -/
theorem MachineStep.of_threadStep (hcreated : s.created = false) {m m' : MemSystem} (h : ThreadStep m m') :
    MachineStep (s.setMem m) (s.setMem m') := by
  cases h with
  | setMemoryRegion mem h => exact .setMemoryRegion (s := s.setMem m) mem h
  | getDirtyLog slot h => exact .getDirtyLog (s := s.setMem m) slot h
  | @call t c allocs copied h hfresh =>
    have hcall : (s.setMem m).call t allocs copied c = s.setMem (c.step m t allocs copied) := by
      have hno : (s.setMem m).created = false := hcreated
      unfold Machine.call
      rw [hno]
      rfl
    rw [← hcall]
    exact .call copied h hfresh

/-- The threads run before the vcpu is created. -/
theorem MachineRun.of_threads (hcreated : s.created = false) {m m' : MemSystem} (h : ReflTransGen ThreadStep m m') :
    MachineRun (fun _ => True) (s.setMem m) (s.setMem m') :=
  ReflTransGen.lift s.setMem (fun _ _ hstep => ⟨.of_threadStep hcreated hstep, trivial⟩) _ _ h

theorem MachineStep.commits_le (h : MachineStep s s') : s.commits ≤ s'.commits := by
  cases h with
  | setMemoryRegion mem h =>
    show s.mem.commits ≤ (s.mem.setMemoryRegion _ mem).commits
    unfold MemSystem.setMemoryRegion
    split <;> exact le_rfl
  | @call t c allocs copied h hfresh =>
    refine le_trans (le_of_eq ?_) (MemCall.commits_le
      (if s.created then { s with vcpu := c.onVcpu s.vcpu } else s).mem t allocs copied c)
    split <;> rfl
  | _ => exact le_rfl

/-- With fewer than `2 ^ 32` commits in all, the version counter has not come round. -/
theorem MachineRun.few (h : MachineRun (fun _ => True) s s') (hlt : s'.commits < 2 ^ 32) :
    MachineRun Machine.FewCommits s s' := by
  induction h with
  | refl => exact .refl
  | tail _ hstep ih =>
    have hle := hstep.1.commits_le
    have hlt' := Nat.lt_of_le_of_lt hle hlt
    exact (ih hlt').tail ⟨hstep.1, fewCommits_of_lt hlt'⟩

/-- `kvm_mmu_init` succeeds on a machine that threads have run on, with pages of its own. -/
theorem exists_createStep {m : MemSystem} (hrun : ReflTransGen ThreadStep .opened m) {alloc : Fin 256 → Option Pfn}
    (hdistinct : ∀ i j p, alloc i = some p → alloc j = some p → i = j) (hall : ∀ i, (alloc i).isSome = true)
    (hfresh : ∀ i p, alloc i = some p → Resource.page p ∉ m.live) :
    ∃ s, MachineStep ((Machine.opened default).setMem m) s ∧ s.created = true ∧ s.vcpu.mmu.ops = .nonpaging ∧
      (∃ pages, s.vcpu.kvm = { m.kvm with activeMmuPages := pages }) ∧ s.live = m.live ∧ s.calls = m.calls ∧
      s.commits = m.commits ∧ ∀ q ∈ s.vcpu.kvm.activeMmuPages, (s.vcpu.header q).slotBitmap = 0 := by
  have hthreads : MachineRun (fun _ => True) (.opened default) ((Machine.opened default).setMem m) :=
    MachineRun.of_threads (s := .opened default) rfl hrun
  have hcreate := MachineStep.create (s := (Machine.opened default).setMem m) rfl hdistinct hfresh
  have hidle := ((machineInv_opened default).run hthreads).idle rfl
  obtain ⟨v, hinit⟩ : ∃ v, kvmMmuInit alloc ((Machine.opened default).setMem m).vcpu = (v, true) :=
    ⟨_, kvmMmuInit_of_alloc hall _⟩
  rw [hinit] at hcreate
  obtain ⟨-, lvl, q, -, hroot, hmmu⟩ := kvmMmuInit_spec hdistinct hidle.1 hidle.2.1 hidle.2.2 hinit
  have hops : v.mmu.ops = .nonpaging := by
    rw [hmmu]
    have hpaging : isPaging (fun _ => 0) = false := by decide
    show (contextFor (fun _ => 0) (some q)).ops = _
    unfold contextFor
    rw [hpaging]
    rfl
  refine ⟨_, hcreate, rfl, hops, ⟨[q], hroot.kvm⟩, rfl, rfl, rfl, fun p hp => ?_⟩
  have hp : p ∈ v.kvm.activeMmuPages := hp
  rw [hroot.active, List.mem_singleton] at hp
  exact hp ▸ congrArg KvmMmuPage.slotBitmap hroot.header

/-- A new vcpu of a machine that threads have run on. -/
theorem exists_created {m : MemSystem} (hrun : ReflTransGen ThreadStep .opened m) {alloc : Fin 256 → Option Pfn}
    (hdistinct : ∀ i j p, alloc i = some p → alloc j = some p → i = j) (hall : ∀ i, (alloc i).isSome = true)
    (hfresh : ∀ i p, alloc i = some p → Resource.page p ∉ m.live) :
    ∃ s, MachineRun (fun _ => True) (.opened default) s ∧ s.created = true ∧ s.vcpu.mmu.ops = .nonpaging ∧
      (∃ pages, s.vcpu.kvm = { m.kvm with activeMmuPages := pages }) ∧ s.live = m.live ∧ s.calls = m.calls ∧
      s.commits = m.commits ∧ ∀ q ∈ s.vcpu.kvm.activeMmuPages, (s.vcpu.header q).slotBitmap = 0 := by
  obtain ⟨s, hstep, hs⟩ := exists_createStep hrun hdistinct hall hfresh
  exact ⟨s, (MachineRun.of_threads (s := .opened default) rfl hrun).tail ⟨hstep, trivial⟩, hs⟩

/-- Without paging, a fault in a page of a slot marks the page dirty and maps it. -/
theorem MachineInv.nonpaging_fault (hi : MachineInv s) (hcreated : s.created = true)
    (hops : s.vcpu.mmu.ops = .nonpaging) {addr : BitVec 64} (haddr : addr.toNat < 2 ^ 32)
    (herr : isErrorHpa (gpaToHpa s.vcpu.kvm (addr &&& pt64BaseAddrMask)) = false) :
    ∃ v, MmuStep s.vcpu v ∧ v.mmu.ops = .nonpaging ∧
      (∃ pages, v.kvm = { markPageDirty s.vcpu.kvm (gfnOf (addr &&& pageMask)) with activeMmuPages := pages }) ∧
      ∃ q, OnPath v (addr &&& pageMask) 1 q ∧ v.shadow q (pt64Index (addr &&& pageMask) 1) =
        gpaToHpa s.vcpu.kvm (addr &&& pt64BaseAddrMask) ||| ptPresentMask ||| ptWritableMask ||| ptUserMask := by
  obtain ⟨pool, lvl, r, h, hlen⟩ := hi.mmu hcreated
  have hlev := h.levels
  unfold KvmMmu.LevelsOk at hlev
  rw [hops] at hlev
  have hsome : (nonpagingPageFault addr 2 s.vcpu).isSome = true := nonpagingPageFault_isSome (by omega) 0 h hlev.2
  obtain ⟨out, hout⟩ := Option.isSome_iff_exists.1 hsome
  obtain ⟨hkvm, hmmu, -, hmapped⟩ := nonpagingPageFault_maps (List.ne_nil_of_length_pos (by omega)) h hlev.2 herr hout
  have hfault : mmuPageFault s.vcpu addr 0 2 = some out := by
    unfold mmuPageFault
    rw [hops]
    exact hout
  exact ⟨out.1, .pageFault (fun _ => haddr) hfault, hmmu ▸ hops, hkvm, hmapped⟩

theorem MachineRun.owned (h : MachineRun Machine.FewCommits (.opened v) s) : MemInv s.mem ∧ MemOwned s.mem :=
  MemOwned.run (MachineRun.mem (machineInv_opened v) h)

end LearnKvm
