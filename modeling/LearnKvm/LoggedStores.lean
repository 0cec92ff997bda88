import LearnKvm.LoggedLeaves
import LearnKvm.Mmu.InvalPage
import LearnKvm.SlotPages
import LearnKvm.WriteProtection

/-!
# Stores that cause no fault

A machine in which KVM_GET_DIRTY_LOG and KVM_SET_MEMORY_REGION are atomic for the vcpu: it runs only while no call is on
its way (`AtomicStep`).  `StoresLogged` says that the guest frames that writable entries map are set in the dirty bitmaps,
so that a store without a fault hits a page that is logged.  It holds in every run whose write faults mark what they make
writable (`stores_logged`).  A fault at the second page of a large page marks the first one
(`stores_logged_largePage`).
-/

namespace LearnKvm

open Relation Ownership

variable {pool : List Pfn} {lvl : Pfn → Nat} {r : Pfn} {v v' : Vcpu} {s s' : Machine} {m m' : MemSystem} {t : Nat}
  {c : MemCall} {allocs : RegionAllocs} {gfn : Nat} {i : Fin 4} {kvm kvm' : Kvm} {e : BitVec 64}

/-- No call is on its way. -/
def Machine.Idle (s : Machine) : Prop := ∀ t, s.mem.Free t

/-- A step of a machine whose vcpu calls the MMU only while no call is on its way; `ok` holds of a fault before it is
handled. -/
inductive AtomicStep (ok : Vcpu → BitVec 64 → BitVec 32 → Prop) : Machine → Machine → Prop
  | setMemoryRegion {s : Machine} {t : Nat} (mem : KvmMemoryRegion) (h : s.mem.Free t) :
      AtomicStep ok s (s.setMem (s.mem.setMemoryRegion t mem))
  | getDirtyLog {s : Machine} {t : Nat} (slot : BitVec 32) (h : s.mem.Free t) :
      AtomicStep ok s (s.setMem (s.mem.getDirtyLog t slot))
  | call {s : Machine} {t : Nat} {c : MemCall} {allocs : RegionAllocs} (copied : Bool) (h : s.calls t = some c)
      (hfresh : allocs.Fresh s.live) : AtomicStep ok s (s.call t allocs copied c)
  | create {s : Machine} {alloc : Fin 256 → Option Pfn} (h : s.created = false)
      (hdistinct : ∀ i j p, alloc i = some p → alloc j = some p → i = j)
      (hfresh : ∀ i p, alloc i = some p → Resource.page p ∉ s.live) :
      AtomicStep ok s { s with vcpu := (kvmMmuInit alloc s.vcpu).1, created := (kvmMmuInit alloc s.vcpu).2 }
  | pageFault {s : Machine} {addr : BitVec 64} {errorCode : BitVec 32} {fuel : Nat} {out : Vcpu × Bool}
      (h : s.created = true) (hidle : s.Idle) (haddr : s.vcpu.mmu.ops = .nonpaging → addr.toNat < 2 ^ 32)
      (hok : ok s.vcpu addr errorCode) (hs : mmuPageFault s.vcpu addr errorCode fuel = some out) :
      AtomicStep ok s { s with vcpu := out.1 }
  | invalPage {s : Machine} (addr : BitVec 64) (h : s.created = true) (hidle : s.Idle) :
      AtomicStep ok s { s with vcpu := mmuInvalPage s.vcpu addr }
  | newCr3 {s : Machine} (h : s.created = true) (hidle : s.Idle) : AtomicStep ok s { s with vcpu := mmuNewCr3 s.vcpu }
  | resetContext {s : Machine} (h : s.created = true) (hidle : s.Idle) :
      AtomicStep ok s { s with vcpu := kvmMmuResetContext s.vcpu }
  | other {s : Machine} {v : Vcpu} (h : SameShadow s.vcpu v) (hkvm : v.kvm = s.vcpu.kvm) :
      AtomicStep ok s { s with vcpu := v }

/-- A run in which the version counter does not come round during a call. -/
def AtomicRun (ok : Vcpu → BitVec 64 → BitVec 32 → Prop) : Machine → Machine → Prop :=
  ReflTransGen fun s s' => AtomicStep ok s s' ∧ s.FewCommits

theorem AtomicStep.machineStep {ok : Vcpu → BitVec 64 → BitVec 32 → Prop} (h : AtomicStep ok s s') : MachineStep s s' := by
  cases h with
  | setMemoryRegion mem h => exact .setMemoryRegion mem h
  | getDirtyLog slot h => exact .getDirtyLog slot h
  | call copied h hfresh => exact .call copied h hfresh
  | create h hdistinct hfresh => exact .create h hdistinct hfresh
  | pageFault h hidle haddr hok hs => exact .vcpu h (.pageFault haddr hs)
  | invalPage addr h hidle => exact .vcpu h (.invalPage _ addr)
  | newCr3 h hidle => exact .vcpu h (.newCr3 _)
  | resetContext h hidle => exact .vcpu h (.resetContext _)
  | other h hkvm => exact .other h hkvm

theorem AtomicRun.machineRun {ok : Vcpu → BitVec 64 → BitVec 32 → Prop} (h : AtomicRun ok s s') :
    MachineRun Machine.FewCommits s s' := ReflTransGen.mono (fun _ _ h => ⟨h.1.machineStep, h.2⟩) _ _ h

/-! ### The pages of the slots -/

/-- The page of a guest frame is one of its slot. -/
theorem slotFrame_of_found (h : gfnToMemslot kvm gfn = some i) : SlotFrame kvm i (gfnToPage kvm i gfn) := by
  have hin := List.find?_some h
  unfold KvmMemorySlot.contains at hin
  simp only [Bool.and_eq_true, decide_eq_true_eq] at hin
  exact List.mem_map.2 ⟨gfn - (kvm.memslots i).baseGfn, List.mem_range.2 (by omega), rfl⟩

/-- The pages of the slots are distinct. -/
theorem backsOnce (ho : MemOwned m) (hlaid : SlotsLaidOut m) : BacksOnce m.kvm := by
  rintro p gfn gfn' ⟨i, hi, hp⟩ ⟨j, hj, hp'⟩
  have hheld := held_of_slotFrame ho (hp ▸ slotFrame_of_found hi)
  have hheld' := held_of_slotFrame ho (hp' ▸ slotFrame_of_found hj)
  obtain rfl := Sum.inl.inj (ho.owned.unique (.inl i) (.inl j) _ hheld hheld')
  have hin := List.find?_some hi
  have hin' := List.find?_some hj
  unfold KvmMemorySlot.contains at hin hin'
  simp only [Bool.and_eq_true, decide_eq_true_eq] at hin hin'
  have hphys : (m.kvm.memslots i).physMem ≠ 0 := fun h0 => by
    have := (ho.slots i).array.2 h0
    omega
  have hinj := List.inj_on_of_nodup_map ((hlaid.slots i).distinct hphys)
    (List.mem_range.2 (show gfn - (m.kvm.memslots i).baseGfn < (m.kvm.memslots i).npages by omega))
    (List.mem_range.2 (show gfn' - (m.kvm.memslots i).baseGfn < (m.kvm.memslots i).npages by omega)) (hp.trans hp'.symm)
  omega

/-- The guest frames have the same slots and pages. -/
structure FramesKept (kvm kvm' : Kvm) : Prop where
  slots : kvm'.memslots = kvm.memslots
  found : ∀ gfn, gfnToMemslot kvm' gfn = gfnToMemslot kvm gfn
  pages : ∀ gfn i, gfnToMemslot kvm gfn = some i → gfnToPage kvm' i gfn = gfnToPage kvm i gfn

namespace FramesKept

theorem refl (kvm : Kvm) : FramesKept kvm kvm := ⟨rfl, fun _ => rfl, fun _ _ _ => rfl⟩

theorem backs (h : FramesKept kvm kvm') {p : Pfn} (hb : Backs kvm' p gfn) : Backs kvm p gfn := by
  obtain ⟨i, hi, hp⟩ := hb
  rw [h.found] at hi
  exact ⟨i, hi, (h.pages gfn i hi).symm.trans hp⟩

/-- An entry stays logged if the bits of the bitmap stay set. -/
theorem loggedLeaf (h : FramesKept kvm kvm') (hl : LoggedLeaf kvm e)
    (hbits : ∀ gfn i, Backs kvm (frameOf e) gfn → gfnToMemslot kvm gfn = some i → (kvm.memslots i).dirtyBitmap ≠ 0 → ∀ nr,
      kvm.bitmap (kvm.memslots i).dirtyBitmap nr = true → kvm'.bitmap (kvm.memslots i).dirtyBitmap nr = true ∨
        e.hasBit 1 = false) : LoggedLeaf kvm' e := by
  intro he hw gfn hback i hi h0
  have hback := h.backs hback
  rw [h.found] at hi
  rw [h.slots] at h0 ⊢
  refine (hbits gfn i hback hi h0 _ (hl he hw gfn hback i hi h0)).resolve_right fun hno => ?_
  rw [hw] at hno
  cases hno

end FramesKept

/-- A call that changes only what it has itself keeps the pages of the slots. -/
theorem framesKept_of_othersKept (ho : MemOwned m) (hi : MemInv m) (hi' : MemInv m')
    (hkeep : OthersKept m m' {.inr t}) : FramesKept m.kvm m'.kvm := by
  have hslots : m'.kvm.memslots = m.kvm.memslots := funext fun i => hkeep.slots i (by simp)
  have hfound : ∀ gfn, gfnToMemslot m'.kvm gfn = gfnToMemslot m.kvm gfn := by
    intro gfn
    refine Option.ext fun i => ?_
    rw [gfnToMemslot_iff hi.slots hi.nmemslots, gfnToMemslot_iff hi'.slots hi'.nmemslots, hslots]
  refine ⟨hslots, hfound, fun gfn i hfind => ?_⟩
  have hlive : .array (m.kvm.memslots i).physMem ∈ m.live := by
    refine ho.owned.held_live (.inl i) _ (mem_slotMemory.2 (Or.inl ⟨fun h0 => ?_, Or.inl rfl⟩))
    have := (ho.slots i).array.2 h0
    have hin := List.find?_some hfind
    unfold KvmMemorySlot.contains at hin
    simp only [Bool.and_eq_true, decide_eq_true_eq] at hin
    omega
  unfold gfnToPage
  rw [hslots, hkeep.arrays _ hlive]

/-! ### The invariant -/

/-- No writable entry maps a page of the slot. -/
def SlotProtected (kvm : Kvm) (v : Vcpu) (i : Fin 4) : Prop :=
  Leaves (fun _ e => e.hasBit 1 = true → ∀ gfn, gfnToMemslot kvm gfn = some i → gfnToPage kvm i gfn ≠ frameOf e) v

/-- Writable entries are logged, and there are none for a slot whose bitmap is about to be cleared. -/
structure LoggedState (m : MemSystem) (v : Vcpu) : Prop where
  leaves : Leaves (fun _ => LoggedLeaf m.kvm) v
  protects : ∀ t i n log, m.calls t = some (.logProtected i n log) → SlotProtected m.kvm v i

/-- After a commit this waits for the reset of the vcpu. -/
def LoggedInv (s : Machine) : Prop :=
  s.created = true → (∃ t old new, s.calls t = some (.committed old new)) ∨ LoggedState s.mem s.vcpu

/-- An empty tree. -/
theorem LoggedState.of_newRoot {q : Pfn} (h : MmuInv pool lvl r v') (hnew : NewRoot pool q v v') : LoggedState m v' :=
  ⟨.of_newRoot h hnew, fun _ _ _ _ _ => .of_newRoot h hnew⟩

theorem LoggedState.of_same (h : LoggedState m v) (hmmu : v'.mmu = v.mmu) (hshadow : v'.shadow = v.shadow)
    (hheader : v'.header = v.header) : LoggedState m v' :=
  ⟨h.leaves.of_same hmmu hshadow hheader, fun t i n log hc => Leaves.of_same (h.protects t i n log hc) hmmu hshadow hheader⟩

theorem SlotProtected.mono (h : SlotProtected kvm v i) (hkeep : FramesKept kvm kvm') : SlotProtected kvm' v i := by
  refine Leaves.mono h fun _ e he hw gfn hfind => ?_
  rw [hkeep.found] at hfind
  rw [hkeep.pages gfn i hfind]
  exact he hw gfn hfind

/-! ### The steps of the calls -/

/-- The bitmaps of the slots are live, so the allocations leave them alone. -/
theorem MemCall.bitmap_kept (ho : MemOwned m) (hfresh : allocs.Fresh m.live) (copied : Bool)
    (hc : ∀ i n log, c ≠ .logProtected i n log) (h0 : (m.kvm.memslots i).dirtyBitmap ≠ 0) :
    (c.step m t allocs copied).kvm.bitmap (m.kvm.memslots i).dirtyBitmap =
      m.kvm.bitmap (m.kvm.memslots i).dirtyBitmap := by
  cases c with
  | raced mem slot => rcases step_raced m t allocs copied mem slot with ⟨r, -, heq⟩ | ⟨-, heq⟩ <;> rw [heq] <;> rfl
  | checked mem slot old version start =>
    have hmem := allocRegion_memory allocs mem old
    show (Allocated.store _ old m.kvm).bitmap _ = _
    generalize allocRegion allocs (newSlot mem old) = x at hmem ⊢
    unfold Allocated.store
    dsimp only
    split
    · rename_i hnew
      rw [Function.update_of_ne]
      intro heq
      refine hmem.not_live hfresh _ (mem_ownedOnly.2 (Or.inr ⟨hnew, rfl⟩)) ?_
      rw [← heq]
      exact ho.bitmap_live h0
    · rfl
  | allocated mem slot old x version start =>
    rcases step_allocated m t allocs copied mem slot old x version start with ⟨_, _, -, -, heq⟩ | ⟨-, -, -, heq⟩ <;>
      rw [heq] <;> rfl
  | logBusy slot =>
    obtain ⟨c', heq, -⟩ := step_logBusy m t allocs copied slot
    rw [heq]
    rfl
  | logScanned slot n any =>
    obtain ⟨c', heq, -⟩ := step_logScanned m t allocs copied slot n any
    rw [heq]
    rfl
  | logProtected i n log => exact absurd rfl (hc i n log)
  | _ => rfl

/-- The bitmap is about to be cleared once write access has been withdrawn. -/
theorem MemCall.logCopied_of_step (m : MemSystem) (copied : Bool) {n : Nat} {log : Nat → Bool}
    (h : (c.step m t allocs copied).calls t = some (.logProtected i n log)) : c = .logCopied i n log := by
  have hself : ∀ (m : MemSystem) (c' : MemCall), (m.setCall t c').calls t = some (.logProtected i n log) →
      c' = .logProtected i n log := fun m c' h => Option.some.inj ((MemSystem.setCall_self ..).symm.trans h)
  cases c with
  | raced mem slot =>
    rcases step_raced m t allocs copied mem slot with ⟨r, -, heq⟩ | ⟨-, heq⟩
    · rw [heq] at h
      cases hself _ _ h
    · rw [heq] at h
      cases hself _ _ h
  | allocated mem slot old x version start =>
    rcases step_allocated m t allocs copied mem slot old x version start with ⟨_, c', hc', -, heq⟩ | ⟨-, -, -, heq⟩
    · rw [heq] at h
      obtain rfl := hself _ _ h
      rcases hc' with ⟨hc', -⟩ | ⟨r, hc'⟩ <;> cases hc'
    · rw [heq] at h
      cases hself _ _ h
  | logBusy slot =>
    obtain ⟨c', heq, hc'⟩ := step_logBusy m t allocs copied slot
    rw [heq] at h
    obtain rfl := hself _ _ h
    exact hc'.elim
  | logScanned slot n' any =>
    obtain ⟨c', heq, hc'⟩ := step_logScanned m t allocs copied slot n' any
    rw [heq] at h
    obtain rfl := hself _ _ h
    exact hc'.elim
  | logCopied slot n' log' =>
    cases hself _ _ h
    rfl
  | _ => cases hself _ _ h

/-- The steps of a call leave the other calls alone. -/
theorem MemCall.calls_of_ne (hc : m.calls t = some c) (hfresh : allocs.Fresh m.live) (copied : Bool) {u : Nat} (hu : u ≠ t) :
    (c.step m t allocs copied).calls u = m.calls u := by
  rcases MemCall.step_cases hc hfresh copied with hkeep | ⟨_, _, _, _, _, _, -, -, -, heq⟩
  · exact hkeep.calls u (by simpa using hu)
  · rw [heq]
    exact MemSystem.setCall_of_ne hu

theorem MemOwned.bitmapsApart (ho : MemOwned m) : BitmapsApart m.kvm := by
  intro i j hne h0 heq
  have hheld : .array (m.kvm.memslots i).dirtyBitmap ∈ m.held (.inl i) := mem_slotMemory.2 (Or.inr ⟨h0, rfl⟩)
  have hheld' : .array (m.kvm.memslots i).dirtyBitmap ∈ m.held (.inl j) := by
    rw [heq] at h0 ⊢
    exact mem_slotMemory.2 (Or.inr ⟨h0, rfl⟩)
  exact hne (Sum.inl.inj (ho.owned.unique _ _ _ hheld hheld'))

/-- A step of a call that does not commit, for the tree that it leaves. -/
theorem LoggedState.step (copied : Bool) (hl : LoggedState m v) (ho : MemOwned m) (hi : MemInv m)
    (hi' : MemInv (c.step m t allocs copied)) (hc : m.calls t = some c) (hfresh : allocs.Fresh m.live)
    (hkeep : OthersKept m (c.step m t allocs copied) {.inr t})
    (hcopied : ∀ i n log, c = .logCopied i n log → SlotProtected m.kvm v i) :
    LoggedState (c.step m t allocs copied) v := by
  have hframes := framesKept_of_othersKept ho hi hi' hkeep
  refine ⟨fun va p hp idx he => ?_, fun u i n log hu => ?_⟩
  · have hleaf := hl.leaves va p hp idx he
    by_cases hclear : ∃ i n log, c = .logProtected i n log
    · obtain ⟨j, n, log, rfl⟩ := hclear
      have hprotected := hl.protects t j n log hc va p hp idx he
      refine hframes.loggedLeaf hleaf fun gfn i hback hfind h0 nr hbit => ?_
      by_cases hij : i = j
      · subst hij
        right
        obtain ⟨i', hi', hpage⟩ := hback
        obtain rfl := Option.some.inj (hfind.symm.trans hi')
        exact Bool.eq_false_iff.2 fun hw => hprotected hw gfn hfind hpage
      · left
        show (if _ then false else m.kvm.bitmap (m.kvm.memslots i).dirtyBitmap nr) = true
        rw [if_neg fun h => ho.bitmapsApart i j hij h0 h.1]
        exact hbit
    · refine hframes.loggedLeaf hleaf fun gfn i _ _ h0 nr hbit => Or.inl ?_
      rw [MemCall.bitmap_kept ho hfresh copied (fun i n log heq => hclear ⟨i, n, log, heq⟩) h0]
      exact hbit
  · by_cases hut : u = t
    · subst hut
      exact (hcopied i n log (MemCall.logCopied_of_step m copied hu)).mono hframes
    · rw [MemCall.calls_of_ne hc hfresh copied hut] at hu
      exact (hl.protects u i n log hu).mono hframes

/-- What `kvm_mmu_slot_remove_write_access` leaves. -/
theorem LoggedState.slotRemoveWriteAccess (hl : LoggedState m v) (h : MmuInv pool lvl r v) (ho : MemOwned m)
    (hrec : Leaves (fun b e => m.MappableIn (fun i => b.hasBit i.val = true) (frameOf e)) v) (slot : Fin 4) :
    LoggedState m (kvmMmuSlotRemoveWriteAccess v slot) ∧ SlotProtected m.kvm (kvmMmuSlotRemoveWriteAccess v slot) slot := by
  have hclear : ∀ e : BitVec 64, (clearWritable e).hasBit 1 = true → False := fun e he => by simp at he
  refine ⟨⟨?_, fun t i n log hc => ?_⟩, ?_⟩
  · exact hl.leaves.slotRemoveWriteAccess h slot (fun _ _ _ hq => hq) fun _ e _ _ hw => (hclear e hw).elim
  · exact Leaves.slotRemoveWriteAccess (hl.protects t i n log hc) h slot (fun _ _ _ hq => hq)
      fun _ e _ hw => (hclear e hw).elim
  · refine hrec.slotRemoveWriteAccess h slot (fun b e hbit hq _ gfn hfind hpage => ?_) fun _ e _ hw => (hclear e hw).elim
    -- the page is one of the slot, which is recorded
    have hset := hq.slotFrame ho (hpage ▸ slotFrame_of_found hfind)
    rw [hbit] at hset
    cases hset

/-- What a call does with the vcpu, except for the reset. -/
theorem LoggedState.onVcpu (hl : LoggedState m v) (h : MmuInv pool lvl r v) (ho : MemOwned m)
    (hrec : Leaves (fun b e => m.MappableIn (fun i => b.hasBit i.val = true) (frameOf e)) v)
    (hne : ∀ old new, c ≠ .committed old new) : (c.onVcpu v).kvm = v.kvm ∧ LoggedState m (c.onVcpu v) ∧
      ∀ i n log, c = .logCopied i n log → SlotProtected m.kvm (c.onVcpu v) i := by
  cases c with
  | committed old new => exact absurd rfl (hne old new)
  | logCopied slot n log =>
    obtain ⟨h1, h2⟩ := hl.slotRemoveWriteAccess h ho hrec slot
    refine ⟨MemCall.onVcpu_kvm rfl v, h1, fun i n' log' heq => ?_⟩
    cases heq
    exact h2
  | logCleared slot log => exact ⟨rfl, hl.of_same rfl rfl rfl, fun _ _ _ heq => by cases heq⟩
  | _ => exact ⟨rfl, hl, fun _ _ _ heq => by cases heq⟩

theorem LoggedInv.call (hl : LoggedInv s) (hm : MachineInv s) (ho : MemOwned s.mem) (hi : MemInv s.mem)
    (hrec : RecordedInv s) (hfew : s.FewCommits) (hc : s.calls t = some c) (hfresh : allocs.Fresh s.live) (copied : Bool) :
    LoggedInv (s.call t allocs copied c) := by
  intro hcreated'
  have hcreated : s.created = true := by
    unfold Machine.call at hcreated'
    split at hcreated'
    · assumption
    · exact hcreated'
  obtain ⟨pool, lvl, r, h, hlen⟩ := hm.mmu hcreated
  have hpool : pool ≠ [] := List.ne_nil_of_length_pos (by omega)
  obtain ⟨m₁, hm₁⟩ : ∃ m₁ : MemSystem, m₁ = { s.mem with kvm := (c.onVcpu s.vcpu).kvm } := ⟨_, rfl⟩
  -- the tree is that of the vcpu before the call goes on
  suffices hgoal : (∃ t' old new, (c.step m₁ t allocs copied).calls t' = some (.committed old new)) ∨
      LoggedState (c.step m₁ t allocs copied) (c.onVcpu s.vcpu) by
    have hcall : s.call t allocs copied c =
        ({ s with vcpu := c.onVcpu s.vcpu } : Machine).setMem (c.step m₁ t allocs copied) := by
      unfold Machine.call
      rw [if_pos hcreated, hm₁]
      rfl
    rw [hcall]
    exact hgoal.imp_right fun hstate => hstate.of_same rfl rfl rfl
  by_cases hreset : ∃ old new, c = .committed old new
  · obtain ⟨old, new, rfl⟩ := hreset
    obtain ⟨lvl', q, h1, h2, -⟩ := kvmMmuResetContext_spec h hpool
    exact Or.inr (.of_newRoot h1 h2)
  have hne : ∀ old new, c ≠ .committed old new := fun old new heq => hreset ⟨old, new, heq⟩
  rcases hl hcreated with ⟨u, old, new, hu⟩ | hstate
  · have hut : u ≠ t := by
      rintro rfl
      exact hne old new (Option.some.inj (hc.symm.trans hu))
    refine Or.inl ⟨u, old, new, ?_⟩
    rw [MemCall.calls_of_ne (by rw [hm₁]; exact hc) (by rw [hm₁]; exact hfresh) copied hut, hm₁]
    exact hu
  obtain ⟨hkvm, hstate', hcopied⟩ := hstate.onVcpu h ho (hrec hcreated) hne
  obtain rfl : m₁ = s.mem := by
    rw [hm₁, hkvm]
    rfl
  rcases MemCall.step_cases (m := s.mem) hc hfresh copied with hkeep | ⟨_, _, _, _, _, _, -, -, -, heq⟩
  · exact Or.inr (hstate'.step copied ho hi (hi.call hfew hc allocs copied) hc hfresh hkeep hcopied)
  · rw [heq]
    exact Or.inl ⟨t, _, _, MemSystem.setCall_self ..⟩

/-! ### The run -/

/-- A thread starts a call. -/
theorem LoggedInv.start (hl : LoggedInv s) (hfree : s.mem.Free t) {kvm : Kvm} (hframes : FramesKept s.mem.kvm kvm)
    (hbits : kvm.bitmap = s.mem.kvm.bitmap) (hno : ∀ i n log, c ≠ .logProtected i n log) :
    LoggedInv (s.setMem ({ s.mem with kvm := kvm }.setCall t c)) := by
  intro hcreated
  rcases hl hcreated with ⟨u, old, new, hu⟩ | hstate
  · have hut : u ≠ t := by
      rintro rfl
      obtain ⟨r, log, heq⟩ := hfree _ hu
      cases heq
    exact Or.inl ⟨u, old, new, (MemSystem.setCall_of_ne hut).trans hu⟩
  · suffices hgoal : LoggedState ({ s.mem with kvm := kvm }.setCall t c) s.vcpu from Or.inr (hgoal.of_same rfl rfl rfl)
    refine ⟨hstate.leaves.mono fun _ e hq => hframes.loggedLeaf hq fun gfn i _ _ _ nr hbit => ?_, fun u i n log hu => ?_⟩
    · rw [hbits]
      exact Or.inl hbit
    · have hut : u ≠ t := by
        rintro rfl
        exact hno i n log (Option.some.inj ((MemSystem.setCall_self ..).symm.trans hu))
      rw [MemSystem.setCall_of_ne hut] at hu
      exact (hstate.protects u i n log hu).mono hframes

theorem Machine.Idle.not_called (h : s.Idle) (hc : s.calls t = some c) : ∃ r log, c = .returned r log := h t c hc

/-- A step of the vcpu while no call is on its way. -/
theorem LoggedInv.vcpu (hl : LoggedInv s) (hcreated : s.created = true) (hidle : s.Idle)
    (hleaves : Leaves (fun _ => LoggedLeaf s.vcpu.kvm) s.vcpu → Leaves (fun _ => LoggedLeaf v.kvm) v) :
    LoggedInv { s with vcpu := v } := by
  intro _
  rcases hl hcreated with ⟨u, old, new, hu⟩ | hstate
  · obtain ⟨r, log, heq⟩ := hidle.not_called hu
    cases heq
  · refine Or.inr ⟨hleaves hstate.leaves, fun u i n log hu => ?_⟩
    obtain ⟨r, log, heq⟩ := hidle.not_called hu
    cases heq

theorem LoggedInv.step (hl : LoggedInv s) (hm : MachineInv s) (ho : MemOwned s.mem) (hi : MemInv s.mem)
    (hlaid : SlotsLaidOut s.mem) (hrec : RecordedInv s) (hfew : s.FewCommits) (h : AtomicStep WriteFaultLogged s s') :
    LoggedInv s' := by
  cases h with
  | @setMemoryRegion t mem h =>
    unfold MemSystem.setMemoryRegion
    split
    · exact hl.start h (.refl _) rfl fun _ _ _ heq => by cases heq
    · exact hl.start h (.refl _) rfl fun _ _ _ heq => by cases heq
  | @getDirtyLog t slot h => exact hl.start h ⟨rfl, fun _ => rfl, fun _ _ _ => rfl⟩ rfl fun _ _ _ heq => by cases heq
  | call copied h hfresh => exact hl.call hm ho hi hrec hfew h hfresh copied
  | @create alloc h hdistinct hfresh =>
    intro hok
    obtain ⟨hfree, hactive, hfailed⟩ := hm.idle h
    obtain ⟨-, lvl, q, h1, h2, -⟩ := kvmMmuInit_spec hdistinct hfree hactive hfailed (Prod.ext rfl hok)
    exact Or.inr (.of_newRoot h1 h2)
  | pageFault h hidle haddr hok hs =>
    obtain ⟨pool, lvl, r, h1, hlen⟩ := hm.mmu h
    exact hl.vcpu h hidle fun hleaves => mmuPageFault_loggedLeaves (List.ne_nil_of_length_pos (by omega)) h1
      (backsOnce ho hlaid) hleaves haddr hok hs
  | invalPage addr h hidle =>
    obtain ⟨pool, lvl, r, h1, hlen⟩ := hm.mmu h
    obtain ⟨v₁, vmcs, hrel, -, heq⟩ := h1.released_invalPage addr
    rw [heq]
    exact hl.vcpu h hidle fun hleaves => (hleaves.of_released_logged hrel).of_same rfl rfl rfl
  | newCr3 h hidle =>
    obtain ⟨pool, lvl, r, h1, hlen⟩ := hm.mmu h
    exact hl.vcpu h hidle fun hleaves => hleaves.of_released_logged h1.released_newCr3.2
  | resetContext h hidle =>
    obtain ⟨pool, lvl, r, h1, hlen⟩ := hm.mmu h
    obtain ⟨lvl', q, h2, h3, -⟩ := kvmMmuResetContext_spec h1 (List.ne_nil_of_length_pos (by omega))
    exact hl.vcpu h hidle fun _ => .of_newRoot h2 h3
  | @other v h hkvm =>
    intro hcreated
    rcases hl hcreated with hu | hstate
    · exact Or.inl hu
    · have hmem : ({ s with vcpu := v } : Machine).mem = s.mem := by
        unfold Machine.mem
        rw [hkvm]
      rw [hmem]
      exact Or.inr (hstate.of_same h.mmu h.shadow h.header)

theorem LoggedInv.run (h : AtomicRun WriteFaultLogged (.opened v) s) : LoggedInv s := by
  induction h with
  | refl => exact fun h => by cases h
  | tail hrun hstep ih =>
    have hrun := AtomicRun.machineRun hrun
    obtain ⟨hi, ho⟩ := MachineRun.owned hrun
    have hlaid := SlotsLaidOut.run (MachineRun.mem (machineInv_opened v) hrun)
    exact ih.step ((machineInv_opened v).run hrun) ho hi hlaid (RecordedInv.run hrun) hstep.2 hstep.1

/-- **Stores that cause no fault are logged** while no call is on its way, if every write fault has marked what it has
made writable. -/
theorem stores_logged (h : AtomicRun WriteFaultLogged (.opened v) s) (hcreated : s.created = true) (hidle : s.Idle) :
    StoresLogged s.vcpu := by
  rcases LoggedInv.run h hcreated with ⟨u, old, new, hu⟩ | hstate
  · obtain ⟨_, _, heq⟩ := hidle.not_called hu
    cases heq
  · exact .of_leaves hstate.leaves

/-! ### Runs of a machine with a logged slot of two pages -/

variable {ok : Vcpu → BitVec 64 → BitVec 32 → Prop}

/-- Before the vcpu is created all steps are atomic for it. -/
theorem AtomicStep.of_uncreated (h : MachineStep s s') (hno : s.created = false) : AtomicStep ok s s' := by
  cases h with
  | setMemoryRegion mem h => exact .setMemoryRegion mem h
  | getDirtyLog slot h => exact .getDirtyLog slot h
  | call copied h hfresh => exact .call copied h hfresh
  | create h hdistinct hfresh => exact .create h hdistinct hfresh
  | vcpu h hv =>
    rw [hno] at h
    cases h
  | other h hkvm => exact .other h hkvm

theorem AtomicRun.of_threads (hno : s.created = false) (h : ReflTransGen ThreadStep m m') (hlt : m'.commits < 2 ^ 32) :
    AtomicRun ok (s.setMem m) (s.setMem m') := by
  induction h with
  | refl => exact .refl
  | @tail m₁ m₂ _ hstep ih =>
    have hbefore := Nat.lt_of_le_of_lt hstep.commits_le hlt
    exact (ih hbefore).tail ⟨.of_uncreated (.of_threadStep hno hstep) hno, fewCommits_of_lt hbefore⟩

/-- The slot is created, and then the vcpu. -/
theorem exists_loggedVcpu : ∃ s, AtomicRun ok (.opened default) s ∧ s.created = true ∧ s.Idle ∧
    s.vcpu.mmu.ops = .nonpaging ∧ (∃ pages, s.vcpu.kvm = { loggedPagesKvm with activeMmuPages := pages }) ∧
    s.commits = 1 := by
  obtain ⟨m, hrun, hkvm, hlive, hcommits, hfree⟩ := loggedPages_created
  obtain ⟨s, hstep, hcreated, hops, ⟨pages, hkvm'⟩, -, hcalls, hcommits', -⟩ :=
    exists_createStep hrun somePages_injective (fun _ => rfl) (somePages_fresh hlive)
  have hthreads : AtomicRun ok (.opened default) ((Machine.opened default).setMem m) :=
    AtomicRun.of_threads (s := .opened default) rfl hrun (by rw [hcommits]; decide)
  refine ⟨s, hthreads.tail ⟨.of_uncreated hstep rfl, fewCommits_of_lt ?_⟩, hcreated, fun t c hc => ?_, hops,
    ⟨pages, by rw [hkvm', hkvm]⟩, hcommits'.trans hcommits⟩
  · rw [show ((Machine.opened default).setMem m).mem.commits = 1 from hcommits]
    decide
  · exact hfree t c ((congrFun hcalls t).symm.trans hc)

/-- Without paging every fault marks what it maps. -/
theorem AtomicStep.nonpaging (hcreated : s.created = true) (hidle : s.Idle) (hops : s.vcpu.mmu.ops = .nonpaging)
    (hv : MmuStep s.vcpu v) : AtomicStep WriteFaultLogged s { s with vcpu := v } := by
  cases hv with
  | pageFault haddr hs => exact .pageFault hcreated hidle haddr (fun hno => absurd hops hno) hs
  | invalPage addr => exact .invalPage addr hcreated hidle
  | newCr3 => exact .newCr3 hcreated hidle
  | resetContext => exact .resetContext hcreated hidle

/-- After a first access without paging the page is writable. -/
theorem stores_logged_nonpaging : ∃ v q, OnPath v 0 1 q ∧ (v.shadow q (pt64Index 0 1)).hasBit 0 = true ∧
    (v.shadow q (pt64Index 0 1)).hasBit 1 = true ∧ StoresLogged v := by
  obtain ⟨s, hrun, hcreated, hidle, hops, ⟨pages, hkvm⟩, hcommits⟩ := exists_loggedVcpu
  have hsame : gpaToHpa s.vcpu.kvm (0 &&& pt64BaseAddrMask) = gpaToHpa loggedPagesKvm (0 &&& pt64BaseAddrMask) :=
    gpaToHpa_congr (by rw [hkvm]) (by rw [hkvm]) (by rw [hkvm]) _
  have herr : isErrorHpa (gpaToHpa s.vcpu.kvm (0 &&& pt64BaseAddrMask)) = false := by
    rw [hsame]
    decide
  obtain ⟨v, hv, -, -, q, hq, hentry⟩ := ((machineInv_opened default).run (AtomicRun.machineRun hrun)).nonpaging_fault
    hcreated hops (show (0 : BitVec 64).toNat < 2 ^ 32 by decide) herr
  have hfew : s.FewCommits := fewCommits_of_lt (show s.mem.commits < 2 ^ 32 by rw [show s.mem.commits = 1 from hcommits]; decide)
  have hrun' := hrun.tail ⟨AtomicStep.nonpaging hcreated hidle hops hv, hfew⟩
  have hbits : ∀ i, i = 0 ∨ i = 1 → (v.shadow q (pt64Index 0 1)).hasBit i = true := by
    intro i hi
    have hbit := congrArg (fun e => BitVec.hasBit e i) hentry
    exact hbit.trans (by rcases hi with rfl | rfl <;> simp)
  exact ⟨v, q, hq, hbits 0 (Or.inl rfl), hbits 1 (Or.inr rfl), stores_logged hrun' hcreated hidle⟩

/-! ### The second page of a large page -/

/-- A guest with pages of 4M whose directory maps the first one, clean. -/
def largePageGuest : Vcpu :=
  { smallVcpu vmcsPse 0 fun _ => 0x8700000087 with kvm := loggedPagesKvm, mmu := contextFor vmcsPse none }

/-- The guest turns on paging. -/
def Machine.largePages (s : Machine) : Machine where
  vcpu := { largePageGuest with
    mmu := s.vcpu.mmu
    shadow := s.vcpu.shadow
    header := s.vcpu.header
    freePages := s.vcpu.freePages
    failed := s.vcpu.failed
    kvm := s.vcpu.kvm }
  created := s.created
  live := s.live
  commits := s.commits
  calls := s.calls

theorem contextFor_vmcsPse (root : Option Pfn) :
    (contextFor vmcsPse root).ops = .paging32 ∧ (contextFor vmcsPse root).rootLevel = 2 := by
  have hpaging : isPaging vmcsPse = true := by decide
  have hlong : isLongMode vmcsPse = false := by decide
  have hpae : isPae vmcsPse = false := by decide
  unfold contextFor
  rw [hpaging, hlong, hpae]
  exact ⟨rfl, rfl⟩

/-- A write to the second page marks the first one. -/
theorem writeMarks_largePages {q : Pfn} (hnew : NewRoot pool q v v') (hinv : MmuInv pool lvl r v')
    (hsame : SameGuest .pt32 largePageGuest v') (hmem : v'.mem = largePageGuest.mem)
    (hkvm : ∃ pages, v'.kvm = { loggedPagesKvm with activeMmuPages := pages }) : ¬WriteMarks .pt32 v' 0x1000 false := by
  obtain ⟨pages, hkvm⟩ := hkvm
  have hpte : guestPte .pt32 v' 0x1000 1 = guestPte .pt32 largePageGuest 0x1000 1 := by
    unfold guestPte readEntry
    rw [hsame.guestWalk_eq, hmem]
  have hwalks := hsame.sameWalks
  have hframe : gpaFrame v'.kvm (guestGaddr .pt32 v' 0x1000) = some 1001 := by
    rw [hwalks.guestGaddr_eq (by decide), hwalks.gpaFrame_eq]
    decide
  have hmakes : MakesWritable .pt32 v' 0x1000 false 1001 := by
    refine .installed (fun p hp => ?_) ?_ ?_ hframe
    · have := (hnew.onPath hp).1
      have := hinv.levels.shadowRootLevel
      omega
    · rw [hpte, hwalks.guestRights_eq (by decide)]
      decide
    · rw [hwalks.guestRights_eq (by decide), hsame.writeProtection]
      decide
  have hfound : gfnToMemslot v'.kvm 1 = some 0 := by
    rw [hkvm]
    rfl
  have hbitmap : (v'.kvm.memslots 0).dirtyBitmap = 2 := by
    rw [hkvm]
    rfl
  have hclear : v'.kvm.bitmap 2 1 = false := by
    rw [hkvm]
    rfl
  intro hmarks
  rcases hmarks (by rw [hpte]; decide) 1001 hmakes 1 ⟨0, hfound, by rw [hkvm]; rfl⟩ with hmarked | heq
  · have hset := hmarked 0 hfound (by rw [hbitmap]; decide)
    rw [hbitmap, show (v'.kvm.memslots 0).baseGfn = 0 by rw [hkvm]; rfl, hclear] at hset
    cases hset
  · rw [markedGfn_eq hsame] at heq
    exact absurd heq (by decide)

/-- A guest with large pages writes to its second page. -/
theorem stores_logged_largePage : ¬∀ v s, AtomicRun (fun _ _ _ => True) (.opened v) s → s.created = true → s.Idle →
    StoresLogged s.vcpu := by
  intro hall
  obtain ⟨s, hrun, hcreated, hidle, hops, ⟨pages, hkvm⟩, hcommits⟩ := exists_loggedVcpu
  have hfew : ∀ v, ({ s with vcpu := v } : Machine).FewCommits := fun v => fewCommits_of_lt (by
    rw [show ({ s with vcpu := v } : Machine).mem.commits = 1 from hcommits]
    decide)
  have hpaging : AtomicRun (fun _ _ _ => True) (.opened default) s.largePages :=
    hrun.tail ⟨.other ⟨rfl, rfl, rfl, rfl, rfl, rfl⟩ rfl, hfew s.vcpu⟩
  obtain ⟨pool, lvl, r, h, hlen⟩ := ((machineInv_opened default).run (AtomicRun.machineRun hpaging)).mmu hcreated
  have hpool : pool ≠ [] := List.ne_nil_of_length_pos (by omega)
  obtain ⟨lvl', q, h1, hnew, hmmu⟩ := kvmMmuResetContext_spec h hpool
  have hreset : AtomicRun (fun _ _ _ => True) (.opened default) { s.largePages with vcpu := kvmMmuResetContext s.largePages.vcpu } :=
    hpaging.tail ⟨.resetContext hcreated hidle, hfew s.largePages.vcpu⟩
  have hops1 : (kvmMmuResetContext s.largePages.vcpu).mmu.ops = .paging32 := by
    rw [hmmu]
    exact (contextFor_vmcsPse _).1
  have hpaging1 : (kvmMmuResetContext s.largePages.vcpu).mmu.ops ≠ .nonpaging := by
    rw [hops1]
    decide
  have hkvm1 : (kvmMmuResetContext s.largePages.vcpu).kvm = { loggedPagesKvm with activeMmuPages := [q] } := by
    rw [hnew.kvm, show s.largePages.vcpu.kvm = _ from hkvm]
  have hsame : SameGuest .pt32 largePageGuest (kvmMmuResetContext s.largePages.vcpu) := by
    refine .of_eq ?_ hnew.cr3 hnew.badPage (fun gpa => ?_) hnew.mem fun f hf => hnew.vmcs f ?_
    · rw [hmmu]
      exact (contextFor_vmcsPse _).2
    · exact gpaToHpa_congr (by rw [hkvm1]; rfl) (by rw [hkvm1]; rfl) (by rw [hkvm1]; rfl) gpa
    · rintro rfl
      simp at hf
  -- the write to the second page
  obtain ⟨out, hout⟩ := Option.isSome_iff_exists.1 (mmuPageFault_isSome h1 (by omega) 0x1000 2 0)
  have hfault := hreset.tail ⟨.pageFault hcreated hidle (fun hno => absurd hno hpaging1) trivial hout, hfew _⟩
  have hlogged := hall default _ hfault hcreated hidle
  rw [mmuPageFault_eq hpaging1, hops1] at hout
  have hapart := (MachineRun.owned (AtomicRun.machineRun hreset)).2.bitmapsApart
  refine pageFault_unlogged hpool h1 ?_ hapart (by decide) ?_ hout hlogged
  · have := h1.levels.isFor hpaging1
    rwa [hops1] at this
  · exact writeMarks_largePages hnew h1 hsame hnew.mem ⟨[q], hkvm1⟩

end LearnKvm
