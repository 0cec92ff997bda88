import LearnKvm.DirtyLog
import LearnKvm.Mmu.Leaves

/-!
# No freed page stays mapped

A commit, the reset of the vcpu and the freeing of the old memory are separate steps of KVM_SET_MEMORY_REGION, and the
vcpu can handle faults between them.  `MappedSafe` says that the pages that shadow entries map belong to a slot, or to
the memory that a call has replaced and not yet freed, so that what is freed is not mapped.  It holds as long as the
version counter does not come round during a call (`mapped_pages_safe`).  When it comes round, a call commits a slot
whose pages have been freed, and the vcpu maps them (`freed_page_mapped`).
-/

namespace LearnKvm

open Relation Ownership

variable {pool : List Pfn} {lvl : Pfn → Nat} {r : Pfn} {v v' : Vcpu} {s s' : Machine} {m : MemSystem} {t : Nat}
  {c : MemCall} {f : Pfn} {allocs : RegionAllocs}

/-- Some entry of level one of the shadow tables maps the page. -/
def Maps (v : Vcpu) (f : Pfn) : Prop := ∃ va p i, OnPath v va 1 p ∧ (v.shadow p i).hasBit 0 = true ∧ frameOf (v.shadow p i) = f

/-- The page is one of a slot, or of an old slot that a call has replaced and not yet freed. -/
def MemSystem.HasPage (m : MemSystem) (f : Pfn) : Prop :=
  (∃ i, f ∈ slotPages m.kvm (m.kvm.memslots i)) ∨
    ∃ t old new, m.calls t = some (.committed old new) ∧ f ∈ slotPages m.kvm old

structure MappedSafe (s : Machine) : Prop where
  /-- A mapped page has an owner, and it is allocated. -/
  owned : s.created = true → ∀ f, Maps s.vcpu f → s.mem.HasPage f ∧ .page f ∈ s.live
  /-- A call frees no mapped page. -/
  notFreed : s.created = true → ∀ t c allocs copied f, s.calls t = some c → Maps s.vcpu f →
    .page f ∈ (s.call t allocs copied c).live

/-! ### The pages that may be mapped -/

/-- The page is held by a slot, or by a call between its commit and the reset of the vcpu. -/
def MemSystem.Mappable (m : MemSystem) (f : Pfn) : Prop :=
  (∃ i, .page f ∈ m.held (.inl i)) ∨ ∃ t old new, m.calls t = some (.committed old new) ∧ .page f ∈ m.held (.inr t)

/-- The page is held by one of these slots, or by a call between its commit and the reset of the vcpu. -/
def MemSystem.MappableIn (m : MemSystem) (slots : Fin 4 → Prop) (f : Pfn) : Prop :=
  (∃ i, slots i ∧ .page f ∈ m.held (.inl i)) ∨
    ∃ t old new, m.calls t = some (.committed old new) ∧ .page f ∈ m.held (.inr t)

theorem MemSystem.MappableIn.mappable {slots : Fin 4 → Prop} (h : m.MappableIn slots f) : m.Mappable f :=
  h.imp_left fun ⟨i, _, hi⟩ => ⟨i, hi⟩

theorem MemSystem.MappableIn.mono {slots slots' : Fin 4 → Prop} (h : m.MappableIn slots f)
    (hslots : ∀ i, slots i → slots' i) : m.MappableIn slots' f :=
  h.imp_left fun ⟨i, hi, hr⟩ => ⟨i, hslots i hi, hr⟩

theorem MemSystem.Mappable.mappableIn (h : m.Mappable f) : m.MappableIn (fun _ => True) f :=
  h.imp_left fun ⟨i, hi⟩ => ⟨i, trivial, hi⟩

theorem mem_slotPages_of_held {i : Fin 4} (h : .page f ∈ m.held (.inl i)) : f ∈ slotPages m.kvm (m.kvm.memslots i) := by
  rcases mem_slotMemory.1 h with ⟨-, hcase | ⟨p, hp, heq⟩⟩ | ⟨-, hcase⟩
  · cases hcase
  · rwa [Resource.page.inj heq]
  · cases hcase

theorem MemSystem.Mappable.hasPage (h : m.Mappable f) : m.HasPage f := by
  rcases h with ⟨i, hi⟩ | ⟨t, old, new, hc, c, hc', hr⟩
  · exact Or.inl ⟨i, mem_slotPages_of_held hi⟩
  · rw [hc] at hc'
    obtain rfl := Option.some.inj hc'
    refine Or.inr ⟨t, old, new, hc, ?_⟩
    rcases mem_ownedOnly.1 hr with ⟨-, hcase | ⟨p, hp, heq⟩⟩ | ⟨-, hcase⟩
    · cases hcase
    · rwa [Resource.page.inj heq]
    · cases hcase

theorem MemSystem.Mappable.live (ho : MemOwned m) (h : m.Mappable f) : .page f ∈ m.live := by
  rcases h with ⟨i, hi⟩ | ⟨t, -, -, -, hr⟩
  · exact ho.owned.held_live _ _ hi
  · exact ho.owned.held_live _ _ hr

/-- What `gpa_to_hpa` finds is a page of the slot. -/
theorem held_of_gpaFrame (ho : MemOwned m) {kvm : Kvm} (hslots : kvm.memslots = m.kvm.memslots)
    (harrays : kvm.pageArray = m.kvm.pageArray) {gpa : BitVec 64} (h : gpaFrame kvm gpa = some f) {i : Fin 4}
    (hi : gfnToMemslot kvm (gfnOf gpa) = some i) : .page f ∈ m.held (.inl i) := by
  obtain ⟨j, hj, hf⟩ := Option.map_eq_some_iff.1 h
  obtain rfl := Option.some.inj (hi.symm.trans hj)
  have hin := List.find?_some hi
  unfold KvmMemorySlot.contains at hin
  simp only [Bool.and_eq_true, decide_eq_true_eq] at hin
  obtain ⟨-, hlo, hhi⟩ := hin
  unfold gfnToPage at hf
  rw [hslots] at hlo hhi hf
  refine mem_slotMemory.2 (Or.inl ⟨fun h0 => ?_, Or.inr ⟨f, ?_, rfl⟩⟩)
  · have := (ho.slots i).array.2 h0
    omega
  · refine List.mem_map.2 ⟨gfnOf gpa - (m.kvm.memslots i).baseGfn, List.mem_range.2 (by omega), ?_⟩
    rw [← hf, harrays]

/-! ### The steps of the calls -/

/-- A page of the old slot is still in the new one, or the call is to free it. -/
theorem Commitable.target {kvm : Kvm} {old : KvmMemorySlot} {x : Allocated} (h : Commitable kvm old x)
    (hf : .page f ∈ slotMemory kvm old) :
    .page f ∈ ownedOnly (LearnKvm.slotPages kvm old) old x.slot ∨ .page f ∈ slotMemory kvm x.slot := by
  rcases mem_slotMemory.1 hf with ⟨hne, hcase⟩ | ⟨-, hcase⟩
  · by_cases heq : old.physMem = x.slot.physMem
    · have hpages : LearnKvm.slotPages kvm x.slot = LearnKvm.slotPages kvm old := by
        unfold LearnKvm.slotPages
        rw [← heq, h.kept heq.symm (heq ▸ hne)]
      rw [heq, ← hpages] at hcase
      exact Or.inr (mem_slotMemory.2 (Or.inl ⟨heq ▸ hne, hcase⟩))
    · exact Or.inl (mem_ownedOnly.2 (Or.inl ⟨⟨heq, hne⟩, hcase⟩))
  · cases hcase

/-- A call changes what it has itself, or it commits. -/
theorem MemCall.step_cases (hc : m.calls t = some c) (hfresh : allocs.Fresh m.live) (copied : Bool) :
    OthersKept m (c.step m t allocs copied) {.inr t} ∨
      ∃ mem slot old x version start, c = .allocated mem slot old x version start ∧ x.ok = true ∧
        version = m.kvm.memoryConfigVersion ∧
        c.step m t allocs copied =
          { m with kvm := commitRegion m.kvm slot x.slot, commits := m.commits + 1 }.setCall t (.committed old x.slot) := by
  have hmove : ∀ (kvm : Kvm) (live : List Resource) (c' : MemCall), kvm.memslots = m.kvm.memslots →
      kvm.pageArray = m.kvm.pageArray → OthersKept m ({ m with kvm := kvm, live := live }.setCall t c') {.inr t} :=
    fun kvm live c' hslots harrays => ⟨fun i _ => congrFun hslots i,
      fun u hu => MemSystem.setCall_of_ne (by simpa using hu), fun a _ => congrFun harrays a⟩
  cases c with
  | raced mem slot =>
    rcases step_raced m t allocs copied mem slot with ⟨r, -, heq⟩ | ⟨-, heq⟩
    · rw [heq]
      exact Or.inl (hmove m.kvm m.live _ rfl rfl)
    · rw [heq]
      exact Or.inl (hmove m.kvm m.live _ rfl rfl)
  | checked mem slot old version start => exact Or.inl (othersKept_allocate version start hfresh rfl)
  | allocated mem slot old x version start =>
    rcases step_allocated m t allocs copied mem slot old x version start with ⟨live, c', -, -, heq⟩ | ⟨hok, hver, -, heq⟩
    · rw [heq]
      exact Or.inl (hmove m.kvm live _ rfl rfl)
    · exact Or.inr ⟨mem, slot, old, x, version, start, rfl, hok, hver, heq⟩
  | committed old new => exact Or.inl (hmove m.kvm m.live _ rfl rfl)
  | reset old new => exact Or.inl (hmove m.kvm _ _ rfl rfl)
  | logBusy slot =>
    obtain ⟨c', heq, -⟩ := step_logBusy m t allocs copied slot
    rw [heq]
    exact Or.inl (hmove m.kvm m.live _ rfl rfl)
  | logScanned slot n any =>
    obtain ⟨c', heq, -⟩ := step_logScanned m t allocs copied slot n any
    rw [heq]
    exact Or.inl (hmove m.kvm m.live _ rfl rfl)
  | logCopied slot n log => exact Or.inl (hmove m.kvm m.live _ rfl rfl)
  | logProtected slot n log => exact Or.inl (hmove _ m.live _ rfl rfl)
  | logCleared slot log => exact Or.inl (hmove m.kvm m.live _ rfl rfl)
  | logOut r log => exact Or.inl (hmove _ m.live _ rfl rfl)
  | returned r log => exact Or.inl (hmove m.kvm m.live _ rfl rfl)

/-- A thread that is not about to reset the vcpu changes what it has itself. -/
theorem MemSystem.MappableIn.keep {m' : MemSystem} {slots : Fin 4 → Prop} (ho : MemOwned m)
    (hkeep : OthersKept m m' {.inr t}) (hne : ∀ old new, m.calls t ≠ some (.committed old new))
    (h : m.MappableIn slots f) : m'.MappableIn slots f := by
  rcases h with ⟨i, hi, hr⟩ | ⟨u, old, new, hu, hr⟩
  · refine Or.inl ⟨i, hi, ?_⟩
    rwa [ho.held_eq hkeep (.inl i) (by simp)]
  · have hut : u ≠ t := by
      rintro rfl
      exact hne old new hu
    refine Or.inr ⟨u, old, new, (hkeep.calls u (by simpa using hut)).trans hu, ?_⟩
    rwa [ho.held_eq hkeep (.inr u) (by simpa using hut)]

/-- Unless it goes on to reset the vcpu, a call leaves mappable what was mappable. -/
theorem MemSystem.MappableIn.call {slots : Fin 4 → Prop} (ho : MemOwned m) (hi : MemInv m) (hfew : LearnKvm.FewCommits m)
    (hc : m.calls t = some c) (hfresh : allocs.Fresh m.live) (copied : Bool) (hne : ∀ old new, c ≠ .committed old new)
    (h : m.MappableIn slots f) : (c.step m t allocs copied).MappableIn slots f := by
  rcases MemCall.step_cases hc hfresh copied with hkeep | ⟨mem, slot, old, x, version, start, rfl, hok, hver, heq⟩
  · exact h.keep ho hkeep fun old new h => hne old new (Option.some.inj (hc.symm.trans h))
  · -- the memory of the old slot goes to the new one or to the call
    rw [heq]
    obtain ⟨hchecked, allocs', hx⟩ := hi.calls t _ hc
    obtain ⟨hold, hcheck⟩ := hchecked.current (hchecked.no_commit hi (hfew t _ start hc rfl) hver)
    have hcommit := commitable hok hx (ho.calls t _ hc) hold (hold ▸ ho.slots slot) hcheck
    generalize hm' : ({ m with kvm := commitRegion m.kvm slot x.slot, commits := m.commits + 1 }.setCall t
      (.committed old x.slot) : MemSystem) = m'
    have hkeep : OthersKept m m' {.inl slot, .inr t} := by
      subst hm'
      refine ⟨fun i hne => Function.update_of_ne (fun heq => hne (by simp [heq])) .., fun u hu => ?_, fun _ _ => rfl⟩
      exact MemSystem.setCall_of_ne fun heq => hu (by simp [heq])
    rcases h with ⟨i, hin, hr⟩ | ⟨u, old', new, hu, hr⟩
    · by_cases hslot : i = slot
      · subst hslot
        unfold MemSystem.held at hr
        dsimp only at hr
        rw [hold] at hr
        rcases hcommit.target hr with hr | hr
        · refine Or.inr ⟨t, old, x.slot, ?_, .committed old x.slot, ?_, ?_⟩
          · rw [← hm']
            exact MemSystem.setCall_self ..
          · rw [← hm']
            exact MemSystem.setCall_self ..
          · rw [← hm']
            exact hr
        · refine Or.inl ⟨i, hin, ?_⟩
          have hnew : m'.kvm.memslots i = x.slot := by
            rw [← hm']
            exact Function.update_self ..
          unfold MemSystem.held
          dsimp only
          rw [hnew, ← hm']
          exact hr
      · refine Or.inl ⟨i, hin, ?_⟩
        rwa [ho.held_eq hkeep (.inl i) (by simp [hslot])]
    · have hut : u ≠ t := by
        rintro rfl
        rw [hc] at hu
        cases hu
      refine Or.inr ⟨u, old', new, (hkeep.calls u (by simp [hut])).trans hu, ?_⟩
      rwa [ho.held_eq hkeep (.inr u) (by simp [hut])]

/-- The vcpu does not change the slots. -/
theorem MemSystem.MappableIn.grow {slots : Fin 4 → Prop} {kvm : Kvm} (hgrows : KvmGrows m.kvm kvm)
    (h : m.MappableIn slots f) : ({ m with kvm := kvm } : MemSystem).MappableIn slots f := by
  rw [hgrows.frame]
  exact h

theorem MemOwned.grow (ho : MemOwned m) {kvm : Kvm} (hgrows : KvmGrows m.kvm kvm) :
    MemOwned ({ m with kvm := kvm } : MemSystem) := by
  rw [hgrows.frame]
  have hkeep : OthersKept m { m with kvm := { m.kvm with bitmap := kvm.bitmap, activeMmuPages := kvm.activeMmuPages } } ∅ :=
    ⟨fun _ _ => rfl, fun _ _ => rfl, fun _ _ => rfl⟩
  exact ⟨ho.owned, ho.nodup, ho.slots, fun u c hc => ho.callMemory hkeep (Set.notMem_empty _) hc⟩

theorem MemInv.grow (hi : MemInv m) {kvm : Kvm} (hgrows : KvmGrows m.kvm kvm) :
    MemInv ({ m with kvm := kvm } : MemSystem) := by
  rw [hgrows.frame]
  exact ⟨hi.version, hi.slots, hi.nmemslots, fun t c hc => CallChecked.congr (s := m) ⟨rfl, rfl, rfl, rfl⟩ (hi.calls t c hc)⟩

/-! ### The steps of the vcpu -/

theorem frameOf_clearWritable (e : BitVec 64) : frameOf (clearWritable e) = frameOf e :=
  frameOf_congr fun i h12 _ => by simp [show i ≠ 1 by omega]

/-- The frame that `nonpaging_map` writes. -/
theorem frameOf_nonpaging {kvm : Kvm} {gpa : BitVec 64} (h : gpaFrame kvm gpa = some f) :
    frameOf (gpaToHpa kvm gpa ||| ptPresentMask ||| ptWritableMask ||| ptUserMask) = f := by
  rw [← frameOf_gpaToHpa h]
  exact frameOf_congr fun i h12 _ => by simp [show i ≠ 0 by omega, show i ≠ 1 by omega, show i ≠ 2 by omega]

/-- Without paging, the page that is mapped is that of the address whose slot is recorded. -/
theorem gfnOf_nonpaging {addr : BitVec 64} (h : addr.toNat < 2 ^ 32) :
    gfnOf (addr &&& pageMask) = gfnOf (addr &&& pt64BaseAddrMask) := by
  refine gfnOf_congr fun i h12 hi => ?_
  rw [BitVec.hasBit_and, BitVec.hasBit_and, hasBit_pageMask, hasBit_pt64BaseAddrMask]
  by_cases h52 : i < 52
  · simp [h12, hi, h52]
  · have hbit : addr.hasBit i = false :=
      Nat.testBit_lt_two_pow (Nat.lt_of_lt_of_le h (Nat.pow_le_pow_right (by decide) (by omega)))
    simp [hbit]

/-- The slot of an address is recorded with the entry for it. -/
theorem hasBit_leafHeader {kvm : Kvm} {gaddr : BitVec 64} {i : Fin 4} (hi : gfnToMemslot kvm (gfnOf gaddr) = some i)
    (hd : KvmMmuPage) (global : Bool) : (leafHeader kvm hd gaddr global).slotBitmap.hasBit i.val = true := by
  have := i.isLt
  unfold leafHeader
  rw [hi]
  dsimp only [Option.elim]
  rw [BitVec.hasBit_or, Bits.hasBit_one_shiftLeft (by omega)]
  simp

theorem hasBit_pageHeaderUpdateSlot {gpa : BitVec 64} {i : Fin 4} (hi : gfnToMemslot v.kvm (gfnOf gpa) = some i)
    (p : Pfn) : ((pageHeaderUpdateSlot v p gpa).header p).slotBitmap.hasBit i.val = true := by
  have := i.isLt
  unfold pageHeaderUpdateSlot
  rw [hi]
  dsimp only
  rw [if_pos rfl, BitVec.hasBit_or, Bits.hasBit_one_shiftLeft (by omega)]
  simp

theorem exists_gfnToMemslot {kvm : Kvm} {gpa : BitVec 64} (h : gpaFrame kvm gpa = some f) :
    ∃ i, gfnToMemslot kvm (gfnOf gpa) = some i := by
  obtain ⟨i, hi, -⟩ := Option.map_eq_some_iff.1 h
  exact ⟨i, hi⟩

/-- The pages that the MMU maps are pages of slots that it records in the header: what holds of all pages of a slot in
pages with its bit, holds of the entries of level one. -/
theorem MmuStep.leaves {P : BitVec 64 → Pfn → Prop} (h : MmuInv pool lvl r v) (hpool : pool ≠ []) (hs : MmuStep v v')
    (hkeep : ∀ b b' f, BitsLe b b' → P b f → P b' f)
    (hP : ∀ kvm : Kvm, kvm.memslots = v.kvm.memslots → kvm.pageArray = v.kvm.pageArray →
      ∀ gpa f i, gpaFrame kvm gpa = some f → gfnToMemslot kvm (gfnOf gpa) = some i →
      ∀ b : BitVec 64, b.hasBit i.val = true → P b f)
    (hl : Leaves (fun b e => P b (frameOf e)) v) : Leaves (fun b e => P b (frameOf e)) v' := by
  cases hs with
  | @pageFault addr errorCode fuel out haddr hs =>
    refine (h.pageFault_keeps (P := fun v' => KvmGrows v.kvm v'.kvm ∧ Leaves (fun b e => P b (frameOf e)) v') hpool hs
      (fun {pt v₁ v₂ lvl r} h1 hv₁ hstep => ?_) (fun {v₁ v₂ lvl r} hops herr h1 hv₁ hstep => ?_) ⟨.refl _, hl⟩).2
    · refine ⟨hv₁.1.trans (.faultStep h1 hpool hstep), ?_⟩
      refine hv₁.2.faultStep h1 hpool hstep (fun b b' e hle hq => hkeep b b' _ hle hq) (fun p heq hg h0 => ?_)
        (fun p b _ _ hq => ?_) fun b e hq => ?_
      · have hleaf := leafSound_leafPte hg
        obtain ⟨f, hf⟩ := Option.isSome_iff_exists.1 (hleaf.mapped.symm.trans h0)
        obtain ⟨i, hi⟩ := exists_gfnToMemslot hf
        rw [hleaf.frame f hf, heq]
        refine hP v₁.kvm (by rw [hv₁.1.frame]) (by rw [hv₁.1.frame]) _ f i hf hi _ ?_
        rw [show (installLeaf pt v₁ addr ⟨p, pt64Index addr 1⟩).header p = _ from if_pos rfl]
        exact hasBit_leafHeader hi _ _
      · rwa [frameOf_dirtyPte]
      · rwa [frameOf_userPte]
    · refine ⟨hv₁.1.trans (.nonpagingStep h1 hpool hstep), ?_⟩
      refine hv₁.2.nonpagingStep h1 hpool hstep (fun b b' e hle hq => hkeep b b' _ hle hq) fun p heq => ?_
      rw [isErrorHpa_gpaToHpa] at herr
      obtain ⟨f, hf⟩ := Option.isSome_iff_exists.1 (by simpa using herr)
      obtain ⟨i, hi⟩ := exists_gfnToMemslot hf
      rw [frameOf_nonpaging hf]
      refine hP v.kvm rfl rfl _ f i hf hi _ ?_
      rw [heq]
      refine hasBit_pageHeaderUpdateSlot (v := { v₁ with kvm := markPageDirty v₁.kvm (gfnOf (addr &&& pageMask)) }) ?_ p
      -- a 32-bit address is in the page whose slot is recorded
      rw [gfnToMemslot_markPageDirty, gfnOf_nonpaging (haddr hops), hv₁.1.gfnToMemslot]
      exact hi
  | invalPage addr =>
    obtain ⟨v₁, vmcs, hrel, -, heq⟩ := h.released_invalPage addr
    rw [heq]
    exact (hl.of_released hrel).of_same rfl rfl rfl
  | newCr3 => exact hl.of_released h.released_newCr3.2
  | resetContext =>
    obtain ⟨lvl', q, h1, h2, -⟩ := kvmMmuResetContext_spec h hpool
    exact .of_newRoot h1 h2

/-! ### The invariant -/

/-- What the leaves map may be mapped, by slots recorded in their page. -/
def RecordedInv (s : Machine) : Prop :=
  s.created = true → Leaves (fun b e => s.mem.MappableIn (fun i => b.hasBit i.val = true) (frameOf e)) s.vcpu

theorem RecordedInv.call (hi : RecordedInv s) (hm : MachineInv s) (ho : MemOwned s.mem) (hmem : MemInv s.mem)
    (hfew : s.FewCommits) (hc : s.calls t = some c) (hfresh : allocs.Fresh s.live) (copied : Bool) :
    RecordedInv (s.call t allocs copied c) := by
  intro hcreated'
  have hcreated : s.created = true := by
    unfold Machine.call at hcreated'
    split at hcreated'
    · assumption
    · exact hcreated'
  obtain ⟨pool, lvl, r, h, hlen⟩ := hm.mmu hcreated
  have hpool : pool ≠ [] := List.ne_nil_of_length_pos (by omega)
  have hl := hi hcreated
  unfold Machine.call
  rw [if_pos hcreated]
  have hgrows := c.kvmGrows_onVcpu h hpool
  have hgrow : ∀ slots f, s.mem.MappableIn slots f →
      ({ s with vcpu := c.onVcpu s.vcpu } : Machine).mem.MappableIn slots f := fun slots f hf => hf.grow hgrows
  have ho' : MemOwned ({ s with vcpu := c.onVcpu s.vcpu } : Machine).mem ∧
      MemInv ({ s with vcpu := c.onVcpu s.vcpu } : Machine).mem := ⟨ho.grow hgrows, hmem.grow hgrows⟩
  generalize hs₁ : ({ s with vcpu := c.onVcpu s.vcpu } : Machine) = s₁ at hgrow ho'
  have hv₁ : s₁.vcpu = c.onVcpu s.vcpu := by rw [← hs₁]
  have hfew₁ : FewCommits s₁.mem := by rw [← hs₁]; exact hfew
  have hc₁ : s₁.mem.calls t = some c := by rw [← hs₁]; exact hc
  have hfresh₁ : allocs.Fresh s₁.mem.live := by rw [← hs₁]; exact hfresh
  -- the leaves are those of the vcpu before the call goes on
  suffices hl' : Leaves (fun b e => (c.step s₁.mem t allocs copied).MappableIn (fun i => b.hasBit i.val = true) (frameOf e))
      s₁.vcpu from hl'.of_same rfl rfl rfl
  have hcall : (∀ old new, c ≠ .committed old new) → ∀ slots f, s.mem.MappableIn slots f →
      (c.step s₁.mem t allocs copied).MappableIn slots f := fun hne slots f hf =>
    (hgrow slots f hf).call ho'.1 ho'.2 hfew₁ hc₁ hfresh₁ copied hne
  rw [hv₁]
  cases c with
  | committed old new =>
    obtain ⟨lvl', q, h1, h2, -⟩ := kvmMmuResetContext_spec h hpool
    exact .of_newRoot h1 h2
  | logCopied slot n log =>
    refine hl.slotRemoveWriteAccess h slot (fun b e _ hq => hcall (fun _ _ h => by cases h) _ _ hq) fun b e hq => ?_
    rw [frameOf_clearWritable]
    exact hcall (fun _ _ h => by cases h) _ _ hq
  | logCleared slot log =>
    exact (hl.mono fun b e hq => hcall (fun _ _ h => by cases h) _ _ hq).of_same rfl rfl rfl
  | _ => exact hl.mono fun b e hq => hcall (fun _ _ h => by cases h) _ _ hq

/-- A thread starts a call. -/
theorem RecordedInv.start (hi : RecordedInv s) (ho : MemOwned s.mem) (hfree : s.mem.Free t)
    (hkeep : OthersKept s.mem m {.inr t}) : RecordedInv (s.setMem m) := by
  intro hcreated
  have hne : ∀ old new, s.mem.calls t ≠ some (.committed old new) := by
    intro old new h
    obtain ⟨r, log, heq⟩ := hfree _ h
    cases heq
  exact ((hi hcreated).mono fun b e hq => hq.keep ho hkeep hne).of_same rfl rfl rfl

theorem RecordedInv.step (hi : RecordedInv s) (hm : MachineInv s) (ho : MemOwned s.mem) (hmem : MemInv s.mem)
    (hfew : s.FewCommits) (h : MachineStep s s') : RecordedInv s' := by
  cases h with
  | @setMemoryRegion t mem h =>
    refine hi.start ho h ?_
    unfold MemSystem.setMemoryRegion
    split <;> exact ⟨fun _ _ => rfl, fun u hu => MemSystem.setCall_of_ne (by simpa using hu), fun _ _ => rfl⟩
  | @getDirtyLog t slot h =>
    exact hi.start ho h ⟨fun _ _ => rfl, fun u hu => MemSystem.setCall_of_ne (by simpa using hu), fun _ _ => rfl⟩
  | call copied h hfresh => exact hi.call hm ho hmem hfew h hfresh copied
  | @create alloc h hdistinct hfresh =>
    intro hok
    obtain ⟨hfree, hactive, hfailed⟩ := hm.idle h
    obtain ⟨-, lvl, q, h1, h2, -⟩ := kvmMmuInit_spec hdistinct hfree hactive hfailed (Prod.ext rfl hok)
    exact .of_newRoot h1 h2
  | @vcpu v h hv =>
    intro _
    obtain ⟨pool, lvl, r, h1, hlen⟩ := hm.mmu h
    have hpool : pool ≠ [] := List.ne_nil_of_length_pos (by omega)
    have hl := hv.leaves h1 hpool (P := fun b f => s.mem.MappableIn (fun i => b.hasBit i.val = true) f)
      (fun b b' f hle hq => hq.mono fun i hb => hle _ hb)
      (fun kvm hslots harrays gpa f i hf hi b hb => Or.inl ⟨i, hb, held_of_gpaFrame ho hslots harrays hf hi⟩) (hi h)
    exact hl.mono fun b e hq => hq.grow (hv.kvmGrows h1 hpool)
  | @other v h hkvm =>
    intro hcreated
    have hl := (hi hcreated).of_same h.mmu h.shadow h.header
    unfold Machine.mem
    dsimp only
    rw [hkvm]
    exact hl

theorem RecordedInv.run (h : MachineRun Machine.FewCommits (.opened v) s) : RecordedInv s := by
  induction h with
  | refl => exact fun h => by cases h
  | tail hrun hstep ih =>
    obtain ⟨hmem, ho⟩ := MachineRun.owned hrun
    exact ih.step ((machineInv_opened v).run hrun) ho hmem hstep.2 hstep.1

/-- What the leaves map may be mapped. -/
def MappedInv (s : Machine) : Prop := s.created = true → Leaves (fun _ e => s.mem.Mappable (frameOf e)) s.vcpu

theorem MappedInv.run (h : MachineRun Machine.FewCommits (.opened v) s) : MappedInv s := fun hcreated =>
  (RecordedInv.run h hcreated).mono fun _ _ hq => hq.mappable

/-- What a call frees, it has had itself. -/
theorem MemCall.freed_held (hc : m.calls t = some c) (copied : Bool) {f : Pfn} (hf : .page f ∈ m.live)
    (hno : .page f ∉ (c.step m t allocs copied).live) : .page f ∈ m.held (.inr t) ∧ ∀ old new, c ≠ .committed old new := by
  have hsame : ∀ m' : MemSystem, m'.live = m.live → .page f ∉ m'.live → False := fun m' h hno => hno (h ▸ hf)
  cases c with
  | raced mem slot =>
    rcases step_raced m t allocs copied mem slot with ⟨r, -, heq⟩ | ⟨-, heq⟩
    · rw [heq] at hno
      exact (hsame _ rfl hno).elim
    · rw [heq] at hno
      exact (hsame _ rfl hno).elim
  | checked mem slot old version start =>
    refine absurd (mem_runOps (Or.inl hf) ?_) hno
    rw [(allocRegion_spec allocs mem old).freed]
    exact List.not_mem_nil
  | allocated mem slot old x version start =>
    rcases step_allocated m t allocs copied mem slot old x version start with ⟨live, c', -, rfl, heq⟩ | ⟨-, -, -, heq⟩
    · rw [heq] at hno
      by_contra hnot
      refine hno (mem_runOps (Or.inl hf) fun h => hnot ⟨⟨_, hc, ?_⟩, fun _ _ h => by cases h⟩)
      exact mem_ownedOnly_of_freed (fun i _ p hp => List.mem_of_getElem? hp) h
    · rw [heq] at hno
      exact (hsame _ rfl hno).elim
  | reset old new =>
    by_contra hnot
    refine hno (mem_runOps (Or.inl hf) fun h => hnot ⟨⟨_, hc, ?_⟩, fun _ _ h => by cases h⟩)
    refine mem_ownedOnly_of_freed (fun i hi p hp => ?_) h
    obtain rfl := Option.some.inj hp
    exact List.mem_map.2 ⟨i, List.mem_range.2 hi, rfl⟩
  | logBusy slot =>
    obtain ⟨c', heq, -⟩ := step_logBusy m t allocs copied slot
    rw [heq] at hno
    exact (hsame _ rfl hno).elim
  | logScanned slot n any =>
    obtain ⟨c', heq, -⟩ := step_logScanned m t allocs copied slot n any
    rw [heq] at hno
    exact (hsame _ rfl hno).elim
  | _ => exact (hsame _ rfl hno).elim

/-- A call keeps the pages that may be mapped allocated. -/
theorem MemSystem.Mappable.not_freed (ho : MemOwned m) (hc : m.calls t = some c) (copied : Bool) (h : m.Mappable f) :
    .page f ∈ (c.step m t allocs copied).live := by
  by_contra hno
  obtain ⟨hheld, hne⟩ := MemCall.freed_held hc copied (h.live ho) hno
  rcases h with ⟨i, hi⟩ | ⟨u, old, new, hu, hr⟩
  · cases ho.owned.unique (.inl i) (.inr t) _ hi hheld
  · obtain rfl := Sum.inr.inj (ho.owned.unique (.inr u) (.inr t) _ hr hheld)
    exact hne old new (Option.some.inj (hc.symm.trans hu))

/-- **No freed page stays mapped**, as long as the version counter does not come round during a call. -/
theorem mapped_pages_safe (h : MachineRun Machine.FewCommits (.opened v) s) : MappedSafe s := by
  obtain ⟨hmem, ho⟩ := MachineRun.owned h
  have hi := MappedInv.run h
  have hmappable : s.created = true → ∀ f, Maps s.vcpu f → s.mem.Mappable f := by
    rintro hcreated f ⟨va, p, i, hp, he, rfl⟩
    exact hi hcreated va p hp i he
  refine ⟨fun hcreated f hf => ?_, fun hcreated t c allocs copied f hc hf => ?_⟩
  · have hm := hmappable hcreated f hf
    exact ⟨hm.hasPage, hm.live ho⟩
  · have hm := hmappable hcreated f hf
    obtain ⟨pool, lvl, r, h1, hlen⟩ := ((machineInv_opened v).run h).mmu hcreated
    have hgrows := c.kvmGrows_onVcpu h1 (List.ne_nil_of_length_pos (by omega))
    unfold Machine.call
    rw [if_pos hcreated]
    exact MemSystem.Mappable.not_freed (ho.grow hgrows) hc copied (hm.mappableIn.grow hgrows).mappable

/-- A page of the only slot is mapped. -/
theorem mapped_pages_safe_firstDirty : ∃ s f, Maps s.vcpu f ∧ s.created = true ∧ MappedSafe s := by
  obtain ⟨s, hrun, hcreated, -, -, hcommits, -, q, hq, he⟩ := firstDirty_machine
  exact ⟨s, _, ⟨0, q, _, hq, he, rfl⟩, hcreated, mapped_pages_safe (hrun.few (by rw [hcommits]; decide))⟩

theorem gfnToMemslot_first {kvm : Kvm} {gfn : Nat} (hn : 0 < kvm.nmemslots) (h : (kvm.memslots 0).contains gfn = true) :
    gfnToMemslot kvm gfn = some 0 := by
  unfold gfnToMemslot
  rw [show List.finRange 4 = [0, 1, 2, 3] from rfl]
  exact List.find?_cons_of_pos (by simp [h, hn])

/-- Without paging, the first access to the slot maps a page that has been freed. -/
theorem freed_page_mapped : ¬∀ v s, MachineRun (fun _ => True) (.opened v) s → MappedSafe s := by
  intro hall
  obtain ⟨m, version, hm, hn⟩ := observed_stale
  have hfresh : ∀ i p, somePages i = some p → Resource.page p ∉ m.live := by
    intro i p _ hmem
    rw [hm.live] at hmem
    cases hmem
  obtain ⟨s, hrun, hcreated, hops, ⟨pages, hkvm⟩, hlive, -⟩ :=
    exists_created hm.run somePages_injective (fun _ => rfl) hfresh
  have hslot : gfnToMemslot s.vcpu.kvm 0 = some 0 := by
    rw [hkvm]
    exact gfnToMemslot_first hn (by rw [hm.slots]; rfl)
  have herr : isErrorHpa (gpaToHpa s.vcpu.kvm (0 &&& pt64BaseAddrMask)) = false := by
    rw [isErrorHpa_gpaToHpa]
    unfold gpaFrame
    rw [show gfnOf (0 &&& pt64BaseAddrMask) = 0 by decide, hslot]
    rfl
  obtain ⟨v, hv, -, -, p, hp, hentry⟩ := ((machineInv_opened default).run hrun).nonpaging_fault hcreated hops
    (show (0 : BitVec 64).toNat < 2 ^ 32 by decide) herr
  have hsafe := hall default _ (hrun.tail ⟨.vcpu hcreated hv, trivial⟩)
  obtain ⟨-, hpage⟩ := hsafe.owned hcreated _ ⟨_, p, _, hp, by rw [hentry]; simp, rfl⟩
  have hpage : _ ∈ s.live := hpage
  rw [hlive, hm.live] at hpage
  cases hpage

end LearnKvm
