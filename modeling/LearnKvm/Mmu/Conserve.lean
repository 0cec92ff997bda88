import LearnKvm.Mmu.Leaf

/-!
# Operations on the shadow tables as a whole

The operations that are not part of handling a fault: the root is exchanged for an empty one (`nonpaging_flush`,
`kvm_mmu_reset_context`), pages are dropped when CR3 is loaded, the entry of an address is removed, write access to a
slot is withdrawn.  Each keeps `MmuInv`; none of them but the first adds a path.
-/

namespace LearnKvm

open LinkForest

variable {pool : List Pfn} {lvl : Pfn → Nat} {top : Nat} {R : Set Pfn} {s s' : Vcpu} {r : Pfn}

namespace Tables

/-- The invariant reads the lists, the entries and the back pointers. -/
theorem congr (h : Tables pool lvl top R s) (hfree : s'.freePages = s.freePages)
    (hact : s'.kvm.activeMmuPages = s.kvm.activeMmuPages) (hshadow : s'.shadow = s.shadow)
    (hparent : ∀ p, (s'.header p).parentPte = (s.header p).parentPte)
    (hglobal : ∀ p ∈ s.kvm.activeMmuPages, (s'.header p).global = false → (s.header p).global = false ∨ lvl p = 1) :
    Tables pool lvl top R s' where
  nodup := h.nodup
  perm := by rw [hfree, hact]; exact h.perm
  forest := h.forest.congr (fun _ => by simp [linksOf, hact]) (fun _ _ => rfl) (fun _ _ _ => by simp [linksOf, hshadow])
    (fun _ _ => by simp [linksOf, hparent])
  level_pos := hact ▸ h.level_pos
  free_zero := by rw [hfree, hshadow]; exact h.free_zero
  upper := by rw [hact, hshadow]; exact h.upper
  leaf := by rw [hact, hshadow]; exact h.leaf
  nonglobal p hp hg := by
    rw [hact] at hp
    exact (hglobal p hp hg).elim (h.nonglobal p hp) id

/-- Flags other than those that mark an entry as present may change in all entries. -/
theorem mapEntries (h : Tables pool lvl top R s) {f : Pfn → Fin 512 → BitVec 64}
    (hz : ∀ p i, s.shadow p i = 0 → f p i = 0) (h0 : ∀ p i, (f p i).hasBit 0 = (s.shadow p i).hasBit 0)
    (h9 : ∀ p i, (f p i).hasBit 9 = (s.shadow p i).hasBit 9) (hf : ∀ p i, frameOf (f p i) = frameOf (s.shadow p i)) :
    Tables pool lvl top R { s with shadow := f } where
  nodup := h.nodup
  perm := h.perm
  forest := h.forest.congr (fun _ => Iff.rfl) (fun _ _ => rfl) (fun _ _ _ => by simp [linksOf, h0, hf]) (fun _ _ => rfl)
  level_pos := h.level_pos
  free_zero p hp i := hz p i (h.free_zero p hp i)
  upper p hp hlev i := (h.upper p hp hlev i).imp (hz p i) fun he => (h0 p i).trans he
  leaf p hp hlev i := by
    rcases h.leaf p hp hlev i with he | he | ⟨he, he'⟩
    · exact Or.inl (hz p i he)
    · exact Or.inr (Or.inl ((h0 p i).trans he))
    · exact Or.inr (Or.inr ⟨(h9 p i).trans he, (h0 p i).trans he'⟩)
  nonglobal := h.nonglobal

/-- Without roots no page is active. -/
theorem active_of_no_root (h : Tables pool lvl top ∅ s) : s.kvm.activeMmuPages = [] :=
  List.eq_nil_iff_forall_not_mem.2 fun p => h.forest.not_live_of_no_root p

/-- Without roots the bound on the levels does not matter. -/
theorem of_no_root (h : Tables pool lvl top ∅ s) (top' : Nat) : Tables pool lvl top' ∅ s where
  nodup := h.nodup
  perm := h.perm
  forest :=
    { h.forest with level_le := fun p hp => absurd hp (h.forest.not_live_of_no_root p) }
  level_pos := h.level_pos
  free_zero := h.free_zero
  upper := h.upper
  leaf := h.leaf
  nonglobal := h.nonglobal

/-- When no page is active, the pages of the pool are free. -/
theorem exists_free (h : Tables pool lvl top ∅ s) (hpool : pool ≠ []) : ∃ q rest, s.freePages = q :: rest := by
  have hp := h.perm
  rw [h.active_of_no_root, List.append_nil] at hp
  cases hf : s.freePages with
  | nil =>
    rw [hf] at hp
    exact absurd hp.symm.eq_nil hpool
  | cons q rest => exact ⟨q, rest, rfl⟩

end Tables

/-! ### A new root -/

/-- `s'` has an empty root page `q` and no other active page; the entries outside of the pool are those of `s`. -/
structure NewRoot (pool : List Pfn) (q : Pfn) (s s' : Vcpu) : Prop where
  active : s'.kvm.activeMmuPages = [q]
  root : s'.mmu.rootHpa = some q
  empty : ∀ i, s'.shadow q i = 0
  header : s'.header q = { slotBitmap := 0, global := true, parentPte := none }
  length : s'.freePages.length + 1 = pool.length
  kvm : s'.kvm = { s.kvm with activeMmuPages := [q] }
  mem : s'.mem = s.mem
  cr3 : s'.cr3 = s.cr3
  badPage : s'.badPage = s.badPage
  failed : s'.failed = s.failed
  vmcs : ∀ f, f ≠ .guestCr3 → s'.vmcs f = s.vmcs f

/-- The only path in a tree with an empty root is the one of length zero. -/
theorem NewRoot.onPath {q : Pfn} (h : NewRoot pool q s s') {va : BitVec 64} {l : Nat} {p : Pfn}
    (hp : OnPath s' va l p) : l = s'.mmu.shadowRootLevel ∧ p = q := by
  induction hp with
  | root hr => exact ⟨rfl, Option.some.inj (hr.symm.trans h.root)⟩
  | down hp he ih =>
    obtain ⟨-, rfl⟩ := ih
    rw [h.empty] at he
    exact absurd he (by simp)

/-- The root of a forest, and with it everything, is released. -/
theorem MmuInv.release (h : MmuInv pool lvl r s) :
    ReleaseSpec pool lvl s.mmu.shadowRootLevel ∅ s (releasePtPage64 s.mmu.shadowRootLevel s r) := by
  have hpos : 1 ≤ s.mmu.shadowRootLevel := by
    have := h.levels.shadowRootLevel
    omega
  have := h.tables.release hpos (Set.mem_singleton r) h.level_root
  rwa [Set.sdiff_self] at this

/-- A page is taken for the root of a tree with `top` levels. -/
theorem Tables.allocRoot (h : Tables pool lvl top ∅ s) (hpool : pool ≠ []) {top' : Nat} (hpos : 1 ≤ top') :
    ∃ q rest, kvmMmuAllocPage s none = (s.activate q rest none, some q) ∧ s.freePages = q :: rest ∧
      (∀ i, s.shadow q i = 0) ∧ Tables pool (Function.update lvl q top') top' {q} (s.activate q rest none) := by
  obtain ⟨q, rest, hf⟩ := h.exists_free hpool
  have hz : ∀ i, s.shadow q i = 0 := h.free_zero q (hf ▸ List.mem_cons_self)
  have := (h.of_no_root top').activate hf hpos le_rfl none
  rw [insert_empty_eq] at this
  exact ⟨q, rest, kvmMmuAllocPage_cons hf hz none, hf, hz, this⟩

theorem Tables.length_free (h : Tables pool lvl top ∅ s) : s.freePages.length = pool.length := by
  have := h.perm.length_eq
  rwa [h.active_of_no_root, List.append_nil] at this

theorem nonpagingFlush_spec (h : MmuInv pool lvl r s) (hpool : pool ≠ []) :
    ∃ lvl' q, MmuInv pool lvl' q (nonpagingFlush s) ∧ NewRoot pool q s (nonpagingFlush s) ∧
      (nonpagingFlush s).mmu = { s.mmu with rootHpa := some q } := by
  obtain ⟨h1, h2⟩ := h.release
  have hpos : 1 ≤ s.mmu.shadowRootLevel := by
    have := h.levels.shadowRootLevel
    omega
  obtain ⟨q, rest, halloc, hf, hz, ht⟩ := h1.allocRoot hpool hpos
  have hact := h1.active_of_no_root
  have hlen := h1.length_free
  have hframe := h2.frame
  unfold nonpagingFlush rootPage
  rw [h.root, Option.getD_some]
  generalize releasePtPage64 s.mmu.shadowRootLevel s r = s1 at *
  have hmmu : s1.mmu = s.mmu := by rw [hframe]
  have hfailed : s1.failed = s.failed := by rw [hframe]
  have hkvm : s1.kvm = { s.kvm with activeMmuPages := [] } := by rw [hframe, hact]
  dsimp only
  rw [halloc]
  dsimp only
  refine ⟨Function.update lvl q s.mmu.shadowRootLevel, q, ⟨?_, rfl, ?_, ?_, ?_⟩,
    ⟨?_, rfl, hz, if_pos rfl, ?_, ?_, ?_, ?_, ?_, ?_, ?_⟩, ?_⟩
  · have : (s1.activate q rest none).mmu = s.mmu := hmmu
    rw [this]
    exact ht.congr rfl rfl rfl (fun _ => rfl) fun _ _ => Or.inl
  · have : (s1.activate q rest none).mmu = s.mmu := hmmu
    simp [this]
  · have : (s1.activate q rest none).mmu = s.mmu := hmmu
    rw [this]
    exact h.levels
  · exact hfailed.trans h.failed
  · show q :: s1.kvm.activeMmuPages = [q]
    rw [hact]
  · show rest.length + 1 = pool.length
    rw [← hlen, hf, List.length_cons]
  · show { s1.kvm with activeMmuPages := q :: s1.kvm.activeMmuPages } = _
    rw [hkvm]
  · show s1.mem = _
    rw [hframe]
  · show s1.cr3 = _
    rw [hframe]
  · show s1.badPage = _
    rw [hframe]
  · exact hfailed
  · intro f hf
    show vmcsWritel s1.vmcs .guestCr3 _ f = _
    have : s1.vmcs = s.vmcs := by rw [hframe]
    rw [this]
    exact vmcsReadl_vmcsWritel_of_ne hf
  · show { s1.mmu with rootHpa := some q } = _
    rw [hmmu]

theorem MmuInv.nonpagingFlush_shadow (h : MmuInv pool lvl r s) (p : Pfn) (i : Fin 512) :
    (nonpagingFlush s).shadow p i = s.shadow p i ∨ (nonpagingFlush s).shadow p i = 0 := by
  have hreleased := h.release.released.shadow p i
  have halloc : ∀ s1 : Vcpu, (kvmMmuAllocPage s1 none).1.shadow = s1.shadow := by
    intro s1
    unfold kvmMmuAllocPage Vcpu.assert
    split
    · rfl
    · dsimp only
      split <;> rfl
  unfold nonpagingFlush rootPage
  rw [h.root, Option.getD_some]
  generalize releasePtPage64 s.mmu.shadowRootLevel s r = s1 at hreleased ⊢
  rw [← halloc s1] at hreleased
  exact hreleased

/-- The context that `init_kvm_mmu` chooses. -/
def contextFor (v : Vmcs) (root : Option Pfn) : KvmMmu :=
  if !isPaging v then { ops := .nonpaging, rootHpa := root, rootLevel := 3, shadowRootLevel := 3 }
  else if isLongMode v then { ops := .paging64, rootHpa := root, rootLevel := 4, shadowRootLevel := 4 }
  else if isPae v then { ops := .paging64, rootHpa := root, rootLevel := 3, shadowRootLevel := 3 }
  else { ops := .paging32, rootHpa := root, rootLevel := 2, shadowRootLevel := 3 }

theorem levelsOk_contextFor (v : Vmcs) (root : Option Pfn) : (contextFor v root).LevelsOk := by
  unfold contextFor
  split
  · exact ⟨rfl, rfl⟩
  · split
    · exact ⟨rfl, Or.inr rfl⟩
    · split
      · exact ⟨rfl, Or.inl rfl⟩
      · exact ⟨rfl, rfl⟩

@[simp] theorem rootHpa_contextFor (v : Vmcs) (root : Option Pfn) : (contextFor v root).rootHpa = root := by
  unfold contextFor
  split
  · rfl
  · split
    · rfl
    · split <;> rfl

theorem initKvmMmu_eq {s1 : Vcpu} {root : Option Pfn} (halloc : kvmMmuAllocPage s none = (s1, root)) :
    initKvmMmu s =
      { s1 with
        mmu := contextFor s.vmcs root
        vmcs := vmcsWritel s1.vmcs .guestCr3
          (if isPaging s.vmcs then hpaOfOption root ||| cr3PageFlags s1 else hpaOfOption root) } := by
  unfold initKvmMmu contextFor nonpagingInitContext paging32EInitContext paging64InitContext paging32InitContext
  rw [halloc]
  cases isPaging s.vmcs <;> cases isLongMode s.vmcs <;> cases isPae s.vmcs <;> rfl

/-- A context is initialised when no page is active. -/
theorem initKvmMmu_spec (h : Tables pool lvl top ∅ s) (hfailed : s.failed = []) (hpool : pool ≠ []) :
    ∃ lvl' q, MmuInv pool lvl' q (initKvmMmu s) ∧ NewRoot pool q s (initKvmMmu s) ∧
      (initKvmMmu s).mmu = contextFor s.vmcs (some q) := by
  have hpos : 1 ≤ (contextFor s.vmcs none).shadowRootLevel := by
    have := (levelsOk_contextFor s.vmcs none).shadowRootLevel
    omega
  obtain ⟨q, rest, halloc, hf, hz, ht⟩ := h.allocRoot hpool hpos
  have hact := h.active_of_no_root
  have hlevel : (contextFor s.vmcs (some q)).shadowRootLevel = (contextFor s.vmcs none).shadowRootLevel := by
    unfold contextFor
    split
    · rfl
    · split
      · rfl
      · split <;> rfl
  rw [initKvmMmu_eq halloc]
  refine ⟨Function.update lvl q (contextFor s.vmcs none).shadowRootLevel, q, ⟨?_, by simp, ?_, ?_, hfailed⟩,
    ⟨?_, by simp, hz, if_pos rfl, ?_, ?_, rfl, rfl, rfl, rfl, fun f hf => ?_⟩, rfl⟩
  · dsimp only
    rw [hlevel]
    exact ht.congr rfl rfl rfl (fun _ => rfl) fun _ _ => Or.inl
  · simp [hlevel]
  · exact levelsOk_contextFor _ _
  · show q :: s.kvm.activeMmuPages = [q]
    rw [hact]
  · show rest.length + 1 = pool.length
    rw [← h.length_free, hf, List.length_cons]
  · show { s.kvm with activeMmuPages := q :: s.kvm.activeMmuPages } = _
    rw [hact]
  · exact vmcsReadl_vmcsWritel_of_ne hf

/-- What `destroy_kvm_mmu` leaves behind. -/
theorem destroyKvmMmu_spec (h : MmuInv pool lvl r s) :
    ReleaseSpec pool lvl s.mmu.shadowRootLevel ∅ { s with mmu := { s.mmu with rootHpa := none } }
      (destroyKvmMmu s) := by
  obtain ⟨h1, h2⟩ := h.release
  unfold destroyKvmMmu nonpagingFree
  rw [h.root]
  dsimp only
  generalize releasePtPage64 s.mmu.shadowRootLevel s r = s1 at *
  refine ⟨h1.congr rfl rfl rfl (fun _ => rfl) fun _ _ => Or.inl, ?_, h2.shadow, h2.active, h2.free⟩
  have := h2.frame
  rw [this]

theorem kvmMmuResetContext_spec (h : MmuInv pool lvl r s) (hpool : pool ≠ []) :
    ∃ lvl' q, MmuInv pool lvl' q (kvmMmuResetContext s) ∧ NewRoot pool q s (kvmMmuResetContext s) ∧
      (kvmMmuResetContext s).mmu = contextFor s.vmcs (some q) := by
  obtain ⟨h1, h2⟩ := destroyKvmMmu_spec h
  have hframe := h2.frame
  have hvmcs : (destroyKvmMmu s).vmcs = s.vmcs := by rw [hframe]
  have hfailed : (destroyKvmMmu s).failed = s.failed := by rw [hframe]
  obtain ⟨lvl', q, h3, h4, h5⟩ := initKvmMmu_spec h1 (hfailed.trans h.failed) hpool
  refine ⟨lvl', q, h3, ⟨h4.active, h4.root, h4.empty, h4.header, h4.length, h4.kvm.trans ?_, h4.mem.trans ?_, h4.cr3.trans ?_,
    h4.badPage.trans ?_, h4.failed.trans hfailed, fun f hf => (h4.vmcs f hf).trans (by rw [hvmcs])⟩, hvmcs ▸ h5⟩
  · rw [hframe]
  · rw [hframe]
  · rw [hframe]
  · rw [hframe]

/-- The page headers that `kvm_mmu_init` sets up are all free, unless an allocation fails. -/
private theorem allocMmuPages_spec {alloc : Fin 256 → Option Pfn} (is : List (Fin 256)) (s : Vcpu)
    (hz : ∀ p ∈ s.freePages, ∀ i, s.shadow p i = 0) {s' : Vcpu} (hs : allocMmuPages alloc is s = (s', true)) :
    s' = { s with shadow := s'.shadow, freePages := s'.freePages } ∧
      s'.freePages = (is.filterMap alloc).reverse ++ s.freePages ∧ (is.filterMap alloc).length = is.length ∧
      ∀ p ∈ s'.freePages, ∀ i, s'.shadow p i = 0 := by
  induction is generalizing s with
  | nil =>
    obtain ⟨rfl, -⟩ := Prod.mk.inj hs
    exact ⟨rfl, rfl, rfl, hz⟩
  | cons i is ih =>
    unfold allocMmuPages at hs
    cases hi : alloc i with
    | none =>
      rw [hi] at hs
      simp at hs
    | some page =>
      rw [hi] at hs
      have hz' : ∀ p ∈ page :: s.freePages, ∀ i, (if p = page then 0 else s.shadow p i) = 0 := by
        intro p hp j
        split
        · rfl
        · rcases List.mem_cons.1 hp with rfl | hp
          · contradiction
          · exact hz p hp j
      obtain ⟨h1, h2, h3, h4⟩ := ih _ hz' hs
      refine ⟨h1, ?_, ?_, h4⟩
      · rw [h2, List.filterMap_cons_some hi, List.reverse_cons, List.append_assoc]
        rfl
      · rw [List.filterMap_cons_some hi, List.length_cons, h3, List.length_cons]

/-- The pages that `kvm_mmu_init` has allocated. -/
def mmuPool (alloc : Fin 256 → Option Pfn) : List Pfn := ((List.finRange 256).filterMap alloc).reverse

/-- A successful `kvm_mmu_init` of a new vcpu establishes the invariant; `alloc_page` gives distinct pages. -/
theorem kvmMmuInit_spec {alloc : Fin 256 → Option Pfn} (hinj : ∀ i j p, alloc i = some p → alloc j = some p → i = j)
    (hfree : s.freePages = []) (hact : s.kvm.activeMmuPages = []) (hfailed : s.failed = [])
    (hs : kvmMmuInit alloc s = (s', true)) :
    (mmuPool alloc).length = 256 ∧ ∃ lvl' q, MmuInv (mmuPool alloc) lvl' q s' ∧ NewRoot (mmuPool alloc) q s s' ∧
      s'.mmu = contextFor s.vmcs (some q) := by
  unfold kvmMmuInit at hs
  cases hal : allocMmuPages alloc (List.finRange 256) s with
  | mk s1 ok =>
    rw [hal] at hs
    cases ok with
    | false => simp at hs
    | true =>
      obtain ⟨rfl, -⟩ := Prod.mk.inj hs
      obtain ⟨h1, h2, h3, h4⟩ := allocMmuPages_spec _ s (by simp [hfree]) hal
      rw [hfree, List.append_nil] at h2
      have hact1 : s1.kvm.activeMmuPages = [] := by rw [h1]; exact hact
      have hlen : (mmuPool alloc).length = 256 := by
        rw [mmuPool, List.length_reverse, h3, List.length_finRange]
      have hnodup : (mmuPool alloc).Nodup := by
        rw [mmuPool, List.nodup_reverse]
        exact (List.nodup_finRange 256).filterMap fun i j p hi hj => hinj i j p hi hj
      have ht : Tables (mmuPool alloc) (fun _ => 0) 0 ∅ s1 := by
        refine ⟨hnodup, by rw [h2, hact1, List.append_nil]; exact List.Perm.refl _, ⟨?_, ?_, ?_, ?_, ?_, ?_, ?_⟩,
          ?_, h4, ?_, ?_, ?_⟩ <;> simp [linksOf, hact1]
      have hfailed1 : s1.failed = [] := by rw [h1]; exact hfailed
      have hvmcs1 : s1.vmcs = s.vmcs := by rw [h1]
      obtain ⟨lvl', q, h5, h6, h7⟩ := initKvmMmu_spec ht hfailed1 (List.ne_nil_of_length_pos (by omega))
      refine ⟨hlen, lvl', q, h5, ⟨h6.active, h6.root, h6.empty, h6.header, h6.length, h6.kvm.trans ?_, h6.mem.trans ?_,
        h6.cr3.trans ?_, h6.badPage.trans ?_, h6.failed.trans ?_, fun f hf => (h6.vmcs f hf).trans (by rw [hvmcs1])⟩,
        hvmcs1 ▸ h7⟩
      all_goals rw [h1]

/-- `kvm_mmu_init` fails only when `alloc_page` does. -/
theorem kvmMmuInit_of_alloc {alloc : Fin 256 → Option Pfn} (halloc : ∀ i, (alloc i).isSome = true) (s : Vcpu) :
    kvmMmuInit alloc s = ((kvmMmuInit alloc s).1, true) := by
  have hpages : ∀ (is : List (Fin 256)) (s : Vcpu), (allocMmuPages alloc is s).2 = true := by
    intro is
    induction is with
    | nil => exact fun _ => rfl
    | cons i is ih =>
      intro s
      obtain ⟨page, hi⟩ := Option.isSome_iff_exists.1 (halloc i)
      unfold allocMmuPages
      rw [hi]
      exact ih _
  have := hpages (List.finRange 256) s
  unfold kvmMmuInit
  generalize allocMmuPages alloc (List.finRange 256) s = out at this ⊢
  obtain ⟨s1, ok⟩ := out
  obtain rfl : ok = true := this
  rfl

/-! ### Dropping pages -/

theorem MmuInv.of_released (h : MmuInv pool lvl r s) (ht : Tables pool lvl s.mmu.shadowRootLevel {r} s')
    (hr : Released s s') : MmuInv pool lvl r s' := by
  have hmmu : s'.mmu = s.mmu := by rw [hr.frame]
  have hfailed : s'.failed = s.failed := by rw [hr.frame]
  exact ⟨hmmu ▸ ht, hmmu ▸ h.root, hmmu ▸ h.level_root, hmmu ▸ h.levels, hfailed.trans h.failed⟩

/-- A page of level one is taken out of the tree. -/
theorem MmuInv.dropLeafPage (h : MmuInv pool lvl r s) {p : Pfn} {i : Fin 512} (hp : p ∈ s.kvm.activeMmuPages)
    (hlev : lvl p = 2) (he : (s.shadow p i).hasBit 0 = true) :
    let s' := releasePtPage64 1 (s.writePte ⟨p, i⟩ 0) (frameOf (s.shadow p i))
    MmuInv pool lvl r s' ∧ Released s s' ∧ frameOf (s.shadow p i) ∉ s'.kvm.activeMmuPages ∧
      ∀ q ∈ s.kvm.activeMmuPages, q ≠ frameOf (s.shadow p i) → q ∈ s'.kvm.activeMmuPages := by
  have hchild := @Tables.child_eq lvl s _ _ (by omega) he
  have hqlev : lvl (frameOf (s.shadow p i)) = 1 := by
    have := h.tables.forest.child_level p i _ hp hchild
    simp only [linksOf] at this
    omega
  have hqR := h.tables.forest.child_not_root p i _ hp hchild
  have h1 := h.tables.writePte_zero hp (by omega) he
  obtain ⟨h2, h3⟩ := h1.release le_rfl (Set.mem_insert _ _) hqlev
  rw [Set.insert_sdiff_self_of_notMem hqR] at h2
  have h4 := (Released.writePte_zero s ⟨p, i⟩).trans h3
  refine ⟨h.of_released h2 h4, h4, fun hq => ?_, fun q hq hne => (List.mem_erase_of_ne hne).2 hq⟩
  exact (h1.active_nodup.mem_erase_iff.1 hq).1 rfl

/-- One round of `kvm_mmu_flush_tlb`. -/
def flushTlbRound (s : Vcpu) (page : Pfn) : Vcpu :=
  if (s.header page).global then s
  else
    match (s.header page).parentPte with
    | none => s
    | some parentPte => releasePtPage64 1 (s.writePte parentPte 0) page

theorem kvmMmuFlushTlb_eq (s : Vcpu) : kvmMmuFlushTlb s = s.kvm.activeMmuPages.foldl flushTlbRound s := rfl

/-- A page that is not global is a page of level one, and its header names the entry above it. -/
theorem MmuInv.nonglobal_parent (h : MmuInv pool lvl r s) {p : Pfn} (hp : p ∈ s.kvm.activeMmuPages)
    (hg : (s.header p).global = false) : ∃ q i, q ∈ s.kvm.activeMmuPages ∧ lvl q = 2 ∧ lvl p = 1 ∧
      (s.shadow q i).hasBit 0 = true ∧ frameOf (s.shadow q i) = p ∧ (s.header p).parentPte = some ⟨q, i⟩ := by
  have hlev := h.tables.nonglobal p hp hg
  have hroot : p ∉ ({r} : Set Pfn) := by
    rintro rfl
    have := h.level_root
    have := h.levels.shadowRootLevel
    omega
  obtain ⟨q, i, hq, hc⟩ := h.tables.forest.linked p hp hroot
  obtain ⟨-, hpres, hframe⟩ := Tables.child_some_iff.1 hc
  have hlev2 := h.tables.forest.child_level _ _ _ hq hc
  simp only [linksOf] at hlev2
  exact ⟨q, i, hq, by omega, hlev, hpres, hframe, h.tables.parentPte_eq hq hc⟩

/-- A round takes its own page off the list if the page is not global. -/
theorem MmuInv.flushTlbRound_spec (h : MmuInv pool lvl r s) {p : Pfn} (hp : p ∈ s.kvm.activeMmuPages) :
    MmuInv pool lvl r (flushTlbRound s p) ∧ Released s (flushTlbRound s p) ∧
      ∀ q ∈ s.kvm.activeMmuPages, q ∈ (flushTlbRound s p).kvm.activeMmuPages ↔ (s.header q).global = true ∨ q ≠ p := by
  unfold flushTlbRound
  cases hg : (s.header p).global with
  | true =>
    refine ⟨h, Released.refl s, fun q hq => iff_of_true hq ?_⟩
    by_cases hqp : q = p
    · exact Or.inl (hqp ▸ hg)
    · exact Or.inr hqp
  | false =>
    -- the page is linked: only pages of level one are not global
    obtain ⟨q, i, hq, hlev, -, hpres, rfl, hparent⟩ := h.nonglobal_parent hp hg
    rw [hparent]
    obtain ⟨h1, h2, h3, h4⟩ := h.dropLeafPage hq hlev hpres
    refine ⟨h1, h2, fun x hx => ⟨fun hx' => Or.inr ?_, ?_⟩⟩
    · rintro rfl
      exact h3 hx'
    · rintro (hgx | hne)
      · refine h4 x hx ?_
        rintro rfl
        rw [hg] at hgx
        cases hgx
      · exact h4 x hx hne

/-- The rounds for some of the pages. -/
theorem MmuInv.flushTlbRounds_spec {ps : List Pfn} (h : MmuInv pool lvl r s) (hnd : ps.Nodup)
    (hps : ∀ p ∈ ps, p ∈ s.kvm.activeMmuPages) :
    MmuInv pool lvl r (ps.foldl flushTlbRound s) ∧ Released s (ps.foldl flushTlbRound s) ∧
      ∀ q ∈ s.kvm.activeMmuPages,
        q ∈ (ps.foldl flushTlbRound s).kvm.activeMmuPages ↔ (s.header q).global = true ∨ q ∉ ps := by
  induction ps generalizing s with
  | nil => exact ⟨h, Released.refl s, fun q hq => iff_of_true hq (Or.inr List.not_mem_nil)⟩
  | cons p ps ih =>
    obtain ⟨h1, h2, h3⟩ := h.flushTlbRound_spec (hps p List.mem_cons_self)
    obtain ⟨hp, hnd⟩ := List.nodup_cons.1 hnd
    obtain ⟨h4, h5, h6⟩ := ih h1 hnd fun q hq =>
      (h3 q (hps q (List.mem_cons_of_mem _ hq))).2 (Or.inr (by rintro rfl; exact hp hq))
    have hheader : (flushTlbRound s p).header = s.header := by rw [h2.frame]
    refine ⟨h4, h2.trans h5, fun q hq => ?_⟩
    rw [List.foldl_cons, List.mem_cons, not_or]
    constructor
    · intro hmem
      have hround := (h6 q (h5.active q hmem)).1 hmem
      rw [hheader] at hround
      rcases (h3 q hq).1 (h5.active q hmem) with hg | hne
      · exact Or.inl hg
      · exact hround.imp_right fun hno => ⟨hne, hno⟩
    · intro hor
      refine (h6 q ((h3 q hq).2 (hor.imp_right And.left))).2 ?_
      rw [hheader]
      exact hor.imp_right And.right

/-- The pages of level one that are not global are dropped. -/
theorem kvmMmuFlushTlb_spec (h : MmuInv pool lvl r s) :
    MmuInv pool lvl r (kvmMmuFlushTlb s) ∧ Released s (kvmMmuFlushTlb s) ∧
      ∀ p ∈ (kvmMmuFlushTlb s).kvm.activeMmuPages, (s.header p).global = true := by
  rw [kvmMmuFlushTlb_eq]
  obtain ⟨h1, h2, h3⟩ := h.flushTlbRounds_spec h.tables.active_nodup fun _ hp => hp
  exact ⟨h1, h2, fun p hp => ((h3 p (h2.active p hp)).1 hp).resolve_right fun hno => hno (h2.active p hp)⟩

/-- Removing the entry of an address empties an entry of level one or drops a page of level one. -/
theorem pagingInvalPage_spec (addr : BitVec 64) {level : Nat} {p : Pfn} (h : MmuInv pool lvl r s)
    (hp : OnPath s addr level p) :
    ∃ s1, MmuInv pool lvl r s1 ∧ Released s s1 ∧
      (pagingInvalPage addr level s p = s1 ∨
        ∃ v, pagingInvalPage addr level s p = { s1 with vmcs := vmcsWritel s1.vmcs .guestCr3 v }) := by
  induction level using Nat.strong_induction_on generalizing p with
  | _ level ih =>
    obtain ⟨hact, hlev⟩ := h.active_of_onPath hp
    match level, h.pos_of_onPath hp with
    | 1, _ =>
      refine ⟨_, h.of_released (h.tables.writeLeaf hact hlev (pt64Index addr 1) (Or.inl rfl))
        (Released.writePte_zero s _), Released.writePte_zero s _, Or.inl rfl⟩
    | level + 2, _ =>
      cases hpres : (s.shadow p (pt64Index addr (level + 2))).hasBit 0 with
      | false =>
        refine ⟨s, h, Released.refl s, Or.inl ?_⟩
        simp [pagingInvalPage, Vcpu.readPte, hpres]
      | true =>
        by_cases hps : level = 0 ∧ (s.shadow p (pt64Index addr (level + 2))).hasBit 9 = true
        · obtain ⟨rfl, hps⟩ := hps
          obtain ⟨h1, h2, -, -⟩ := h.dropLeafPage hact hlev hpres
          generalize hs1 : releasePtPage64 1 (s.writePte ⟨p, pt64Index addr (0 + 2)⟩ 0)
            (frameOf (s.shadow p (pt64Index addr (0 + 2)))) = s1 at h1 h2
          refine ⟨s1, h1, h2, Or.inr ⟨hpaOfOption s1.mmu.rootHpa ||| cr3PageFlags s1, ?_⟩⟩
          rw [← hs1]
          simp only [pagingInvalPage, Vcpu.readPte, isPresentPte_eq, hpres, and_ptShadowPsMark, hps]
          rfl
        · have heq : pagingInvalPage addr (level + 2) s p =
              pagingInvalPage addr (level + 1) s (frameOf (s.shadow p (pt64Index addr (level + 2)))) := by
            conv_lhs => unfold pagingInvalPage
            simp only [Vcpu.readPte, isPresentPte_eq, hpres, and_ptShadowPsMark]
            rw [if_neg (by decide), if_neg (by simpa using hps)]
          rw [heq]
          exact ih (level + 1) (by omega) (.down hp hpres)

/-! ### Withdrawing write access -/

/-- The entry without the writable bit. -/
def clearWritable (e : BitVec 64) : BitVec 64 := e &&& ~~~ptWritableMask

@[simp] theorem hasBit_clearWritable (e : BitVec 64) (i : Nat) :
    (clearWritable e).hasBit i = (e.hasBit i && !decide (i = 1)) := by
  unfold clearWritable
  rw [BitVec.hasBit_and, BitVec.hasBit_not, hasBit_ptWritableMask]
  by_cases hi : i < 64
  · simp [hi]
  · simp [BitVec.hasBit_of_ge e (Nat.le_of_not_lt hi)]

/-- Write access is withdrawn from the entries of some pages; nothing else changes. -/
theorem kvmMmuSlotRemoveWriteAccess_eq (s : Vcpu) (slot : Fin 4) :
    kvmMmuSlotRemoveWriteAccess s slot =
      { s with shadow := fun p i =>
          if p ∈ s.kvm.activeMmuPages ∧ (s.header p).slotBitmap.hasBit slot.val = true then clearWritable (s.shadow p i)
          else s.shadow p i } := by
  have hclear : ∀ e : BitVec 64, (if e &&& ptWritableMask != 0 then e &&& ~~~ptWritableMask else e) = clearWritable e := by
    intro e
    rw [and_ptWritableMask]
    split
    · rfl
    · rename_i h1
      apply BitVec.eq_of_hasBit
      intro i _
      rw [hasBit_clearWritable]
      by_cases hi : i = 1
      · simpa [hi] using h1
      · simp [hi]
  have hrun : ∀ (ps : List Pfn) (s : Vcpu), ps.foldl (fun s page =>
      if (s.header page).slotBitmap.hasBit slot.val then
        { s with shadow := fun p i =>
            if p = page then
              (if s.shadow p i &&& ptWritableMask != 0 then s.shadow p i &&& ~~~ptWritableMask else s.shadow p i)
            else s.shadow p i }
      else s) s =
      { s with shadow := fun p i =>
          if p ∈ ps ∧ (s.header p).slotBitmap.hasBit slot.val = true then clearWritable (s.shadow p i)
          else s.shadow p i } := by
    intro ps
    induction ps with
    | nil => simp
    | cons page ps ih =>
      intro s
      rw [List.foldl_cons, ih]
      simp only [hclear]
      by_cases hb : (s.header page).slotBitmap.hasBit slot.val = true
      · rw [if_pos hb]
        dsimp only
        congr 1
        funext p i
        by_cases hp : p = page
        · subst hp
          simp only [hb, and_true, if_true, List.mem_cons, true_or]
          split
          · apply BitVec.eq_of_hasBit
            intro i _
            simp
          · rfl
        · simp [hp]
      · rw [if_neg hb]
        congr 1
        funext p i
        by_cases hp : p = page
        · subst hp
          simp [hb]
        · simp [hp]
  exact hrun _ s

theorem kvmMmuSlotRemoveWriteAccess_spec (h : MmuInv pool lvl r s) (slot : Fin 4) :
    MmuInv pool lvl r (kvmMmuSlotRemoveWriteAccess s slot) := by
  rw [kvmMmuSlotRemoveWriteAccess_eq]
  refine ⟨h.tables.mapEntries (fun p i he => ?_) (fun p i => ?_) (fun p i => ?_) (fun p i => ?_), h.root, h.level_root,
    h.levels, h.failed⟩
  · split
    · rw [he]
      rfl
    · exact he
  · split <;> simp
  · split <;> simp
  · split
    · exact frameOf_congr fun i h12 _ => by simp [show i ≠ 1 by omega]
    · rfl

theorem shadow_slotRemoveWriteAccess (s : Vcpu) (slot : Fin 4) (p : Pfn) (i : Fin 512) :
    (kvmMmuSlotRemoveWriteAccess s slot).shadow p i =
      if p ∈ s.kvm.activeMmuPages ∧ (s.header p).slotBitmap.hasBit slot.val = true then clearWritable (s.shadow p i)
      else s.shadow p i := by rw [kvmMmuSlotRemoveWriteAccess_eq]

@[simp] theorem mmu_slotRemoveWriteAccess (s : Vcpu) (slot : Fin 4) : (kvmMmuSlotRemoveWriteAccess s slot).mmu = s.mmu := by
  rw [kvmMmuSlotRemoveWriteAccess_eq]

@[simp] theorem header_slotRemoveWriteAccess (s : Vcpu) (slot : Fin 4) :
    (kvmMmuSlotRemoveWriteAccess s slot).header = s.header := by rw [kvmMmuSlotRemoveWriteAccess_eq]

theorem hasBit_slotRemoveWriteAccess (s : Vcpu) (slot : Fin 4) (p : Pfn) (i : Fin 512) {n : Nat} (hn : n ≠ 1) :
    ((kvmMmuSlotRemoveWriteAccess s slot).shadow p i).hasBit n = (s.shadow p i).hasBit n := by
  rw [shadow_slotRemoveWriteAccess]
  split
  · simp [hn]
  · rfl

theorem frameOf_slotRemoveWriteAccess (s : Vcpu) (slot : Fin 4) (p : Pfn) (i : Fin 512) :
    frameOf ((kvmMmuSlotRemoveWriteAccess s slot).shadow p i) = frameOf (s.shadow p i) :=
  frameOf_congr fun n h12 _ => hasBit_slotRemoveWriteAccess s slot p i (by omega)

/-- The same pages are reached, along the same paths. -/
theorem onPath_slotRemoveWriteAccess {slot : Fin 4} {va : BitVec 64} {l : Nat} {p : Pfn} :
    OnPath (kvmMmuSlotRemoveWriteAccess s slot) va l p ↔ OnPath s va l p := by
  constructor
  · refine OnPath.mono (by simp) (by simp) fun l p _ hpres => ?_
    rw [hasBit_slotRemoveWriteAccess _ _ _ _ (by decide)] at hpres
    exact ⟨hpres, (frameOf_slotRemoveWriteAccess ..).symm⟩
  · refine OnPath.mono (by simp) (by simp) fun l p _ hpres => ?_
    rw [hasBit_slotRemoveWriteAccess _ _ _ _ (by decide)]
    exact ⟨hpres, frameOf_slotRemoveWriteAccess ..⟩

theorem reaches_slotRemoveWriteAccess {slot : Fin 4} {l : Nat} {p : Pfn} :
    Reaches (kvmMmuSlotRemoveWriteAccess s slot) l p ↔ Reaches s l p := by
  constructor
  · refine Reaches.mono (by simp) fun p i hpres => ?_
    rw [hasBit_slotRemoveWriteAccess _ _ _ _ (by decide)] at hpres
    exact ⟨hpres, (frameOf_slotRemoveWriteAccess ..).symm⟩
  · refine Reaches.mono (by simp) fun p i hpres => ?_
    rw [hasBit_slotRemoveWriteAccess _ _ _ _ (by decide)]
    exact ⟨hpres, frameOf_slotRemoveWriteAccess ..⟩

end LearnKvm
