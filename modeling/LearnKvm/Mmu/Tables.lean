import LearnKvm.Lib.LinkForest
import LearnKvm.Mmu.Context

/-!
# The forest of shadow pages

The shadow pages on the list of active pages form a forest in the sense of `LinkForest`: a present entry of a page of
level two or more links to the page of its frame, and `parent_pte` is the back pointer.  `Tables` is the invariant of
the pool of shadow pages relative to a set of roots; between two operations the only root is the page of `root_hpa`,
inside one there can be others.  The level of a page is not stored anywhere, so the invariant names it.

The lemmas follow the primitive operations: an entry is emptied, a page is freed, a page is allocated, a page is linked,
an entry of a page of level one is written.  Releasing a page (`Tables.release`) is the induction over the level which
combines the first two.
-/

namespace LearnKvm

open LinkForest

@[simp] theorem Vcpu.shadow_writePte (s : Vcpu) (ptr : PtePtr) (e : BitVec 64) (p : Pfn) (i : Fin 512) :
    (s.writePte ptr e).shadow p i = if p = ptr.page ∧ i = ptr.index then e else s.shadow p i := rfl

@[simp] theorem Vcpu.readPte_writePte_self (s : Vcpu) (ptr : PtePtr) (e : BitVec 64) :
    (s.writePte ptr e).readPte ptr = e := by simp [Vcpu.readPte]

theorem Vcpu.shadow_writePte_of_ne {s : Vcpu} {ptr : PtePtr} {e : BitVec 64} {p : Pfn} {i : Fin 512}
    (h : (p, i) ≠ (ptr.page, ptr.index)) : (s.writePte ptr e).shadow p i = s.shadow p i := by
  rw [Vcpu.shadow_writePte, if_neg]
  rintro ⟨rfl, rfl⟩
  exact h rfl

theorem Vcpu.shadow_writePte_of_page_ne {s : Vcpu} {ptr : PtePtr} {e : BitVec 64} {p : Pfn} (i : Fin 512)
    (h : p ≠ ptr.page) : (s.writePte ptr e).shadow p i = s.shadow p i :=
  Vcpu.shadow_writePte_of_ne fun heq => h (Prod.mk.inj heq).1

/-- The links of the shadow pages, a page `p` being of level `lvl p`. -/
def linksOf (lvl : Pfn → Nat) (s : Vcpu) : Links Pfn (Fin 512) where
  live p := p ∈ s.kvm.activeMmuPages
  level := lvl
  child p i := if 2 ≤ lvl p ∧ isPresentPte (s.shadow p i) then some (frameOf (s.shadow p i)) else none
  parent p := (s.header p).parentPte.map fun ptr => (ptr.page, ptr.index)

/-- An entry of a page of level one: empty, present, or the mark of an address outside the memory slots. -/
def LeafEntry (e : BitVec 64) : Prop :=
  e = 0 ∨ e.hasBit 0 = true ∨ (e.hasBit 9 = true ∧ e.hasBit 0 = false)

/-- The shadow pages of the pool are on one of the two lists, the active ones form a forest with roots `R`. -/
structure Tables (pool : List Pfn) (lvl : Pfn → Nat) (top : Nat) (R : Set Pfn) (s : Vcpu) : Prop where
  nodup : pool.Nodup
  perm : (s.freePages ++ s.kvm.activeMmuPages).Perm pool
  forest : (linksOf lvl s).WF R top
  level_pos : ∀ p ∈ s.kvm.activeMmuPages, 1 ≤ lvl p
  free_zero : ∀ p ∈ s.freePages, ∀ i, s.shadow p i = 0
  upper : ∀ p ∈ s.kvm.activeMmuPages, 2 ≤ lvl p → ∀ i, s.shadow p i = 0 ∨ (s.shadow p i).hasBit 0 = true
  leaf : ∀ p ∈ s.kvm.activeMmuPages, lvl p = 1 → ∀ i, LeafEntry (s.shadow p i)
  nonglobal : ∀ p ∈ s.kvm.activeMmuPages, (s.header p).global = false → lvl p = 1

/-- `s'` differs from `s` only in that some shadow pages went from the active to the free list and some entries were
emptied. -/
structure Released (s s' : Vcpu) : Prop where
  frame : s' = { s with
    shadow := s'.shadow
    freePages := s'.freePages
    kvm := { s.kvm with activeMmuPages := s'.kvm.activeMmuPages } }
  shadow : ∀ p i, s'.shadow p i = s.shadow p i ∨ s'.shadow p i = 0
  active : ∀ p ∈ s'.kvm.activeMmuPages, p ∈ s.kvm.activeMmuPages
  free : ∀ p ∈ s.freePages, p ∈ s'.freePages

namespace Released

theorem refl (s : Vcpu) : Released s s := ⟨rfl, fun _ _ => Or.inl rfl, fun _ h => h, fun _ h => h⟩

theorem trans {s s' s'' : Vcpu} (h : Released s s') (h' : Released s' s'') : Released s s'' where
  frame := by rw [h'.frame, h.frame]
  shadow p i := by
    rcases h'.shadow p i with h1 | h1
    · rw [h1]
      exact h.shadow p i
    · exact Or.inr h1
  active p hp := h.active p (h'.active p hp)
  free p hp := h'.free p (h.free p hp)

theorem writePte_zero (s : Vcpu) (ptr : PtePtr) : Released s (s.writePte ptr 0) := by
  refine ⟨rfl, fun p i => ?_, fun _ h => h, fun _ h => h⟩
  rw [Vcpu.shadow_writePte]
  split
  · exact Or.inr rfl
  · exact Or.inl rfl

end Released

variable {pool : List Pfn} {lvl : Pfn → Nat} {top : Nat} {R : Set Pfn} {s : Vcpu}

namespace Tables

theorem active_nodup (h : Tables pool lvl top R s) : s.kvm.activeMmuPages.Nodup :=
  (List.nodup_append.1 (h.perm.nodup_iff.2 h.nodup)).2.1

theorem not_free_of_active (h : Tables pool lvl top R s) {p : Pfn} (hp : p ∈ s.kvm.activeMmuPages) :
    p ∉ s.freePages := fun hf =>
  (List.nodup_append.1 (h.perm.nodup_iff.2 h.nodup)).2.2 p hf p hp rfl

theorem child_eq {p : Pfn} {i : Fin 512} (hlev : 2 ≤ lvl p) (he : (s.shadow p i).hasBit 0 = true) :
    (linksOf lvl s).child p i = some (frameOf (s.shadow p i)) := by
  simp [linksOf, hlev, he]

theorem child_eq_none {p : Pfn} {i : Fin 512} (h : lvl p < 2 ∨ s.shadow p i = 0) :
    (linksOf lvl s).child p i = none := by
  rcases h with h | h
  · simp [linksOf, Nat.not_le.2 h]
  · simp [linksOf, h]

theorem child_some_iff {p q : Pfn} {i : Fin 512} :
    (linksOf lvl s).child p i = some q ↔ 2 ≤ lvl p ∧ (s.shadow p i).hasBit 0 = true ∧ frameOf (s.shadow p i) = q := by
  simp [linksOf, and_assoc]

theorem child_congr {s' : Vcpu} {p : Pfn} {i : Fin 512} (h : s'.shadow p i = s.shadow p i) :
    (linksOf lvl s').child p i = (linksOf lvl s).child p i := by simp [linksOf, h]

/-- The header of a linked page names the entry that links it. -/
theorem parentPte_eq (h : Tables pool lvl top R s) {p q : Pfn} {i : Fin 512} (hp : p ∈ s.kvm.activeMmuPages)
    (hc : (linksOf lvl s).child p i = some q) : (s.header q).parentPte = some ⟨p, i⟩ := by
  have := h.forest.child_parent p i q hp hc
  simp only [linksOf, Option.map_eq_some_iff, Prod.mk.injEq] at this
  obtain ⟨⟨a, b⟩, h1, rfl, rfl⟩ := this
  exact h1

/-- Emptying the entry above an active page turns the page into a root. -/
theorem writePte_zero (h : Tables pool lvl top R s) {p : Pfn} {i : Fin 512} (hp : p ∈ s.kvm.activeMmuPages)
    (hlev : 2 ≤ lvl p) (he : (s.shadow p i).hasBit 0 = true) :
    Tables pool lvl top (insert (frameOf (s.shadow p i)) R) (s.writePte ⟨p, i⟩ 0) where
  nodup := h.nodup
  perm := h.perm
  forest := by
    refine h.forest.unlink (p := p) (i := i) hp (child_eq hlev he) (fun _ => Iff.rfl) (fun _ _ => rfl)
      (fun _ _ => rfl) (child_eq_none (Or.inr (by simp))) fun x j _ hne => ?_
    exact child_congr (Vcpu.shadow_writePte_of_ne hne)
  level_pos := h.level_pos
  free_zero q hq j := by
    rw [Vcpu.shadow_writePte]
    split
    · rfl
    · exact h.free_zero q hq j
  upper q hq hl j := by
    rw [Vcpu.shadow_writePte]
    split
    · exact Or.inl rfl
    · exact h.upper q hq hl j
  leaf q hq hl j := by
    rw [Vcpu.shadow_writePte]
    split
    · exact Or.inl rfl
    · exact h.leaf q hq hl j
  nonglobal := h.nonglobal

/-- A root with empty entries may be put on the free list. -/
theorem freePage (h : Tables pool lvl top R s) {p : Pfn} (hp : p ∈ R) (hz : ∀ i, s.shadow p i = 0) :
    Tables pool lvl top (R \ {p}) (kvmMmuFreePage s p) := by
  have hact : p ∈ s.kvm.activeMmuPages := h.forest.root_live p hp
  have hfree : s.freePages.erase p = s.freePages := List.erase_of_not_mem (h.not_free_of_active hact)
  have hmem : ∀ q, q ∈ s.kvm.activeMmuPages.erase p ↔ q ∈ s.kvm.activeMmuPages ∧ q ≠ p := fun q => by
    rw [h.active_nodup.mem_erase_iff, and_comm]
  refine ⟨h.nodup, ?_, ?_, ?_, ?_, ?_, ?_, ?_⟩
  · refine List.Perm.trans ?_ h.perm
    show (p :: s.freePages.erase p ++ s.kvm.activeMmuPages.erase p).Perm _
    rw [hfree]
    calc (p :: s.freePages ++ s.kvm.activeMmuPages.erase p).Perm
          (s.freePages ++ p :: s.kvm.activeMmuPages.erase p) := List.perm_middle.symm
      _ |>.Perm (s.freePages ++ s.kvm.activeMmuPages) :=
          (List.perm_cons_erase hact).symm.append_left _
  · exact h.forest.drop hp (fun i => child_eq_none (Or.inr (hz i))) hmem (fun _ _ _ => rfl) (fun _ _ _ => rfl)
      (fun _ _ _ _ => rfl)
  · exact fun q hq => h.level_pos q ((hmem q).1 hq).1
  · intro q hq i
    rcases List.mem_cons.1 hq with rfl | hq
    · exact hz i
    · exact h.free_zero q (hfree ▸ hq) i
  · exact fun q hq => h.upper q ((hmem q).1 hq).1
  · exact fun q hq => h.leaf q ((hmem q).1 hq).1
  · exact fun q hq => h.nonglobal q ((hmem q).1 hq).1

/-- Emptying a page of level one, which links to nothing. -/
theorem clearPage (h : Tables pool lvl top R s) {p : Pfn} (hlev : lvl p = 1) :
    Tables pool lvl top R { s with shadow := fun q i => if q = p then 0 else s.shadow q i } where
  nodup := h.nodup
  perm := h.perm
  forest := by
    refine h.forest.congr (fun _ => Iff.rfl) (fun _ _ => rfl) (fun x j _ => ?_) (fun _ _ => rfl)
    by_cases hx : x = p
    · subst hx
      rw [child_eq_none (Or.inl (by omega)), child_eq_none (Or.inl (by omega))]
    · exact child_congr (if_neg hx)
  level_pos := h.level_pos
  free_zero q hq i := by
    dsimp only
    split
    · rfl
    · exact h.free_zero q hq i
  upper q hq hl i := by
    dsimp only
    split
    · exact Or.inl rfl
    · exact h.upper q hq hl i
  leaf q hq hl i := by
    dsimp only
    split
    · exact Or.inl rfl
    · exact h.leaf q hq hl i
  nonglobal := h.nonglobal

/-- A new entry of a page of level one. -/
theorem writeLeaf (h : Tables pool lvl top R s) {p : Pfn} (hp : p ∈ s.kvm.activeMmuPages) (hlev : lvl p = 1)
    (i : Fin 512) {e : BitVec 64} (he : LeafEntry e) : Tables pool lvl top R (s.writePte ⟨p, i⟩ e) where
  nodup := h.nodup
  perm := h.perm
  forest := by
    refine h.forest.congr (fun _ => Iff.rfl) (fun _ _ => rfl) (fun x j _ => ?_) (fun _ _ => rfl)
    by_cases hx : x = p
    · subst hx
      rw [child_eq_none (Or.inl (by omega)), child_eq_none (Or.inl (by omega))]
    · exact child_congr (Vcpu.shadow_writePte_of_page_ne j hx)
  level_pos := h.level_pos
  free_zero q hq j := by
    rw [Vcpu.shadow_writePte_of_page_ne j (by rintro rfl; exact h.not_free_of_active hp hq)]
    exact h.free_zero q hq j
  upper q hq hl j := by
    rw [Vcpu.shadow_writePte_of_page_ne j (by rintro rfl; omega)]
    exact h.upper q hq hl j
  leaf q hq hl j := by
    rw [Vcpu.shadow_writePte]
    split
    · exact he
    · exact h.leaf q hq hl j
  nonglobal := h.nonglobal

/-- An entry of an upper level may change its flags as long as it stays present and keeps its frame. -/
theorem writeUpper (h : Tables pool lvl top R s) {p : Pfn} (hp : p ∈ s.kvm.activeMmuPages) (hlev : 2 ≤ lvl p)
    {i : Fin 512} {e : BitVec 64} (hpres : (s.shadow p i).hasBit 0 = true) (he : e.hasBit 0 = true)
    (hframe : frameOf e = frameOf (s.shadow p i)) : Tables pool lvl top R (s.writePte ⟨p, i⟩ e) where
  nodup := h.nodup
  perm := h.perm
  forest := by
    refine h.forest.congr (fun _ => Iff.rfl) (fun _ _ => rfl) (fun x j _ => ?_) (fun _ _ => rfl)
    by_cases hx : (x, j) = (p, i)
    · obtain ⟨rfl, rfl⟩ := Prod.mk.inj hx
      rw [child_eq hlev hpres, child_eq hlev (by simpa using he)]
      simp [hframe]
    · exact child_congr (Vcpu.shadow_writePte_of_ne hx)
  level_pos := h.level_pos
  free_zero q hq j := by
    rw [Vcpu.shadow_writePte_of_page_ne j (by rintro rfl; exact h.not_free_of_active hp hq)]
    exact h.free_zero q hq j
  upper q hq hl j := by
    rw [Vcpu.shadow_writePte]
    split
    · exact Or.inr he
    · exact h.upper q hq hl j
  leaf q hq hl j := by
    rw [Vcpu.shadow_writePte_of_page_ne j (by rintro rfl; omega)]
    exact h.leaf q hq hl j
  nonglobal := h.nonglobal

end Tables

theorem Released.freePage (s : Vcpu) {p : Pfn} (hp : p ∉ s.freePages) : Released s (kvmMmuFreePage s p) := by
  refine ⟨rfl, fun _ _ => Or.inl rfl, fun _ h => List.mem_of_mem_erase h, fun q hq => ?_⟩
  show q ∈ p :: s.freePages.erase p
  rw [List.erase_of_not_mem hp]
  exact List.mem_cons_of_mem _ hq

/-! ### Releasing a page -/

/-- What `release_pt_page_64` leaves behind when it is applied to a root. -/
structure ReleaseSpec (pool : List Pfn) (lvl : Pfn → Nat) (top : Nat) (R : Set Pfn) (s s' : Vcpu) : Prop where
  tables : Tables pool lvl top R s'
  released : Released s s'

/-- The loop over the entries of a page of level two or more, given what the release of the pages below does. -/
private theorem release_entries {level : Nat} {p : Pfn}
    (ih : ∀ (s : Vcpu) (R : Set Pfn) (q : Pfn), Tables pool lvl top R s → q ∈ R → lvl q = level + 1 →
      ReleaseSpec pool lvl top (R \ {q}) s (releasePtPage64 (level + 1) s q))
    (hlev : lvl p = level + 2) (is : List (Fin 512)) (s : Vcpu) (h : Tables pool lvl top R s) (hp : p ∈ R) :
    let s' := is.foldl (fun s i =>
      let currentEnt := s.shadow p i
      let s := s.writePte ⟨p, i⟩ 0
      if isPresentPte currentEnt then releasePtPage64 (level + 1) s (frameOf currentEnt) else s) s
    ReleaseSpec pool lvl top R s s' ∧ ∀ i ∈ is, s'.shadow p i = 0 := by
  induction is generalizing s with
  | nil => exact ⟨⟨h, Released.refl s⟩, fun i hi => absurd hi List.not_mem_nil⟩
  | cons i is ihl =>
    have hact : p ∈ s.kvm.activeMmuPages := h.forest.root_live p hp
    -- one round: the entry is emptied and what it linked to is released
    have hround : ReleaseSpec pool lvl top R (s.writePte ⟨p, i⟩ 0) (if isPresentPte (s.shadow p i) then
        releasePtPage64 (level + 1) (s.writePte ⟨p, i⟩ 0) (frameOf (s.shadow p i)) else s.writePte ⟨p, i⟩ 0) := by
      rcases h.upper p hact (by omega) i with he | he
      · have hw : s.writePte ⟨p, i⟩ 0 = s := by
          have : (fun q j => if q = p ∧ j = i then 0 else s.shadow q j) = s.shadow := by
            funext q j
            split
            · rename_i hq
              rw [hq.1, hq.2, he]
            · rfl
          show { s with shadow := _ } = s
          rw [this]
        rw [he, hw]
        simpa using ⟨h, Released.refl s⟩
      · rw [isPresentPte_eq, if_pos he]
        set q := frameOf (s.shadow p i) with hq
        have hchild : (linksOf lvl s).child p i = some q := Tables.child_eq (by omega) he
        have hql : lvl q = level + 1 := by
          have := h.forest.child_level p i q hact hchild
          simp only [linksOf] at this
          omega
        have hqR : q ∉ R := h.forest.child_not_root p i q hact hchild
        obtain ⟨h2, h3⟩ := ih _ _ q (h.writePte_zero hact (by omega) he) (Set.mem_insert _ _) hql
        rw [Set.insert_sdiff_self_of_notMem hqR] at h2
        exact ⟨h2, h3⟩
    rw [List.foldl_cons]
    obtain ⟨⟨h1, h2⟩, h3⟩ := ihl _ hround.tables
    have h4 := hround.released.trans h2
    refine ⟨⟨h1, (Released.writePte_zero s _).trans h4⟩, fun j hj => ?_⟩
    rcases List.mem_cons.1 hj with rfl | hj
    · rcases h4.shadow p j with h0 | h0
      · rw [h0]
        simp
      · exact h0
    · exact h3 j hj

/-- Releasing a root takes it and everything below it off the active list. -/
theorem Tables.release {level : Nat} (hpos : 1 ≤ level) {s : Vcpu} {R : Set Pfn} {p : Pfn}
    (h : Tables pool lvl top R s) (hp : p ∈ R) (hlev : lvl p = level) :
    ReleaseSpec pool lvl top (R \ {p}) s (releasePtPage64 level s p) := by
  induction level generalizing s R p with
  | zero => omega
  | succ level ih =>
    cases level with
    | zero =>
      have h1 := h.clearPage hlev
      have hfree : p ∉ s.freePages := h.not_free_of_active (h.forest.root_live p hp)
      refine ⟨h1.freePage hp fun i => if_pos rfl, Released.trans ?_ (Released.freePage _ hfree)⟩
      refine ⟨rfl, fun q i => ?_, fun _ hq => hq, fun _ hq => hq⟩
      dsimp only
      split
      · exact Or.inr rfl
      · exact Or.inl rfl
    | succ level =>
      obtain ⟨⟨h1, h2⟩, h3⟩ := release_entries (fun s R q => ih (by omega)) hlev (List.finRange 512) s h hp
      have hfree := h1.not_free_of_active (h1.forest.root_live p hp)
      exact ⟨h1.freePage hp fun i => h3 i (List.mem_finRange i), h2.trans (Released.freePage _ hfree)⟩

/-! ### Allocating a page -/

/-- The state after taking the page `q` off the free list. -/
def Vcpu.activate (s : Vcpu) (q : Pfn) (rest : List Pfn) (parentPte : Option PtePtr) : Vcpu :=
  { s with
    freePages := rest
    kvm := { s.kvm with activeMmuPages := q :: s.kvm.activeMmuPages }
    header := fun p =>
      if p = q then { slotBitmap := 0, global := true, parentPte := parentPte } else s.header p }

theorem kvmMmuAllocPage_nil {s : Vcpu} (hf : s.freePages = []) (parentPte : Option PtePtr) :
    kvmMmuAllocPage s parentPte = (s, none) := by
  unfold kvmMmuAllocPage
  rw [hf]

theorem kvmMmuAllocPage_cons {s : Vcpu} {q : Pfn} {rest : List Pfn} (hf : s.freePages = q :: rest)
    (hz : ∀ i, s.shadow q i = 0) (parentPte : Option PtePtr) :
    kvmMmuAllocPage s parentPte = (s.activate q rest parentPte, some q) := by
  unfold kvmMmuAllocPage Vcpu.assert isEmptyShadowPage
  rw [hf]
  simp [hz, Vcpu.activate]

/-- A page taken off the free list is a root without links, of any level. -/
theorem Tables.activate (h : Tables pool lvl top R s) {q : Pfn} {rest : List Pfn} (hf : s.freePages = q :: rest)
    {l : Nat} (hl : 1 ≤ l) (hle : l ≤ top) (parentPte : Option PtePtr) :
    Tables pool (Function.update lvl q l) top (insert q R) (s.activate q rest parentPte) := by
  have hq : q ∈ s.freePages := hf ▸ List.mem_cons_self
  have hqa : q ∉ s.kvm.activeMmuPages := fun ha => h.not_free_of_active ha hq
  have hz : ∀ i, s.shadow q i = 0 := h.free_zero q hq
  have hne : ∀ p ∈ s.kvm.activeMmuPages, p ≠ q := fun p hp he => hqa (he ▸ hp)
  have hlvl : ∀ p ∈ s.kvm.activeMmuPages, Function.update lvl q l p = lvl p := fun p hp =>
    Function.update_of_ne (hne p hp) ..
  have hempty : ∀ i, (linksOf (Function.update lvl q l) (s.activate q rest parentPte)).child q i = none :=
    fun i => Tables.child_eq_none (Or.inr (hz i))
  refine ⟨h.nodup, ?_, ?_, ?_, ?_, ?_, ?_, ?_⟩
  · refine List.Perm.trans ?_ h.perm
    rw [hf]
    exact List.perm_middle
  · refine h.forest.add hqa hempty (fun x => ?_) hlvl (by simpa [linksOf] using hle) (fun x hx => ?_) fun x j hx => ?_
    · show x ∈ q :: s.kvm.activeMmuPages ↔ _
      rw [List.mem_cons, or_comm]
      rfl
    · simp [linksOf, Vcpu.activate, hne x hx]
    · simp [linksOf, Vcpu.activate, hlvl x hx]
  · intro p hp
    rcases List.mem_cons.1 hp with rfl | hp
    · simpa using hl
    · rw [hlvl p hp]
      exact h.level_pos p hp
  · exact fun p hp => h.free_zero p (hf ▸ List.mem_cons_of_mem _ hp)
  · intro p hp hlev i
    rcases List.mem_cons.1 hp with rfl | hp
    · exact Or.inl (hz i)
    · exact h.upper p hp (hlvl p hp ▸ hlev) i
  · intro p hp hlev i
    rcases List.mem_cons.1 hp with rfl | hp
    · exact Or.inl (hz i)
    · exact h.leaf p hp (hlvl p hp ▸ hlev) i
  · intro p hp hg
    rcases List.mem_cons.1 hp with rfl | hp
    · simp [Vcpu.activate] at hg
    · rw [hlvl p hp]
      exact h.nonglobal p hp (by simpa [Vcpu.activate, hne p hp] using hg)

/-- Linking a root into an empty entry one level up. -/
theorem Tables.link (h : Tables pool lvl top R s) {p q : Pfn} {i : Fin 512} {e : BitVec 64}
    (hp : p ∈ s.kvm.activeMmuPages) (hq : q ∈ R) (hlev : lvl p = lvl q + 1) (hempty : s.shadow p i = 0)
    (hpar : (s.header q).parentPte = some ⟨p, i⟩) (he : e.hasBit 0 = true) (hframe : frameOf e = q) :
    Tables pool lvl top (R \ {q}) (s.writePte ⟨p, i⟩ e) := by
  have hpos := h.level_pos q (h.forest.root_live q hq)
  refine ⟨h.nodup, h.perm, ?_, h.level_pos, ?_, ?_, ?_, h.nonglobal⟩
  · refine h.forest.link hp hq (Tables.child_eq_none (Or.inr hempty)) hlev.symm (by simp [linksOf, hpar])
      (fun _ => Iff.rfl) (fun _ _ => rfl) (fun _ _ => rfl) ?_ fun x j _ hne => ?_
    · rw [Tables.child_some_iff]
      simp only [Vcpu.shadow_writePte, and_self, if_true]
      exact ⟨by omega, he, hframe⟩
    · exact Tables.child_congr (Vcpu.shadow_writePte_of_ne hne)
  · intro x hx j
    rw [Vcpu.shadow_writePte_of_page_ne j (by rintro rfl; exact h.not_free_of_active hp hx)]
    exact h.free_zero x hx j
  · intro x hx hl j
    rw [Vcpu.shadow_writePte]
    split
    · exact Or.inr he
    · exact h.upper x hx hl j
  · intro x hx hl j
    rw [Vcpu.shadow_writePte_of_page_ne j (by rintro rfl; omega)]
    exact h.leaf x hx hl j

end LearnKvm
