import LearnKvm.Mmu.Tables

/-!
# Paths in the shadow tables

`OnPath s va l p` says that the walk of `va` in the shadow tables, from the root page through present entries, reaches
the page `p` as a table of level `l`.  `MmuInv` is the invariant that holds between two operations of the MMU: the pool
of shadow pages is a forest whose only root is the page of `root_hpa`.  Under it a page is reached along one path only
(`MmuInv.unique`), so that what is known about an entry for one address is known for all addresses that share it.
-/

namespace LearnKvm

open LinkForest

/-- The walk of `va` in the shadow tables reaches `p` at level `l`. -/
inductive OnPath (s : Vcpu) (va : BitVec 64) : Nat → Pfn → Prop
  | root {r : Pfn} (hr : s.mmu.rootHpa = some r) : OnPath s va s.mmu.shadowRootLevel r
  | down {l : Nat} {p : Pfn} (hp : OnPath s va (l + 2) p)
      (he : (s.shadow p (pt64Index va (l + 2))).hasBit 0 = true) :
      OnPath s va (l + 1) (frameOf (s.shadow p (pt64Index va (l + 2))))

/-- The page `p` is reached at level `l` through present entries. -/
inductive Reaches (s : Vcpu) : Nat → Pfn → Prop
  | root {r : Pfn} (hr : s.mmu.rootHpa = some r) : Reaches s s.mmu.shadowRootLevel r
  | down {l : Nat} {p : Pfn} {i : Fin 512} (hp : Reaches s (l + 2) p) (he : (s.shadow p i).hasBit 0 = true) :
      Reaches s (l + 1) (frameOf (s.shadow p i))

theorem OnPath.reaches {s : Vcpu} {va : BitVec 64} {l : Nat} {p : Pfn} (h : OnPath s va l p) : Reaches s l p := by
  induction h with
  | root hr => exact .root hr
  | down _ he ih => exact .down ih he

/-- A page stays reached when the entries above it stay present and keep their frames. -/
theorem Reaches.mono {s s' : Vcpu} {l : Nat} {p : Pfn} (hmmu : s'.mmu = s.mmu)
    (he : ∀ p i, (s.shadow p i).hasBit 0 = true →
      (s'.shadow p i).hasBit 0 = true ∧ frameOf (s'.shadow p i) = frameOf (s.shadow p i))
    (h : Reaches s l p) : Reaches s' l p := by
  induction h with
  | root hroot =>
    rw [← hmmu] at hroot ⊢
    exact .root hroot
  | @down l p i hp hpres ih =>
    obtain ⟨h1, h2⟩ := he p i hpres
    rw [← h2]
    exact .down ih h1

/-- The levels that the initialisation of a context sets. -/
def KvmMmu.LevelsOk (m : KvmMmu) : Prop :=
  match m.ops with
  | .nonpaging => m.rootLevel = 3 ∧ m.shadowRootLevel = 3
  | .paging64 => m.rootLevel = m.shadowRootLevel ∧ (m.shadowRootLevel = 3 ∨ m.shadowRootLevel = 4)
  | .paging32 => m.rootLevel = 2 ∧ m.shadowRootLevel = 3

theorem KvmMmu.LevelsOk.shadowRootLevel {m : KvmMmu} (h : m.LevelsOk) :
    m.shadowRootLevel = 3 ∨ m.shadowRootLevel = 4 := by
  unfold LevelsOk at h
  split at h
  · exact Or.inl h.2
  · exact h.2
  · exact Or.inl h.2

/-- The shadow pages are in order, `r` is the root page and no assertion has failed. -/
structure MmuInv (pool : List Pfn) (lvl : Pfn → Nat) (r : Pfn) (s : Vcpu) : Prop where
  tables : Tables pool lvl s.mmu.shadowRootLevel {r} s
  root : s.mmu.rootHpa = some r
  level_root : lvl r = s.mmu.shadowRootLevel
  levels : s.mmu.LevelsOk
  failed : s.failed = []

namespace OnPath

variable {s s' : Vcpu} {va : BitVec 64} {l : Nat} {p : Pfn}

/-- A path survives when its entries stay present and keep their frames. -/
theorem mono (hr : s'.mmu.rootHpa = s.mmu.rootHpa) (hl : s'.mmu.shadowRootLevel = s.mmu.shadowRootLevel)
    (he : ∀ l p, OnPath s va (l + 2) p → (s.shadow p (pt64Index va (l + 2))).hasBit 0 = true →
      (s'.shadow p (pt64Index va (l + 2))).hasBit 0 = true ∧
        frameOf (s'.shadow p (pt64Index va (l + 2))) = frameOf (s.shadow p (pt64Index va (l + 2))))
    (h : OnPath s va l p) : OnPath s' va l p := by
  induction h with
  | root hroot =>
    rw [← hl]
    exact .root (hr.trans hroot)
  | @down l p hp hpres ih =>
    obtain ⟨h1, h2⟩ := he l p hp hpres
    rw [← h2]
    exact .down ih h1

/-- Paths are made of the root and the shadow entries only. -/
theorem congr (hr : s'.mmu.rootHpa = s.mmu.rootHpa) (hl : s'.mmu.shadowRootLevel = s.mmu.shadowRootLevel)
    (hs : s'.shadow = s.shadow) : OnPath s' va l p ↔ OnPath s va l p := by
  constructor
  · exact mono hr.symm hl.symm fun l p _ h => by rw [hs] at h ⊢; exact ⟨h, rfl⟩
  · exact mono hr hl fun l p _ h => by rw [hs]; exact ⟨h, rfl⟩

/-- Releasing pages and emptying entries creates no path. -/
theorem of_released (h : Released s s') (hp : OnPath s' va l p) : OnPath s va l p := by
  have hmmu : s'.mmu = s.mmu := by rw [h.frame]
  refine mono (by rw [hmmu]) (by rw [hmmu]) (fun l p _ hpres => ?_) hp
  rcases h.shadow p (pt64Index va (l + 2)) with h1 | h1
  · rw [h1] at hpres ⊢
    exact ⟨hpres, rfl⟩
  · rw [h1] at hpres
    exact absurd hpres (by simp)

theorem level_le (h : OnPath s va l p) : l ≤ s.mmu.shadowRootLevel := by
  induction h with
  | root => exact le_rfl
  | down _ _ ih => omega

/-- The walk of an address reaches at most one page of a level. -/
theorem page_unique (hp : OnPath s va l p) {p' : Pfn} (hp' : OnPath s va l p') : p = p' := by
  induction hp generalizing p' with
  | root hr =>
    generalize hl : s.mmu.shadowRootLevel = l at hp'
    cases hp' with
    | root hr' => exact Option.some.inj (hr.symm.trans hr')
    | down hp' =>
      have := hp'.level_le
      omega
  | @down l p hp he ih =>
    generalize hk : l + 1 = k at hp'
    cases hp' with
    | root =>
      have := hp.level_le
      omega
    | @down l' p' hp' he' =>
      obtain rfl : l = l' := by omega
      rw [ih hp']

/-- A path has a page at every level above its end, and the entries of these pages are present. -/
theorem above (h : OnPath s va l p) : ∀ k, l ≤ k → k ≤ s.mmu.shadowRootLevel →
    ∃ q, OnPath s va k q ∧ (l < k → (s.shadow q (pt64Index va k)).hasBit 0 = true) := by
  induction h with
  | @root r hr =>
    intro k hk hk'
    obtain rfl : s.mmu.shadowRootLevel = k := by omega
    exact ⟨r, .root hr, fun hlt => absurd hlt (lt_irrefl _)⟩
  | @down l p hp he ih =>
    intro k hk hk'
    rcases Nat.eq_or_lt_of_le hk with rfl | hk
    · exact ⟨_, .down hp he, fun hlt => absurd hlt (lt_irrefl _)⟩
    · obtain ⟨q, hq, hpres⟩ := ih k hk hk'
      refine ⟨q, hq, fun _ => ?_⟩
      rcases Nat.eq_or_lt_of_le hk with rfl | hk
      · rwa [hq.page_unique hp]
      · exact hpres hk

/-- Addresses with the same indices above a level reach the same page at that level. -/
theorem of_index_eq {va' : BitVec 64} (h : OnPath s va l p)
    (hidx : ∀ k, l < k → k ≤ s.mmu.shadowRootLevel → pt64Index va k = pt64Index va' k) : OnPath s va' l p := by
  induction h with
  | root hr => exact .root hr
  | @down l p hp he ih =>
    have heq := hidx (l + 2) (by omega) hp.level_le
    rw [heq] at he ⊢
    exact .down (ih fun k hk => hidx k (by omega)) he

/-- Linking a page `q` without entries adds the paths that end in `q`. -/
theorem link_cases {ptr : PtePtr} {e : BitVec 64} {q : Pfn} (hz : ∀ i, s.shadow q i = 0) (hq : q ≠ ptr.page)
    (hframe : frameOf e = q) (h : OnPath (s.writePte ptr e) va l p) :
    OnPath s va l p ∨ (p = q ∧ OnPath s va (l + 1) ptr.page ∧ pt64Index va (l + 1) = ptr.index) := by
  induction h with
  | root hr => exact Or.inl (.root hr)
  | @down l p hp he ih =>
    rcases ih with ih | ⟨rfl, -, -⟩
    · by_cases heq : (p, pt64Index va (l + 2)) = (ptr.page, ptr.index)
      · obtain ⟨rfl, h2⟩ := Prod.mk.inj heq
        exact Or.inr ⟨by simp [h2, hframe], ih, h2⟩
      · rw [Vcpu.shadow_writePte_of_ne heq] at he ⊢
        exact Or.inl (.down ih he)
    · rw [Vcpu.shadow_writePte_of_page_ne _ hq, hz] at he
      exact absurd he (by simp)

end OnPath

namespace MmuInv

variable {pool : List Pfn} {lvl : Pfn → Nat} {r : Pfn} {s : Vcpu} {va : BitVec 64} {l : Nat} {p : Pfn}

theorem root_active (h : MmuInv pool lvl r s) : r ∈ s.kvm.activeMmuPages :=
  h.tables.forest.root_live r (Set.mem_singleton r)

theorem rootPage_eq (h : MmuInv pool lvl r s) : rootPage s = r := by
  unfold rootPage
  rw [h.root, Option.getD_some]

/-- A page that is reached is active, and its level is the one it is reached at. -/
theorem active_of_reaches (h : MmuInv pool lvl r s) (hp : Reaches s l p) : p ∈ s.kvm.activeMmuPages ∧ lvl p = l := by
  induction hp with
  | root hr =>
    obtain rfl : _ = r := Option.some.inj (hr.symm.trans h.root)
    exact ⟨h.root_active, h.level_root⟩
  | @down l p i _ he ih =>
    obtain ⟨hact, hlev⟩ := ih
    have hchild := @Tables.child_eq lvl _ _ _ (by omega) he
    refine ⟨h.tables.forest.child_live p _ _ hact hchild, ?_⟩
    have := h.tables.forest.child_level p _ _ hact hchild
    simp only [linksOf] at this
    omega

/-- A page that is reached is on the path of some address. -/
theorem onPath_of_reaches (h : MmuInv pool lvl r s) (hp : Reaches s l p) : ∃ va, OnPath s va l p := by
  induction hp with
  | root hr => exact ⟨0, .root hr⟩
  | @down l p i hp he ih =>
    obtain ⟨va, hva⟩ := ih
    have hlevel := hva.level_le
    have htop := h.levels.shadowRootLevel
    -- the address gets the index `i` at the level of the entry
    obtain ⟨va', hfield, habove⟩ := @Bits.exists_field_eq 64 (pt64LevelShift (l + 2)) 9
      (by unfold pt64LevelShift; omega) va (BitVec.ofFin i)
    have hidx : pt64Index va' (l + 2) = i := congrArg BitVec.toFin hfield
    have hp' : OnPath s va' (l + 2) p := hva.of_index_eq fun k hk _ => pt64Index_eq_iff.2 fun j hj _ =>
      (habove j (by unfold pt64LevelShift at hj ⊢; omega)).symm
    rw [← hidx] at he ⊢
    exact ⟨va', .down hp' he⟩

theorem active_of_onPath (h : MmuInv pool lvl r s) (hp : OnPath s va l p) : p ∈ s.kvm.activeMmuPages ∧ lvl p = l :=
  h.active_of_reaches hp.reaches

/-- Entries of a page of level one are on no path. -/
theorem onPath_writeLeaf (h : MmuInv pool lvl r s) {q : Pfn} (hq : lvl q = 1) (i : Fin 512) (e : BitVec 64) :
    OnPath (s.writePte ⟨q, i⟩ e) va l p ↔ OnPath s va l p := by
  constructor
  · intro hp
    induction hp with
    | root hr => exact .root hr
    | @down l p _ he ih =>
      obtain ⟨-, hlev⟩ := h.active_of_onPath ih
      rw [Vcpu.shadow_writePte_of_page_ne _ (show p ≠ q by rintro rfl; omega)] at he ⊢
      exact .down ih he
  · refine OnPath.mono rfl rfl fun l p hp hpres => ?_
    obtain ⟨-, hlev⟩ := h.active_of_onPath hp
    rw [Vcpu.shadow_writePte_of_page_ne _ (show p ≠ q by rintro rfl; omega)]
    exact ⟨hpres, rfl⟩

theorem pos_of_onPath (h : MmuInv pool lvl r s) (hp : OnPath s va l p) : 1 ≤ l := by
  obtain ⟨hact, rfl⟩ := h.active_of_onPath hp
  exact h.tables.level_pos p hact

/-- A page is reached along one path only. -/
theorem unique (h : MmuInv pool lvl r s) (hp : OnPath s va l p) {va' : BitVec 64} (hp' : OnPath s va' l p) :
    ∀ k, l < k → k ≤ s.mmu.shadowRootLevel → pt64Index va k = pt64Index va' k := by
  induction hp with
  | root => exact fun k hk hk' => absurd hk (by omega)
  | @down l p hp he ih =>
    intro k hk hk'
    obtain ⟨hact, hlev⟩ := h.active_of_onPath hp
    generalize hq : frameOf (s.shadow p (pt64Index va (l + 2))) = q at hp'
    generalize hl : l + 1 = l' at hp'
    cases hp' with
    | root hr =>
      -- the root is not linked from anywhere
      have := h.tables.forest.child_not_root p _ q hact (hq ▸ Tables.child_eq (by omega) he)
      rw [h.root] at hr
      exact absurd (Option.some.inj hr).symm this
    | @down l' p' hp' he' =>
      obtain rfl : l = l' := by omega
      obtain ⟨hact', hlev'⟩ := h.active_of_onPath hp'
      obtain ⟨rfl, hidx⟩ := h.tables.forest.link_unique hact hact' (Tables.child_eq (by omega) he)
        (hq ▸ Tables.child_eq (by omega) he')
      rcases Nat.lt_or_ge (l + 2) k with hlt | hge
      · exact ih hp' k hlt hk'
      · obtain rfl : k = l + 2 := by omega
        exact hidx

end MmuInv

end LearnKvm
