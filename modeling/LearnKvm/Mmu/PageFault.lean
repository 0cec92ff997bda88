import LearnKvm.Mmu.Fault

/-!
# The fault handler as a sequence of steps

Each part of `page_fault` is shown to be a sequence of `FaultStep`s that keeps `MmuInv`: the loop of `fetch` by
induction on the shadow level, the loop around it that starts over with an empty tree, `fix_write_pf` and `fix_read_pf`.
-/

namespace LearnKvm

open Relation

variable {pool : List Pfn} {lvl : Pfn → Nat} {r : Pfn} {s s' : Vcpu} {pt : PtType} {va : BitVec 64}

/-- What `fetch` has found, or why it has found nothing. -/
def FetchOk (pt : PtType) (va : BitVec 64) (s : Vcpu) (walker : GuestWalker) : FetchResult → Prop
  | .null => (guestPte pt s va 1).hasBit 0 = false
  | .enomem => s.freePages = []
  | .pte ptr => OnPath s va 1 ptr.page ∧ ptr.index = pt64Index va 1 ∧ s.readPte ptr ≠ 0 ∧ WalkerAt pt s walker va 1

/-- The walker in the fault handler has no effect on what it reads from the guest tables. -/
theorem WalkerAt.guestEnt {walker : GuestWalker} {n : Nat} (h : WalkerAt pt s walker va n) :
    (fetchGuest pt s walker n va).2 = (guestWalk pt s va n).2 ∧
      (fetchGuest pt s walker n va).1.level = (guestWalk pt s va n).1.level ∧
      (fetchGuest pt s walker n va).1.inheritedAr = (guestWalk pt s va n).1.inheritedAr := by
  obtain ⟨h1, h2⟩ := h.agree n le_rfl
  exact ⟨h2, by simpa [GuestWalker.forget] using congrArg GuestWalker.level h1,
    by simpa [GuestWalker.forget] using congrArg GuestWalker.inheritedAr h1⟩

theorem installLeaf_ne_zero {ptr : PtePtr} (hg : (guestPte pt s va 1).hasBit 0 = true) :
    (installLeaf pt s va ptr).readPte ptr ≠ 0 := by
  have h : (installLeaf pt s va ptr).readPte ptr = leafPte pt s va := Vcpu.readPte_writePte_self s ptr _
  rw [h]
  have hargs := leafArgs s va hg
  rcases hf : gpaFrame s.kvm (guestGaddr pt s va) with _ | f
  · refine BitVec.ne_zero_of_hasBit (i := 9) ?_
    unfold leafPte
    rw [hargs.hasBit_commonPte _ (by omega)]
    simp [hf]
  · refine BitVec.ne_zero_of_hasBit (i := 0) ?_
    unfold leafPte
    rw [hargs.hasBit_commonPte _ (by omega)]
    simp [hf]

/-- A new entry is accessible to users when the guest's is. -/
theorem installLeaf_fresh {ptr : PtePtr} (hg : (guestPte pt s va 1).hasBit 0 = true) :
    ((installLeaf pt s va ptr).readPte ptr).hasBit 2 = ((installLeaf pt s va ptr).readPte ptr).hasBit 11 := by
  have h : (installLeaf pt s va ptr).readPte ptr = leafPte pt s va := Vcpu.readPte_writePte_self s ptr _
  rw [h]
  unfold leafPte
  rw [(leafArgs s va hg).hasBit_commonPte _ (by omega), (leafArgs s va hg).hasBit_commonPte _ (by omega)]
  simp

/-! ### The accessed bit and the mark of large pages -/

/-- A step of `fetch`: it gives no rights to an entry that is there. -/
structure FetchStep (pt : PtType) (va : BitVec 64) (s s' : Vcpu) : Prop where
  step : FaultStep pt va s s'
  rights : ∀ p i, s.shadow p i ≠ 0 → ∀ j, j = 1 ∨ j = 2 → (s'.shadow p i).hasBit j = true →
    (s.shadow p i).hasBit j = true

theorem FetchStep.faultSteps (h : ReflTransGen (FetchStep pt va) s s') : ReflTransGen (FaultStep pt va) s s' :=
  ReflTransGen.mono (fun _ _ h => h.step) _ _ h

/-- A step that writes an empty entry. -/
theorem FetchStep.of_empty {p : Pfn} {i : Fin 512} {e : BitVec 64} (hstep : FaultStep pt va s s')
    (hz : s.shadow p i = 0) (hshadow : s'.shadow = (s.writePte ⟨p, i⟩ e).shadow) : FetchStep pt va s s' := by
  refine ⟨hstep, fun q k hne j _ hj => ?_⟩
  have hptr : (q, k) ≠ (p, i) := by
    intro heq
    obtain ⟨rfl, rfl⟩ := Prod.mk.inj heq
    exact hne hz
  rwa [hshadow, Vcpu.shadow_writePte_of_ne hptr] at hj

variable (pt) in
/-- The state after `fetch` has set the accessed bit in the guest entry of a level. -/
def setAccessed (s : Vcpu) (va : BitVec 64) (level : Nat) : Vcpu :=
  if s.mmu.rootLevel ≠ 3 || (guestWalk pt s va level).1.level ≠ 3 then
    orEntry pt s (guestWalk pt s va level).2 ptAccessedMask
  else s

theorem setAccessed_frame (s : Vcpu) (va : BitVec 64) (level : Nat) :
    setAccessed pt s va level = { s with mem := (setAccessed pt s va level).mem } := by
  unfold setAccessed
  split <;> rfl

theorem setAccessed_sameGuest (s : Vcpu) (va : BitVec 64) (level : Nat) :
    SameGuest pt s (setAccessed pt s va level) := by
  unfold setAccessed
  split
  · exact .orEntry (aligned_guestWalk s va level) fun i hi => Or.inl (by simpa using hi)
  · exact .refl s

theorem setAccessed_step {level : Nat} (hpos : 1 ≤ level) (hle : level ≤ s.mmu.rootLevel)
    (hg : (guestPte pt s va level).hasBit 0 = true) :
    ReflTransGen (FetchStep pt va) s (setAccessed pt s va level) := by
  unfold setAccessed
  split
  · exact .single ⟨.accessed hpos hle hg, fun _ _ _ _ _ h => h⟩
  · exact .refl

theorem accessedAt_setAccessed (s : Vcpu) (va : BitVec 64) (level : Nat) :
    AccessedAt pt (setAccessed pt s va level) va level := by
  have hsame := @setAccessed_sameGuest pt s va level
  unfold AccessedAt guestPte
  rw [hsame.guestWalk_eq, hsame.rootLevel]
  unfold setAccessed
  split
  · left
    rw [readEntry_orEntry_self (aligned_guestWalk s va level) fun i hi => Or.inl (by simpa using hi)]
    simp
  · rename_i h3
    right
    simpa using h3

/-- `*prev_shadow_ent |= PT_SHADOW_PS_MARK`. -/
def markLargePage (s : Vcpu) : Option PtePtr → Vcpu
  | none => s
  | some prev => s.writePte prev (s.readPte prev ||| ptShadowPsMark)

theorem markLargePage_step {prev : Option PtePtr} (h : MmuInv pool lvl r s) (hl : guestLevel pt s va = 2)
    (hprev : ∀ ptr, prev = some ptr → ∃ p', ptr = ⟨p', pt64Index va 2⟩ ∧ OnPath s va 2 p' ∧
      (s.shadow p' (pt64Index va 2)).hasBit 0 = true) :
    ReflTransGen (FetchStep pt va) s (markLargePage s prev) ∧ SameGuest pt s (markLargePage s prev) ∧
      MmuInv pool lvl r (markLargePage s prev) ∧ (∀ l p, OnPath s va l p → OnPath (markLargePage s prev) va l p) ∧
      (markLargePage s prev).mmu = s.mmu ∧
      ∀ p i, lvl p = 1 → (markLargePage s prev).shadow p i = s.shadow p i := by
  cases prev with
  | none => exact ⟨.refl, .refl s, h, fun _ _ hp => hp, rfl, fun _ _ _ => rfl⟩
  | some prev =>
    obtain ⟨p', rfl, hp', he⟩ := hprev prev rfl
    obtain ⟨hact, hlev⟩ := h.active_of_onPath hp'
    have hframe : frameOf (s.shadow p' (pt64Index va 2) ||| ptShadowPsMark) = frameOf (s.shadow p' (pt64Index va 2)) :=
      frameOf_congr fun i h12 _ => by simp [show i ≠ 9 by omega]
    refine ⟨.single ⟨.mark hp' he hl, fun p i _ j hj hset => ?_⟩, .of_eq rfl rfl rfl (fun _ => rfl) rfl fun _ _ => rfl,
      ⟨h.tables.writeUpper hact (by omega) he (by simp [Vcpu.readPte, he]) hframe, h.root, h.level_root, h.levels, h.failed⟩,
      fun l p hp => OnPath.mono (s := s) rfl rfl (fun l p _ hpres => ?_) hp, rfl,
      fun p i hlev' => Vcpu.shadow_writePte_of_page_ne i (by rintro rfl; omega)⟩
    · have h9 : j ≠ 9 := by omega
      rw [markLargePage, Vcpu.shadow_writePte] at hset
      split at hset
      · rename_i heq
        rw [heq.1, heq.2]
        simpa [Vcpu.readPte, h9] using hset
      · exact hset
    by_cases heq : (p, pt64Index va (l + 2)) = (p', pt64Index va 2)
    · obtain ⟨rfl, hidx⟩ := Prod.mk.inj heq
      rw [hidx] at hpres ⊢
      rw [show (markLargePage s (some ⟨p, pt64Index va 2⟩)).shadow p (pt64Index va 2) =
        s.shadow p (pt64Index va 2) ||| ptShadowPsMark from Vcpu.readPte_writePte_self s ⟨p, pt64Index va 2⟩ _]
      exact ⟨by simp [he], hframe⟩
    · rw [show (markLargePage s (some ⟨p', pt64Index va 2⟩)).shadow p (pt64Index va (l + 2)) =
        s.shadow p (pt64Index va (l + 2)) from Vcpu.shadow_writePte_of_ne heq]
      exact ⟨hpres, rfl⟩

/-! ### One round of `fetch` -/

section Round

variable {level : Nat} {walker : GuestWalker} {p : Pfn} {prev : Option PtePtr}

theorem fetchLoop_hit (he : (s.shadow p (pt64Index va 1)).hasBit 0 = true ∨ (s.shadow p (pt64Index va 1)).hasBit 9 = true) :
    fetchLoop pt va 1 s walker p prev = (s, walker, .pte ⟨p, pt64Index va 1⟩) := by
  unfold fetchLoop
  simp [Vcpu.readPte, he]

theorem fetchLoop_down (he : (s.shadow p (pt64Index va (level + 2))).hasBit 0 = true) :
    fetchLoop pt va (level + 2) s walker p prev =
      fetchLoop pt va (level + 1) s walker (frameOf (s.shadow p (pt64Index va (level + 2))))
        (some ⟨p, pt64Index va (level + 2)⟩) := by
  rw [fetchLoop]
  simp [Vcpu.readPte, he]

/-- A round at an empty entry. -/
theorem fetchLoop_empty (hw : WalkerAt pt s walker va (guestLevelFor pt (level + 1)))
    (hz : s.shadow p (pt64Index va (level + 1)) = 0) :
    fetchLoop pt va (level + 1) s walker p prev =
      let gl := guestLevelFor pt (level + 1)
      let walker := (fetchGuest pt s walker gl va).1
      let ptr : PtePtr := ⟨p, pt64Index va (level + 1)⟩
      if (guestPte pt s va gl).hasBit 0 = false then (s, walker, .null)
      else
        let s := setAccessed pt s va gl
        let gent := readEntry pt s (guestWalk pt s va gl).2
        if level + 1 = 1 then
          if (guestWalk pt s va gl).1.level = 2 then
            (setPde pt (markLargePage s prev) gent ptr (guestWalk pt s va gl).1.inheritedAr (pt.index va 1), walker,
              .pte ptr)
          else (setPte pt s gent ptr (guestWalk pt s va gl).1.inheritedAr, walker, .pte ptr)
        else
          match kvmMmuAllocPage s (some ptr) with
          | (s, none) => (s, walker, .enomem)
          | (s, some newPage) =>
            fetchLoop pt va level (s.writePte ptr (hpaOf newPage ||| linkFlags pt s (level + 1) gent)) walker newPage
              (some ptr) := by
  obtain ⟨h1, h2, h3⟩ := hw.guestEnt
  have hgl : (if pt = .pt32 && decide (level + 1 > 2) then 2 else level + 1) = guestLevelFor pt (level + 1) := rfl
  dsimp only
  rw [(setAccessed_sameGuest s va (guestLevelFor pt (level + 1))).guestWalk_eq]
  unfold guestPte setAccessed
  rw [← h1, ← h2, ← h3, fetchLoop]
  dsimp only
  rw [hgl]
  generalize fetchGuest pt s walker (guestLevelFor pt (level + 1)) va = out
  obtain ⟨walker, ent⟩ := out
  dsimp only
  rw [show s.readPte ⟨p, pt64Index va (level + 1)⟩ = 0 from hz, if_neg (by simp)]
  by_cases hg : (readEntry pt s ent).hasBit 0 = false
  · rw [if_pos hg, if_pos (by simp [hg])]
  · rw [if_neg hg, if_neg (by simpa using hg)]
    by_cases hlev : level + 1 = 1
    · rw [if_pos hlev, if_pos hlev]
      cases prev <;> rfl
    · rw [if_neg hlev]
      exact (if_neg hlev).symm

end Round

/-- The outcome of `fetch`: a sequence of steps that keeps the root. -/
structure FetchSpec (pool : List Pfn) (r : Pfn) (pt : PtType) (va : BitVec 64) (s : Vcpu)
    (out : Vcpu × GuestWalker × FetchResult) : Prop where
  steps : ReflTransGen (FetchStep pt va) s out.1
  inv : ∃ lvl, MmuInv pool lvl r out.1
  mmu : out.1.mmu = s.mmu
  vmcs : out.1.vmcs = s.vmcs
  ok : FetchOk pt va out.1 out.2.1 out.2.2
  /-- The entry was there, or it has just been installed. -/
  found : ∀ ptr, out.2.2 = .pte ptr → out.1 = s ∨ (out.1.readPte ptr).hasBit 2 = (out.1.readPte ptr).hasBit 11

/-- No entry was there when a page on the path is empty. -/
theorem FetchSpec.ne_of_empty {out : Vcpu × GuestWalker × FetchResult} (h : FetchSpec pool r pt va s out) {l : Nat}
    {q : Pfn} (hq : OnPath s va (l + 1) q) (hempty : ∀ i, s.shadow q i = 0) :
    ∀ ptr, out.2.2 = .pte ptr → out.1 ≠ s := by
  intro ptr hptr hsame
  have hok := h.ok
  rw [hptr, hsame] at hok
  obtain ⟨hleaf, hidx, hne, -⟩ := hok
  obtain ⟨x, hx, hpres⟩ := hleaf.above (l + 1) (by omega) hq.level_le
  obtain rfl := hx.page_unique hq
  cases l with
  | zero =>
    refine hne ?_
    unfold Vcpu.readPte
    rw [hleaf.page_unique hx]
    exact hempty _
  | succ l => exact absurd (hpres (by omega)) (by rw [hempty]; simp)

/-- The entry of `va` is installed in an empty entry of a page of level one. -/
theorem installLeaf_step (hpool : pool ≠ []) {p : Pfn} {walker : GuestWalker} (h : MmuInv pool lvl r s)
    (hp : OnPath s va 1 p) (hz : s.shadow p (pt64Index va 1) = 0) (hg : (guestPte pt s va 1).hasBit 0 = true)
    (hmark : guestLevel pt s va = 2 → PsMarked s va) (ha : AccessedAt pt s va 1) (hw : WalkerAt pt s walker va 1) :
    FetchSpec pool r pt va s (installLeaf pt s va ⟨p, pt64Index va 1⟩, walker, .pte ⟨p, pt64Index va 1⟩) := by
  have hstep : FaultStep pt va s (installLeaf pt s va ⟨p, pt64Index va 1⟩) := .leaf hp hz hg hmark ha
  obtain ⟨lvl', r', hinv⟩ := hstep.inv h hpool
  obtain ⟨hact, hlev⟩ := h.active_of_onPath hp
  have hr : r' = r := Option.some.inj (hinv.root.symm.trans h.root)
  refine ⟨.single (.of_empty hstep hz rfl), ⟨lvl', hr ▸ hinv⟩, rfl, rfl,
    ⟨?_, rfl, installLeaf_ne_zero hg, hw.sameGuest (hstep.sameGuest h hpool)⟩, fun ptr hptr => ?_⟩
  swap
  · obtain rfl := FetchResult.pte.inj hptr
    exact Or.inr (installLeaf_fresh hg)
  refine OnPath.mono (s := s) rfl rfl (fun l q hq hpres => ?_) hp
  obtain ⟨-, hlev'⟩ := h.active_of_onPath hq
  rw [show (installLeaf pt s va ⟨p, pt64Index va 1⟩).shadow q (pt64Index va (l + 2)) =
    s.shadow q (pt64Index va (l + 2)) from Vcpu.shadow_writePte_of_page_ne _ (by rintro rfl; omega)]
  exact ⟨hpres, rfl⟩

theorem linkPage_readPte (s : Vcpu) (ptr : PtePtr) (q : Pfn) (rest : List Pfn) {flags : BitVec 64}
    (h0 : flags.hasBit 0 = true) (haddr : ∀ i, 12 ≤ i → i < 52 → flags.hasBit i = false) :
    ((s.linkPage ptr q rest flags).readPte ptr).hasBit 0 = true ∧
      frameOf ((s.linkPage ptr q rest flags).readPte ptr) = q := by
  unfold Vcpu.linkPage
  rw [Vcpu.readPte_writePte_self]
  exact ⟨by simp [h0], frameOf_eq fun i h12 h52 => by simp [haddr i h12 h52]⟩

/-- The paths there were are there after a page has been linked. -/
theorem onPath_linkPage {ptr : PtePtr} (hz : s.readPte ptr = 0) (q : Pfn) (rest : List Pfn) (flags : BitVec 64)
    {l : Nat} {p : Pfn} (hp : OnPath s va l p) : OnPath (s.linkPage ptr q rest flags) va l p := by
  refine OnPath.mono (s := s) rfl rfl (fun l p _ hpres => ?_) hp
  have hne : (p, pt64Index va (l + 2)) ≠ (ptr.page, ptr.index) := by
    intro heq
    obtain ⟨rfl, hidx⟩ := Prod.mk.inj heq
    rw [hidx, show s.shadow ptr.page ptr.index = 0 from hz] at hpres
    exact absurd hpres (by simp)
  rw [show (s.linkPage ptr q rest flags).shadow p (pt64Index va (l + 2)) = s.shadow p (pt64Index va (l + 2)) from
    Vcpu.shadow_writePte_of_ne hne]
  exact ⟨hpres, rfl⟩

/-- `fetch` is a sequence of steps; it finds the entry of `va`, or a guest entry that is not present, or no free page.
The last happens only if there are fewer free pages than levels below the root, and no more pages than that are taken. -/
theorem fetchLoop_spec (hpool : pool ≠ []) {level : Nat} {s : Vcpu} {lvl : Pfn → Nat} {walker : GuestWalker} {p : Pfn}
    {prev : Option PtePtr} (h : MmuInv pool lvl r s) (hfor : s.mmu.IsFor pt) (hp : OnPath s va level p)
    (hw : WalkerAt pt s walker va (guestLevelFor pt level))
    (hprev : level = 1 → ∃ p', prev = some ⟨p', pt64Index va 2⟩ ∧ OnPath s va 2 p' ∧
      (s.shadow p' (pt64Index va 2)).hasBit 0 = true) :
    FetchSpec pool r pt va s (fetchLoop pt va level s walker p prev) ∧
      ((fetchLoop pt va level s walker p prev).2.2 = .enomem → s.freePages.length + 1 < level) ∧
      s.freePages.length + 1 ≤ (fetchLoop pt va level s walker p prev).1.freePages.length + level := by
  induction level generalizing s lvl walker p prev with
  | zero =>
    have := h.pos_of_onPath hp
    omega
  | succ level ih =>
    obtain ⟨hact, hlev⟩ := h.active_of_onPath hp
    obtain ⟨hpos, hle⟩ := hfor.guestLevelFor_le (Nat.succ_pos level) hp.level_le
    by_cases hz : s.shadow p (pt64Index va (level + 1)) = 0
    · rw [fetchLoop_empty hw hz]
      dsimp only
      by_cases hg : (guestPte pt s va (guestLevelFor pt (level + 1))).hasBit 0 = false
      · rw [if_pos hg]
        refine ⟨⟨.refl, ⟨lvl, h⟩, rfl, rfl, ?_, fun ptr hptr => by cases hptr⟩, fun hn => (by cases hn), Nat.add_le_add_left (Nat.succ_pos level) _⟩
        show (guestPte pt s va 1).hasBit 0 = false
        rw [guestPte_not_present s va hpos hle hg]
        exact hg
      rw [if_neg hg]
      rw [Bool.not_eq_false] at hg
      -- the accessed bit is set first
      have hstep1 := setAccessed_step hpos hle hg
      have hsame1 := @setAccessed_sameGuest pt s va (guestLevelFor pt (level + 1))
      have hframe1 := @setAccessed_frame pt s va (guestLevelFor pt (level + 1))
      have ha1 := @accessedAt_setAccessed pt s va (guestLevelFor pt (level + 1))
      generalize setAccessed pt s va (guestLevelFor pt (level + 1)) = s1 at *
      have h1 : MmuInv pool lvl r s1 := by
        rw [hframe1]
        exact h.congr rfl rfl rfl (fun _ => rfl) (fun _ _ => Or.inl) rfl rfl
      have hmmu1 : s1.mmu = s.mmu := by rw [hframe1]
      have hvmcs1 : s1.vmcs = s.vmcs := by rw [hframe1]
      have hfree1 : s1.freePages = s.freePages := by rw [hframe1]
      have hpath1 : ∀ l p, OnPath s va l p → OnPath s1 va l p := fun l p =>
        (OnPath.congr (by rw [hframe1]) (by rw [hframe1]) (by rw [hframe1])).2
      have hp1 := hpath1 _ p hp
      have hz1 : s1.shadow p (pt64Index va (level + 1)) = 0 := by
        rw [hframe1]
        exact hz
      have hw1 := hw.fetch.sameGuest hsame1
      have hg1 : (guestPte pt s1 va (guestLevelFor pt (level + 1))).hasBit 0 = true :=
        (hsame1.guestPte_le va _).le 0 hg
      by_cases hlev1 : level + 1 = 1
      · obtain rfl : level = 0 := by omega
        rw [if_pos rfl]
        simp only [Nat.zero_add, guestLevelFor_one] at *
        split
        · rename_i h2
          obtain ⟨p', rfl, hp', he⟩ := hprev trivial
          obtain ⟨hstep2, hsame2, h2inv, hpath2, hmmu2, hshadow2⟩ :=
            @markLargePage_step pool lvl r _ pt va (some ⟨p', pt64Index va 2⟩) h1 h2 fun ptr hptr => by
              obtain rfl := Option.some.inj hptr
              exact ⟨p', rfl, hpath1 2 p' hp', by rw [hframe1]; exact he⟩
          have hmark : PsMarked (markLargePage s1 (some ⟨p', pt64Index va 2⟩)) va := by
            refine ⟨p', hpath2 2 p' (hpath1 2 p' hp'), ?_⟩
            rw [show (markLargePage s1 (some ⟨p', pt64Index va 2⟩)).shadow p' (pt64Index va 2) =
              s1.shadow p' (pt64Index va 2) ||| ptShadowPsMark from Vcpu.readPte_writePte_self s1 ⟨p', pt64Index va 2⟩ _]
            simp
          have hmem : (markLargePage s1 (some ⟨p', pt64Index va 2⟩)).mem = s1.mem := rfl
          have hread : ∀ a, readEntry pt s1 a = readEntry pt (markLargePage s1 (some ⟨p', pt64Index va 2⟩)) a := fun a => by
            unfold readEntry
            rw [hmem]
          rw [hread, ← hsame2.guestWalk_eq]
          rw [← hsame2.guestWalk_eq] at h2
          have hz2 : (markLargePage s1 (some ⟨p', pt64Index va 2⟩)).shadow p (pt64Index va 1) = 0 := (hshadow2 p _ hlev).trans hz1
          have hg2 := (hsame2.guestPte_le va 1).le 0 hg1
          have heq := @set_eq_installLeaf pt _ va ⟨p, pt64Index va 1⟩ hz2 hg2
          rw [if_pos (show guestLevel pt (markLargePage s1 (some ⟨p', pt64Index va 2⟩)) va = 2 from h2)] at heq
          unfold guestPte at heq
          rw [heq]
          have h3 := installLeaf_step hpool h2inv (hpath2 1 p hp1) hz2 hg2 (fun _ => hmark)
            (ha1.sameGuest hsame2) (hw1.sameGuest hsame2)
          exact ⟨⟨(hstep1.trans hstep2).trans h3.steps, h3.inv, h3.mmu.trans (hmmu2.trans hmmu1),
            h3.vmcs.trans hvmcs1, h3.ok, fun ptr hptr => FetchResult.pte.inj hptr ▸ Or.inr (installLeaf_fresh hg2)⟩,
            fun hn => (by cases hn), hfree1.symm ▸ le_rfl⟩
        · rename_i h2
          have heq := @set_eq_installLeaf pt _ va ⟨p, pt64Index va 1⟩ hz1 hg1
          rw [if_neg (show ¬guestLevel pt s1 va = 2 from h2)] at heq
          unfold guestPte at heq
          rw [heq]
          have h3 := installLeaf_step hpool h1 hp1 hz1 hg1 (fun hno => absurd hno h2) ha1 hw1
          exact ⟨⟨hstep1.trans h3.steps, h3.inv, h3.mmu.trans hmmu1, h3.vmcs.trans hvmcs1, h3.ok,
            fun ptr hptr => FetchResult.pte.inj hptr ▸ Or.inr (installLeaf_fresh hg1)⟩, fun hn => (by cases hn),
            hfree1.symm ▸ le_rfl⟩
      · obtain ⟨l, rfl⟩ : ∃ l, level = l + 1 := ⟨level - 1, by omega⟩
        rw [if_neg hlev1]
        cases hf : s1.freePages with
        | nil =>
          rw [kvmMmuAllocPage_nil hf]
          have hlen : s.freePages.length = 0 := by rw [← hfree1, hf, List.length_nil]
          exact ⟨⟨hstep1, ⟨lvl, h1⟩, hmmu1, hvmcs1, hf, fun ptr hptr => by cases hptr⟩, fun _ => by omega, by omega⟩
        | cons q rest =>
          have hzq : ∀ i, s1.shadow q i = 0 := h1.tables.free_zero q (hf ▸ List.mem_cons_self)
          rw [kvmMmuAllocPage_cons hf hzq]
          dsimp only
          have hq : q ≠ p := by
            rintro rfl
            exact h.tables.not_free_of_active hact (hfree1 ▸ hf ▸ List.mem_cons_self)
          have hstep2 : FaultStep pt va s1 _ := .link hp1 hz1 hf hg1 ha1
          have hsame2 := hstep2.sameGuest h1 hpool
          obtain ⟨h0, haddr, -⟩ := @hasBit_linkFlags pt s1 (l + 2) _ hg1
          have h2 := h1.linkPage hp1 hz1 hf h0 haddr
          have hentry := linkPage_readPte s1 ⟨p, pt64Index va (l + 2)⟩ q rest h0 haddr
          have hp2 := @onPath_linkPage _ va ⟨p, pt64Index va (l + 2)⟩ hz1 q rest (linkFlags pt s1 (l + 2)
            (guestPte pt s1 va (guestLevelFor pt (l + 2)))) _ _ hp1
          have hnew := (congrArg (OnPath _ va (l + 1)) hentry.2).mp (.down hp2 hentry.1)
          obtain ⟨hspec, hpages, htaken⟩ := @ih _ _ _ _ (some ⟨p, pt64Index va (l + 2)⟩) h2 (hmmu1 ▸ hfor) hnew
            ((hw1.sameGuest hsame2).mono (guestLevelFor_mono pt (Nat.le_succ _))) fun hl => by
              obtain rfl : l = 0 := by omega
              exact ⟨p, rfl, hp2, hentry.1⟩
          have hlink : FetchStep pt va s1 _ := .of_empty hstep2 hz1 rfl
          refine ⟨⟨hstep1.trans ((ReflTransGen.single hlink).trans hspec.steps), hspec.inv, hspec.mmu.trans hmmu1,
            hspec.vmcs.trans hvmcs1, hspec.ok, fun ptr hptr => Or.inr ?_⟩, fun hn => ?_, ?_⟩
          · exact (hspec.found ptr hptr).resolve_left (hspec.ne_of_empty hnew
              (fun i => (Vcpu.shadow_writePte_of_page_ne i hq).trans (hzq i)) ptr hptr)
          · have hrest : rest.length + 1 < l + 1 := hpages hn
            rw [← hfree1, hf, List.length_cons]
            omega
          · rw [← hfree1, hf, List.length_cons]
            exact Nat.succ_le_succ htaken
    · cases level with
      | zero =>
        rw [fetchLoop_hit (((h.tables.leaf p hact hlev _).resolve_left hz).imp_right And.left)]
        exact ⟨⟨.refl, ⟨lvl, h⟩, rfl, rfl, ⟨hp, rfl, hz, guestLevelFor_one pt ▸ hw⟩, fun _ _ => Or.inl rfl⟩,
          fun hn => (by cases hn), le_rfl⟩
      | succ level =>
        have hpres := (h.tables.upper p hact (by omega) _).resolve_left hz
        rw [fetchLoop_down hpres]
        obtain ⟨hspec, hpages, htaken⟩ := @ih _ _ _ _ (some ⟨p, pt64Index va (level + 2)⟩) h hfor (.down hp hpres)
          (hw.mono (guestLevelFor_mono pt (Nat.le_succ _))) fun hl => by
            obtain rfl : level = 0 := by omega
            exact ⟨p, rfl, hp, hpres⟩
        exact ⟨hspec, fun hn => (hpages hn).trans (Nat.lt_succ_self _), htaken.trans (Nat.le_succ _)⟩

/-- `fetch` for a whole walk. -/
theorem fetch_spec (hpool : pool ≠ []) (h : MmuInv pool lvl r s) (hfor : s.mmu.IsFor pt) :
    FetchSpec pool r pt va s (fetch pt s va (initWalker s)) ∧
      ((fetch pt s va (initWalker s)).2.2 = .enomem → s.freePages.length < 3) ∧
      s.freePages.length ≤ (fetch pt s va (initWalker s)).1.freePages.length + 3 := by
  have hpos : 1 ≤ s.mmu.shadowRootLevel := by
    have := h.levels.shadowRootLevel
    omega
  unfold fetch
  rw [h.rootPage_eq]
  obtain ⟨hspec, hpages, htaken⟩ := @fetchLoop_spec pool r pt va hpool _ s lvl (initWalker s) _ none h hfor (.root h.root)
    (.init s va (hfor.guestLevelFor_le hpos le_rfl).2) fun hl => by
      have := h.levels.shadowRootLevel
      omega
  have hlev := h.levels.shadowRootLevel
  refine ⟨hspec, fun hn => ?_, by omega⟩
  have := hpages hn
  omega

/-- `fetch` returns an entry that is there. -/
theorem fetchLoop_complete (h : MmuInv pool lvl r s) {p : Pfn} (hp : OnPath s va 1 p)
    (hne : s.shadow p (pt64Index va 1) ≠ 0) {level : Nat} {walker : GuestWalker} {q : Pfn} {prev : Option PtePtr}
    (hq : OnPath s va level q) :
    fetchLoop pt va level s walker q prev = (s, walker, .pte ⟨p, pt64Index va 1⟩) := by
  induction level using Nat.strong_induction_on generalizing q prev with
  | _ level ih =>
    match level, h.pos_of_onPath hq with
    | 1, _ =>
      obtain rfl := hq.page_unique hp
      obtain ⟨hact, hlev⟩ := h.active_of_onPath hp
      exact fetchLoop_hit (((h.tables.leaf q hact hlev _).resolve_left hne).imp_right And.left)
    | level + 2, _ =>
      obtain ⟨x, hx, hpres⟩ := hp.above (level + 2) (by omega) hq.level_le
      obtain rfl := hx.page_unique hq
      rw [fetchLoop_down (hpres (by omega))]
      exact ih (level + 1) (by omega) (.down hx (hpres (by omega)))

/-! ### Starting over with an empty tree -/

/-- What holds after the lookup in `page_fault`. -/
structure LookupSpec (pool : List Pfn) (pt : PtType) (va : BitVec 64) (s s' : Vcpu) (walker : GuestWalker)
    (shadowPte : Option PtePtr) : Prop where
  steps : ReflTransGen (FetchStep pt va) s s'
  inv : ∃ lvl r, MmuInv pool lvl r s'
  isFor : s'.mmu.IsFor pt
  vmcs : ∀ f, f ≠ .guestCr3 → s'.vmcs f = s.vmcs f
  ok : FetchOk pt va s' walker (shadowPte.elim .null .pte)
  /-- The entry was there, or it has just been installed. -/
  found : ∀ ptr, shadowPte = some ptr → s' = s ∨ (s'.readPte ptr).hasBit 2 = (s'.readPte ptr).hasBit 11

theorem fetchRetry_spec (hpool : pool ≠ []) {fuel : Nat} {walker : GuestWalker} {shadowPte : Option PtePtr}
    (h : MmuInv pool lvl r s) (hfor : s.mmu.IsFor pt)
    (hs : fetchRetry pt va fuel s = some (s', walker, shadowPte)) :
    LookupSpec pool pt va s s' walker shadowPte := by
  induction fuel generalizing s lvl r with
  | zero => cases hs
  | succ fuel ih =>
    have hfetch := (@fetch_spec _ _ _ _ _ va hpool h hfor).1
    unfold fetchRetry at hs
    generalize fetch pt s va (initWalker s) = out at hs hfetch
    obtain ⟨s1, w1, res⟩ := out
    obtain ⟨hsteps, ⟨lvl1, h1⟩, hmmu1, hvmcs1, hok, hfound⟩ := hfetch
    dsimp only at hsteps h1 hmmu1 hvmcs1 hok hfound hs
    cases res with
    | enomem =>
      obtain ⟨lvl2, q, h2, hnew, hmmu2⟩ := nonpagingFlush_spec h1 hpool
      have hfor2 : (nonpagingFlush s1).mmu.IsFor pt := by
        rw [hmmu2, hmmu1]
        exact hfor
      have hrest := ih h2 hfor2 hs
      have hflush : FetchStep pt va s1 (nonpagingFlush s1) := by
        refine ⟨.flush, fun p i _ j _ hj => ?_⟩
        rcases h1.nonpagingFlush_shadow p i with heq | heq
        · rwa [heq] at hj
        · rw [heq] at hj
          exact absurd hj (by simp)
      refine ⟨hsteps.trans ((ReflTransGen.single hflush).trans hrest.steps), hrest.inv, hrest.isFor,
        fun f hf => (hrest.vmcs f hf).trans ((hnew.vmcs f hf).trans (by rw [hvmcs1])), hrest.ok,
        fun ptr hptr => Or.inr ((hrest.found ptr hptr).resolve_left fun hsame => ?_)⟩
      -- the tree is empty after the flush
      have hok := hrest.ok
      rw [hptr, hsame] at hok
      have := (hnew.onPath hok.1).1
      have := h2.levels.shadowRootLevel
      omega
    | null =>
      simp only [Option.some.injEq, Prod.mk.injEq] at hs
      obtain ⟨rfl, rfl, rfl⟩ := hs
      exact ⟨hsteps, ⟨lvl1, r, h1⟩, hmmu1 ▸ hfor, fun _ _ => by rw [hvmcs1], hok, fun ptr hptr => by cases hptr⟩
    | pte ptr =>
      simp only [Option.some.injEq, Prod.mk.injEq] at hs
      obtain ⟨rfl, rfl, rfl⟩ := hs
      exact ⟨hsteps, ⟨lvl1, r, h1⟩, hmmu1 ▸ hfor, fun _ _ => by rw [hvmcs1], hok,
        fun ptr' hptr => hfound ptr' (congrArg FetchResult.pte (Option.some.inj hptr))⟩

/-- The lookup returns an entry that is there. -/
theorem fetchRetry_complete (h : MmuInv pool lvl r s) {p : Pfn} (hp : OnPath s va 1 p)
    (hne : s.shadow p (pt64Index va 1) ≠ 0) {fuel : Nat} {walker : GuestWalker} {shadowPte : Option PtePtr}
    (hs : fetchRetry pt va fuel s = some (s', walker, shadowPte)) :
    s' = s ∧ shadowPte = some ⟨p, pt64Index va 1⟩ := by
  cases fuel with
  | zero => cases hs
  | succ fuel =>
    unfold fetchRetry fetch at hs
    rw [h.rootPage_eq, fetchLoop_complete h hp hne (.root h.root)] at hs
    simp only [Option.some.injEq, Prod.mk.injEq] at hs
    exact ⟨hs.1.symm, hs.2.2.symm⟩

/-- The second attempt finds enough pages. -/
theorem fetchRetry_isSome (hpool : 4 ≤ pool.length) (fuel : Nat) (h : MmuInv pool lvl r s) (hfor : s.mmu.IsFor pt) :
    (fetchRetry pt va (fuel + 2) s).isSome = true := by
  have hne : pool ≠ [] := List.ne_nil_of_length_pos (by omega)
  have hround : ∀ (fuel : Nat) {s : Vcpu} {lvl : Pfn → Nat} {r : Pfn}, MmuInv pool lvl r s → s.mmu.IsFor pt →
      3 ≤ s.freePages.length → (fetchRetry pt va (fuel + 1) s).isSome = true := by
    intro fuel s lvl r h hfor hlen
    have hfetch := (@fetch_spec _ _ _ _ _ va hne h hfor).2.1
    unfold fetchRetry
    generalize fetch pt s va (initWalker s) = out at hfetch
    obtain ⟨s1, w1, res⟩ := out
    cases res with
    | enomem =>
      have := hfetch rfl
      omega
    | null => rfl
    | pte => rfl
  have hfetch := @fetch_spec _ _ _ _ _ va hne h hfor
  unfold fetchRetry
  generalize fetch pt s va (initWalker s) = out at hfetch
  obtain ⟨s1, w1, res⟩ := out
  obtain ⟨⟨-, ⟨lvl1, h1⟩, hmmu1, -, -, -⟩, -⟩ := hfetch
  dsimp only at h1 hmmu1
  cases res with
  | enomem =>
    obtain ⟨lvl2, q, h2, h3, hmmu2⟩ := nonpagingFlush_spec h1 hne
    have hlen := h3.length
    exact hround fuel h2 (by rw [hmmu2, hmmu1]; exact hfor) (by omega)
  | null => rfl
  | pte => rfl

/-! ### Updating the entry -/

/-- The writes that `fix_write_pf` lets through. -/
def mayFix (s : Vcpu) (e : BitVec 64) (user : Bool) : Bool :=
  !e.hasBit 1 && (if user then e.hasBit 11 && e.hasBit 10 else e.hasBit 10 || !isWriteProtection s.vmcs)

theorem writePte_writePte (s : Vcpu) (ptr : PtePtr) (e e' : BitVec 64) :
    (s.writePte ptr e).writePte ptr e' = s.writePte ptr e' := by
  unfold Vcpu.writePte
  congr 1
  funext p i
  dsimp only
  split <;> rfl

/-- What `fix_write_pf` does. -/
theorem fixWritePf_eq {walker : GuestWalker} (hw : WalkerAt pt s walker va 1) (ptr : PtePtr) (user : Bool) :
    ((fixWritePf pt s ptr walker va user).1, (fixWritePf pt s ptr walker va user).2.2) =
      if mayFix s (s.readPte ptr) user then
        if (guestPte pt s va 1).hasBit 0 then (dirtyLeaf pt s va ptr, true) else (s.writePte ptr 0, false)
      else (s, false) := by
  -- the entry is given back to the supervisor first, which the walk does not see
  have hdirty : ∀ e, e = (if (s.readPte ptr).hasBit 10 then s.readPte ptr else s.readPte ptr &&& ~~~ptUserMask) →
      ((fixWritePfDirty pt (s.writePte ptr e) ptr walker va).1, (fixWritePfDirty pt (s.writePte ptr e) ptr walker va).2.2) =
        if (guestPte pt s va 1).hasBit 0 then (dirtyLeaf pt s va ptr, true) else (s.writePte ptr 0, false) := by
    intro e he
    have hsame : SameGuest pt s (s.writePte ptr e) := .of_eq rfl rfl rfl (fun _ => rfl) rfl fun _ _ => rfl
    obtain ⟨h1, -, -⟩ := (hw.sameGuest hsame).guestEnt
    unfold fixWritePfDirty
    generalize fetchGuest pt (s.writePte ptr e) walker 1 va = out at h1
    obtain ⟨w1, ent⟩ := out
    dsimp only at h1 ⊢
    rw [h1, hsame.guestWalk_eq]
    rw [show readEntry pt (s.writePte ptr e) (guestWalk pt s va 1).2 = guestPte pt s va 1 from rfl, isPresentPte_eq]
    cases (guestPte pt s va 1).hasBit 0 with
    | false => simp [writePte_writePte]
    | true =>
      have hentry : ∀ kvm : Kvm, ({ s.writePte ptr e with kvm := kvm } : Vcpu).writePte ptr
          (({ s.writePte ptr e with kvm := kvm } : Vcpu).readPte ptr ||| ptWritableMask) =
          { s.writePte ptr (dirtyPte (s.readPte ptr)) with kvm := kvm } := by
        intro kvm
        rw [show ({ s.writePte ptr e with kvm := kvm } : Vcpu).readPte ptr = e from Vcpu.readPte_writePte_self s ptr e]
        show { (s.writePte ptr e).writePte ptr (e ||| ptWritableMask) with kvm := kvm } = _
        rw [writePte_writePte, he]
        rfl
      exact Prod.ext (congrArg (fun x => orEntry pt x (guestWalk pt s va 1).2 ptDirtyMask) (hentry _)) rfl
  have hself : ∀ e, e = s.readPte ptr → s.writePte ptr e = s := by
    rintro e rfl
    unfold Vcpu.writePte
    congr 1
    funext p i
    split
    · rename_i h
      rw [h.1, h.2]
      rfl
    · rfl
  unfold fixWritePf mayFix
  dsimp only
  rw [isWriteblePte_eq, and_ptShadowWritableMask, and_ptShadowUserMask]
  cases h1 : (s.readPte ptr).hasBit 1
  · cases h10 : (s.readPte ptr).hasBit 10
    · have h := hdirty (s.readPte ptr &&& ~~~ptUserMask) (by simp [h10])
      cases user
      · cases isWriteProtection s.vmcs <;> simp_all
      · simp
    · have h := hdirty (s.readPte ptr) (by simp [h10])
      rw [hself _ rfl] at h
      cases user
      · simpa using h
      · cases (s.readPte ptr).hasBit 11 <;> simp_all
  · simp

/-- What `fix_read_pf` does. -/
theorem fixReadPf_eq (s : Vcpu) (ptr : PtePtr) :
    fixReadPf s ptr =
      if (s.readPte ptr).hasBit 11 && !(s.readPte ptr).hasBit 2 then (s.writePte ptr (userPte (s.readPte ptr)), true)
      else (s, false) := by
  unfold fixReadPf
  dsimp only
  rw [and_ptShadowUserMask, and_ptUserMask]
  rfl

variable (pt) in
/-- The update of the entry in `page_fault`: the new state, and whether the fault is fixed. -/
def fixPf (s : Vcpu) (va : BitVec 64) (ptr : PtePtr) (write user : Bool) : Vcpu × Bool :=
  if write then
    if mayFix s (s.readPte ptr) user then
      if (guestPte pt s va 1).hasBit 0 then (dirtyLeaf pt s va ptr, true) else (s.writePte ptr 0, false)
    else (s, false)
  else if (s.readPte ptr).hasBit 11 && !(s.readPte ptr).hasBit 2 then
    (s.writePte ptr (userPte (s.readPte ptr)), true)
  else (s, false)

/-- `page_fault` after the lookup has found an entry. -/
theorem pageFaultFix_eq {walker : GuestWalker} (hw : WalkerAt pt s walker va 1) (ptr : PtePtr)
    (errorCode : BitVec 32) :
    pageFaultFix pt s walker (some ptr) va errorCode =
      let fix := fixPf pt s va ptr (errorCode.hasBit 1) (errorCode.hasBit 2)
      if (fix.1.readPte ptr).hasBit 9 then
        if mayAccess (fix.1.readPte ptr) (errorCode.hasBit 1) (errorCode.hasBit 2) then (fix.1, true)
        else (injectPageFault fix.1 va (errorCode ||| pferrPresentMask), false)
      else if errorCode.hasBit 0 && !fix.2 then (injectPageFault fix.1 va errorCode, false)
      else (fix.1, false) := by
  have hbits : (errorCode &&& pferrWriteMask != 0) = errorCode.hasBit 1 ∧
      (errorCode &&& pferrPresentMask != 0) = errorCode.hasBit 0 ∧
      (errorCode &&& pferrUserMask != 0) = errorCode.hasBit 2 :=
    ⟨Bits.and_one_shiftLeft_bne_zero (by decide) _, Bits.and_one_shiftLeft_bne_zero (by decide) _,
      Bits.and_one_shiftLeft_bne_zero (by decide) _⟩
  obtain ⟨h1, h2, h3⟩ := hbits
  have hw := fixWritePf_eq hw ptr (errorCode.hasBit 2)
  unfold pageFaultFix fixPf
  simp only [h1, h2, h3, isIoPte_eq, fixReadPf_eq]
  rw [← hw]

/-- The entry that the update leaves at an address that the guest maps, and whether it fixes the fault. -/
def fixEntry (s : Vcpu) (e : BitVec 64) (write user : Bool) : BitVec 64 × Bool :=
  if write then (if mayFix s e user then (dirtyPte e, true) else (e, false))
  else if e.hasBit 11 && !e.hasBit 2 then (userPte e, true)
  else (e, false)

theorem fixEntry_ne_zero {e : BitVec 64} (he : e ≠ 0) (write user : Bool) : (fixEntry s e write user).1 ≠ 0 := by
  unfold fixEntry
  split
  · split
    · exact BitVec.ne_zero_of_hasBit (i := 1) (by simp)
    · exact he
  · split
    · exact BitVec.ne_zero_of_hasBit (i := 2) (by simp)
    · exact he

theorem shadow_writePte_readPte (s : Vcpu) (ptr : PtePtr) : (s.writePte ptr (s.readPte ptr)).shadow = s.shadow := by
  funext q i
  rw [Vcpu.shadow_writePte]
  split
  · rename_i heq
    rw [heq.1, heq.2]
    rfl
  · rfl

/-- At an address that the guest maps the update writes the entry and nothing else of the shadow tables. -/
theorem fixPf_eq (hg : (guestPte pt s va 1).hasBit 0 = true) (ptr : PtePtr) (write user : Bool) :
    (fixPf pt s va ptr write user).1.shadow = (s.writePte ptr (fixEntry s (s.readPte ptr) write user).1).shadow ∧
      (fixPf pt s va ptr write user).2 = (fixEntry s (s.readPte ptr) write user).2 ∧
      (fixPf pt s va ptr write user).1.mmu = s.mmu ∧ (fixPf pt s va ptr write user).1.vmcs = s.vmcs := by
  unfold fixPf fixEntry
  rw [hg]
  split
  · split
    · exact ⟨rfl, rfl, rfl, rfl⟩
    · exact ⟨(shadow_writePte_readPte s ptr).symm, rfl, rfl, rfl⟩
  · split
    · exact ⟨rfl, rfl, rfl, rfl⟩
    · exact ⟨(shadow_writePte_readPte s ptr).symm, rfl, rfl, rfl⟩

/-- The update of the entry is a step. -/
theorem fixPf_steps {p : Pfn} (h : MmuInv pool lvl r s) (hp : OnPath s va 1 p)
    (hne : s.readPte ⟨p, pt64Index va 1⟩ ≠ 0) (write user : Bool) :
    ReflTransGen (FaultStep pt va) s (fixPf pt s va ⟨p, pt64Index va 1⟩ write user).1 := by
  obtain ⟨hact, hlev⟩ := h.active_of_onPath hp
  have hleaf := h.tables.leaf p hact hlev (pt64Index va 1)
  unfold fixPf
  split
  · split
    · rename_i hfix
      unfold mayFix at hfix
      rw [Bool.and_eq_true, Bool.not_eq_true'] at hfix
      have hperm : (s.shadow p (pt64Index va 1)).hasBit 10 = true ∨ isWriteProtection s.vmcs = false := by
        have := hfix.2
        simp only [Vcpu.readPte] at this
        split at this
        · rw [Bool.and_eq_true] at this
          exact Or.inl this.2
        · simpa using this
      split
      · rename_i hg
        exact .single (.dirty hp hleaf hne hfix.1 hperm hg)
      · rename_i hg
        exact .single (.zap hp (Bool.eq_false_iff.2 hg))
    · exact .refl
  · split
    · rename_i hfix
      rw [Bool.and_eq_true, Bool.not_eq_true'] at hfix
      exact .single (.user hp hleaf hfix.1 hfix.2)
    · exact .refl

theorem pageFaultFix_steps {walker : GuestWalker} {shadowPte : Option PtePtr} (h : MmuInv pool lvl r s)
    (hok : FetchOk pt va s walker (shadowPte.elim .null .pte)) (errorCode : BitVec 32) :
    ReflTransGen (FaultStep pt va) s (pageFaultFix pt s walker shadowPte va errorCode).1 := by
  cases shadowPte with
  | none => exact .single (.inject errorCode)
  | some ptr =>
    obtain ⟨p, i⟩ := ptr
    obtain ⟨hp, rfl, hne, hw⟩ := hok
    have hsteps := @fixPf_steps pool lvl r s pt va p h hp hne (errorCode.hasBit 1) (errorCode.hasBit 2)
    rw [pageFaultFix_eq hw]
    dsimp only
    split
    · split
      · exact hsteps
      · exact hsteps.tail (.inject _)
    · split
      · exact hsteps.tail (.inject _)
      · exact hsteps

/-- A call of `page_fault` is a sequence of steps. -/
theorem pageFault_steps (hpool : pool ≠ []) (h : MmuInv pool lvl r s) (hfor : s.mmu.IsFor pt) {errorCode : BitVec 32}
    {fuel : Nat} {out : Vcpu × Bool} (hs : pageFault pt s va errorCode fuel = some out) :
    ReflTransGen (FaultStep pt va) s out.1 := by
  unfold pageFault at hs
  cases hf : fetchRetry pt va fuel s with
  | none =>
    rw [hf] at hs
    cases hs
  | some res =>
    obtain ⟨s1, walker, shadowPte⟩ := res
    rw [hf] at hs
    have hl := fetchRetry_spec hpool h hfor hf
    obtain ⟨lvl1, r1, h1⟩ := hl.inv
    obtain rfl := Option.some.inj hs
    exact (FetchStep.faultSteps hl.steps).trans (pageFaultFix_steps h1 hl.ok errorCode)

theorem pageFault_isSome (hpool : 4 ≤ pool.length) (fuel : Nat) (h : MmuInv pool lvl r s) (hfor : s.mmu.IsFor pt)
    (errorCode : BitVec 32) : (pageFault pt s va errorCode (fuel + 2)).isSome = true := by
  have := @fetchRetry_isSome _ _ _ _ _ va hpool fuel h hfor
  unfold pageFault
  cases hf : fetchRetry pt va (fuel + 2) s with
  | none =>
    rw [hf] at this
    cases this
  | some res => rfl

/-- An invariant of the steps is an invariant of runs. -/
theorem FaultStep.run {P : Vcpu → Prop} (hpool : pool ≠ [])
    (hP : ∀ {s s' : Vcpu} {lvl : Pfn → Nat} {r : Pfn}, MmuInv pool lvl r s → P s → FaultStep pt va s s' → P s')
    (h : MmuInv pool lvl r s) (hs : P s) (hrun : ReflTransGen (FaultStep pt va) s s') :
    (∃ lvl' r', MmuInv pool lvl' r' s') ∧ P s' := by
  induction hrun with
  | refl => exact ⟨⟨lvl, r, h⟩, hs⟩
  | tail _ hstep ih =>
    obtain ⟨⟨lvl', r', h'⟩, hP'⟩ := ih
    exact ⟨hstep.inv h' hpool, hP h' hP' hstep⟩

theorem FaultStep.run_sameGuest (hpool : pool ≠ []) (h : MmuInv pool lvl r s)
    (hrun : ReflTransGen (FaultStep pt va) s s') :
    (∃ lvl' r', MmuInv pool lvl' r' s') ∧ SameGuest pt s s' :=
  FaultStep.run (P := SameGuest pt s) hpool (fun h' hs hstep => hs.trans (hstep.sameGuest h' hpool)) h (.refl s) hrun

/-- After a fault at an address that the guest maps there is an entry for it. -/
theorem pageFault_found (hpool : pool ≠ []) (h : MmuInv pool lvl r s) (hfor : s.mmu.IsFor pt)
    (hg : (guestPte pt s va 1).hasBit 0 = true) {errorCode : BitVec 32} {fuel : Nat} {out : Vcpu × Bool}
    (hs : pageFault pt s va errorCode fuel = some out) :
    ∃ p, OnPath out.1 va 1 p ∧ out.1.shadow p (pt64Index va 1) ≠ 0 := by
  unfold pageFault at hs
  cases hf : fetchRetry pt va fuel s with
  | none =>
    rw [hf] at hs
    cases hs
  | some res =>
    obtain ⟨s1, walker, shadowPte⟩ := res
    rw [hf] at hs
    obtain rfl := Option.some.inj hs
    have hl := fetchRetry_spec hpool h hfor hf
    obtain ⟨lvl1, r1, h1⟩ := hl.inv
    have hg1 : (guestPte pt s1 va 1).hasBit 0 = true :=
      ((FaultStep.run_sameGuest hpool h (FetchStep.faultSteps hl.steps)).2.guestPte_le va 1).le 0 hg
    cases shadowPte with
    | none =>
      rw [show (guestPte pt s1 va 1).hasBit 0 = false from hl.ok] at hg1
      cases hg1
    | some ptr =>
      obtain ⟨p, i⟩ := ptr
      obtain ⟨hp, rfl, hne, hw⟩ := hl.ok
      obtain ⟨hact, hlev⟩ := h1.active_of_onPath hp
      obtain ⟨hfix, -, hmmu, -⟩ := fixPf_eq hg1 ⟨p, pt64Index va 1⟩ (errorCode.hasBit 1) (errorCode.hasBit 2)
      have hnz := @fixEntry_ne_zero s1 _ hne (errorCode.hasBit 1) (errorCode.hasBit 2)
      have hout : (pageFaultFix pt s1 walker (some ⟨p, pt64Index va 1⟩) va errorCode).1.mmu = s1.mmu ∧
          (pageFaultFix pt s1 walker (some ⟨p, pt64Index va 1⟩) va errorCode).1.shadow =
            (fixPf pt s1 va ⟨p, pt64Index va 1⟩ (errorCode.hasBit 1) (errorCode.hasBit 2)).1.shadow := by
        rw [pageFaultFix_eq hw]
        dsimp only
        split
        · split
          · exact ⟨hmmu, rfl⟩
          · rw [injectPageFault_frame]
            exact ⟨hmmu, rfl⟩
        · split
          · rw [injectPageFault_frame]
            exact ⟨hmmu, rfl⟩
          · exact ⟨hmmu, rfl⟩
      obtain ⟨hmmu, hshadow⟩ := hout
      rw [hfix] at hshadow
      refine ⟨p, (OnPath.congr (by rw [hmmu]; rfl) (by rw [hmmu]; rfl) hshadow).2 ((h1.onPath_writeLeaf hlev _ _).2 hp), ?_⟩
      rw [hshadow, Vcpu.shadow_writePte, if_pos ⟨rfl, rfl⟩]
      exact hnz

end LearnKvm
