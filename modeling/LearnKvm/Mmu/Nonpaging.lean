import LearnKvm.Mmu.PageFault

/-!
# The non-paging fault handler as a sequence of steps

`nonpaging_map` links pages down to level one and writes the entry; `NonpagingStep` lists what it and the loop around it
do, as `FaultStep` does for the paging contexts.
-/

namespace LearnKvm

open Relation

variable {pool : List Pfn} {lvl : Pfn → Nat} {r : Pfn} {s s' : Vcpu} {v hpa : BitVec 64}

/-- The flags of a link at a level. -/
def nonpagingLinkFlags (level : Nat) : BitVec 64 :=
  if level = 3 then ptPresentMask else ptPresentMask ||| ptWritableMask ||| ptUserMask

/-- The state after `nonpaging_map` has written the entry of `v`. -/
def nonpagingLeaf (s : Vcpu) (v hpa : BitVec 64) (table : Pfn) : Vcpu :=
  (pageHeaderUpdateSlot { s with kvm := markPageDirty s.kvm (gfnOf v) } table v).writePte ⟨table, pt64Index v 1⟩
    (hpa ||| ptPresentMask ||| ptWritableMask ||| ptUserMask)

inductive NonpagingStep (v hpa : BitVec 64) : Vcpu → Vcpu → Prop
  | link {s : Vcpu} {l : Nat} {p q : Pfn} {rest : List Pfn} (hp : OnPath s v (l + 2) p)
      (hz : s.shadow p (pt64Index v (l + 2)) = 0) (hf : s.freePages = q :: rest) :
      NonpagingStep v hpa s (s.linkPage ⟨p, pt64Index v (l + 2)⟩ q rest (nonpagingLinkFlags (l + 2)))
  | leaf {s : Vcpu} {p : Pfn} (hp : OnPath s v 1 p) : NonpagingStep v hpa s (nonpagingLeaf s v hpa p)
  | flush {s : Vcpu} : NonpagingStep v hpa s (nonpagingFlush s)

theorem hasBit_nonpagingLinkFlags (level i : Nat) :
    (nonpagingLinkFlags level).hasBit i = (decide (i = 0) || decide (level ≠ 3) && decide (i = 1 ∨ i = 2)) := by
  unfold nonpagingLinkFlags
  split <;> rename_i h <;> simp [h, Bool.or_assoc]

theorem pageHeaderUpdateSlot_frame (s : Vcpu) (page : Pfn) (gpa : BitVec 64) :
    pageHeaderUpdateSlot s page gpa = { s with header := (pageHeaderUpdateSlot s page gpa).header } ∧
      ∀ p, ((pageHeaderUpdateSlot s page gpa).header p).parentPte = (s.header p).parentPte ∧
        ((pageHeaderUpdateSlot s page gpa).header p).global = (s.header p).global := by
  unfold pageHeaderUpdateSlot
  split
  · exact ⟨rfl, fun _ => ⟨rfl, rfl⟩⟩
  · refine ⟨rfl, fun p => ?_⟩
    dsimp only
    split <;> exact ⟨rfl, rfl⟩

theorem NonpagingStep.inv (h : MmuInv pool lvl r s) (hpool : pool ≠ [])
    (hs : NonpagingStep v hpa s s') : ∃ lvl' r', MmuInv pool lvl' r' s' := by
  cases hs with
  | link hp hz hf =>
    refine ⟨_, r, h.linkPage hp hz hf (by simp [hasBit_nonpagingLinkFlags]) fun i h12 _ => ?_⟩
    simp [hasBit_nonpagingLinkFlags]
    omega
  | @leaf p hp =>
    have hentry : LeafEntry (hpa ||| ptPresentMask ||| ptWritableMask ||| ptUserMask) := Or.inr (Or.inl (by simp))
    have h1 := h.writeLeaf hp (pt64Index v 1) hentry
    obtain ⟨hframe, hheader⟩ :=
      pageHeaderUpdateSlot_frame { s with kvm := markPageDirty s.kvm (gfnOf v) } p v
    unfold nonpagingLeaf
    rw [hframe]
    refine ⟨lvl, r, h1.congr rfl ?_ rfl (fun q => (hheader q).1) (fun q _ hg => Or.inl ?_) rfl rfl⟩
    · show (markPageDirty s.kvm (gfnOf v)).activeMmuPages = _
      rw [markPageDirty_frame]
      rfl
    · exact ((hheader q).2).symm.trans hg
  | flush =>
    obtain ⟨lvl', q, h1, -, -⟩ := nonpagingFlush_spec h hpool
    exact ⟨lvl', q, h1⟩

/-- The steps do not touch the memory slots. -/
theorem NonpagingStep.slots (h : MmuInv pool lvl r s) (hpool : pool ≠ []) (hs : NonpagingStep v hpa s s') :
    s'.kvm.nmemslots = s.kvm.nmemslots ∧ s'.kvm.memslots = s.kvm.memslots ∧ s'.kvm.pageArray = s.kvm.pageArray := by
  cases hs with
  | link => exact ⟨rfl, rfl, rfl⟩
  | @leaf p =>
    obtain ⟨hframe, -⟩ := pageHeaderUpdateSlot_frame { s with kvm := markPageDirty s.kvm (gfnOf v) } p v
    unfold nonpagingLeaf
    rw [hframe]
    show (markPageDirty s.kvm (gfnOf v)).nmemslots = _ ∧ (markPageDirty s.kvm (gfnOf v)).memslots = _ ∧
      (markPageDirty s.kvm (gfnOf v)).pageArray = _
    rw [markPageDirty_frame]
    exact ⟨rfl, rfl, rfl⟩
  | flush =>
    obtain ⟨lvl', q, -, h1, -⟩ := nonpagingFlush_spec h hpool
    rw [h1.kvm]
    exact ⟨rfl, rfl, rfl⟩

theorem NonpagingStep.run {P : Vcpu → Prop} (hpool : pool ≠ [])
    (hP : ∀ {s s' : Vcpu} {lvl : Pfn → Nat} {r : Pfn}, MmuInv pool lvl r s → P s → NonpagingStep v hpa s s' → P s')
    (h : MmuInv pool lvl r s) (hs : P s) (hrun : ReflTransGen (NonpagingStep v hpa) s s') :
    (∃ lvl' r', MmuInv pool lvl' r' s') ∧ P s' := by
  induction hrun with
  | refl => exact ⟨⟨lvl, r, h⟩, hs⟩
  | tail _ hstep ih =>
    obtain ⟨⟨lvl', r', h'⟩, hP'⟩ := ih
    exact ⟨hstep.inv h' hpool, hP h' hP' hstep⟩

/-- Above level one a page is linked at an empty entry. -/
theorem nonpagingMap_link {level : Nat} {p q : Pfn} {rest : List Pfn} (hz : s.shadow p (pt64Index v (level + 2)) = 0)
    (hf : s.freePages = q :: rest) (hzq : ∀ i, s.shadow q i = 0) :
    nonpagingMap v hpa (level + 2) s p = nonpagingMap v hpa (level + 1)
      (s.linkPage ⟨p, pt64Index v (level + 2)⟩ q rest (nonpagingLinkFlags (level + 2)))
      (frameOf ((s.linkPage ⟨p, pt64Index v (level + 2)⟩ q rest (nonpagingLinkFlags (level + 2))).shadow p
        (pt64Index v (level + 2)))) := by
  have hflags : (if level + 2 = 3 then hpaOf q ||| ptPresentMask
      else hpaOf q ||| ptPresentMask ||| ptWritableMask ||| ptUserMask) = hpaOf q ||| nonpagingLinkFlags (level + 2) := by
    unfold nonpagingLinkFlags
    split
    · rfl
    · rw [BitVec.or_assoc, BitVec.or_assoc, BitVec.or_assoc]
  conv_lhs => unfold nonpagingMap
  dsimp only
  rw [if_pos (show s.readPte ⟨p, pt64Index v (level + 2)⟩ = 0 from hz), kvmMmuAllocPage_cons hf hzq]
  dsimp only
  rw [hflags]
  rfl

/-- An entry that is not empty is followed. -/
theorem nonpagingMap_down {level : Nat} {p : Pfn} (hz : s.shadow p (pt64Index v (level + 2)) ≠ 0) :
    nonpagingMap v hpa (level + 2) s p = nonpagingMap v hpa (level + 1) s (frameOf (s.shadow p (pt64Index v (level + 2)))) := by
  conv_lhs => unfold nonpagingMap
  dsimp only
  rw [if_neg (show ¬s.readPte ⟨p, pt64Index v (level + 2)⟩ = 0 from hz)]
  rfl

/-- `nonpaging_map` is a sequence of steps; it fails only if there are fewer free pages than levels below the root, and
takes no more pages than that. -/
theorem nonpagingMap_spec (v hpa : BitVec 64) (hpool : pool ≠ []) {level : Nat} {s : Vcpu} {lvl : Pfn → Nat} {p : Pfn}
    (h : MmuInv pool lvl r s) (hp : OnPath s v level p) :
    ReflTransGen (NonpagingStep v hpa) s (nonpagingMap v hpa level s p).1 ∧
      (∃ lvl', MmuInv pool lvl' r (nonpagingMap v hpa level s p).1) ∧
      (nonpagingMap v hpa level s p).1.mmu = s.mmu ∧
      ((nonpagingMap v hpa level s p).2 = false → s.freePages.length + 1 < level) ∧
      s.freePages.length + 1 ≤ (nonpagingMap v hpa level s p).1.freePages.length + level := by
  induction level using Nat.strong_induction_on generalizing s lvl p with
  | _ level ih =>
    obtain ⟨hact, hlev⟩ := h.active_of_onPath hp
    match level, h.pos_of_onPath hp with
    | 1, _ =>
      have hstep : NonpagingStep v hpa s (nonpagingLeaf s v hpa p) := .leaf hp
      obtain ⟨lvl', r', h'⟩ := hstep.inv h hpool
      obtain ⟨hframe, -⟩ := pageHeaderUpdateSlot_frame { s with kvm := markPageDirty s.kvm (gfnOf v) } p v
      have hmmu : (nonpagingLeaf s v hpa p).mmu = s.mmu := by
        unfold nonpagingLeaf
        rw [hframe]
        rfl
      have hr : r' = r := Option.some.inj ((h'.root.symm.trans (by rw [hmmu])).trans h.root)
      have hfree : (nonpagingLeaf s v hpa p).freePages = s.freePages := by
        unfold nonpagingLeaf
        rw [hframe]
        rfl
      exact ⟨.single hstep, ⟨lvl', hr ▸ h'⟩, hmmu, fun hn => (by cases hn), hfree.symm ▸ le_rfl⟩
    | level + 2, _ =>
      by_cases hz : s.shadow p (pt64Index v (level + 2)) = 0
      · cases hf : s.freePages with
        | nil =>
          have heq : nonpagingMap v hpa (level + 2) s p = (s, false) := by
            unfold nonpagingMap
            simp [Vcpu.readPte, hz, kvmMmuAllocPage_nil hf]
          rw [heq]
          exact ⟨.refl, ⟨lvl, h⟩, rfl, fun _ => by simp, by simp [hf]⟩
        | cons q rest =>
          have hzq : ∀ i, s.shadow q i = 0 := h.tables.free_zero q (hf ▸ List.mem_cons_self)
          have h0 : (nonpagingLinkFlags (level + 2)).hasBit 0 = true := by simp [hasBit_nonpagingLinkFlags]
          have haddr : ∀ i, 12 ≤ i → i < 52 → (nonpagingLinkFlags (level + 2)).hasBit i = false := fun i h12 _ => by
            simp [hasBit_nonpagingLinkFlags]
            omega
          have hstep : NonpagingStep v hpa s _ := .link hp hz hf
          have h1 := h.linkPage hp hz hf h0 haddr
          have hentry := linkPage_readPte s ⟨p, pt64Index v (level + 2)⟩ q rest h0 haddr
          have hp1 := @onPath_linkPage _ v ⟨p, pt64Index v (level + 2)⟩ hz q rest (nonpagingLinkFlags (level + 2)) _ _ hp
          rw [nonpagingMap_link hz hf hzq]
          obtain ⟨h2, h3, h4, h5, h6⟩ := ih (level + 1) (by omega) h1 (.down hp1 hentry.1)
          refine ⟨(ReflTransGen.single hstep).trans h2, h3, h4, fun hn => ?_, ?_⟩
          · have : rest.length + 1 < level + 1 := h5 hn
            rw [List.length_cons]
            omega
          · rw [List.length_cons]
            exact Nat.succ_le_succ h6
      · have hpres := (h.tables.upper p hact (by omega) _).resolve_left hz
        rw [nonpagingMap_down hz]
        obtain ⟨h2, h3, h4, h5, h6⟩ := ih (level + 1) (by omega) h (.down hp hpres)
        exact ⟨h2, h3, h4, fun hn => (h5 hn).trans (Nat.lt_succ_self _), h6.trans (Nat.le_succ _)⟩

/-- Marking a page does not depend on the list of shadow pages. -/
theorem markPageDirty_active (kvm : Kvm) (gfn : Nat) (pages pages' : List Pfn) :
    { markPageDirty { kvm with activeMmuPages := pages } gfn with activeMmuPages := pages' } =
      { markPageDirty kvm gfn with activeMmuPages := pages' } := by
  have hslot : gfnToMemslot { kvm with activeMmuPages := pages } gfn = gfnToMemslot kvm gfn := rfl
  unfold markPageDirty
  rw [hslot]
  split
  · rfl
  · dsimp only
    split
    · rfl
    · split <;> rfl

/-- When it succeeds the page is marked dirty and mapped; otherwise nothing is marked. -/
theorem nonpagingMap_maps (v hpa : BitVec 64) {level : Nat} {s : Vcpu} {lvl : Pfn → Nat} {p : Pfn} (h : MmuInv pool lvl r s)
    (hp : OnPath s v level p) :
    (∃ pages, (nonpagingMap v hpa level s p).1.kvm =
      { (if (nonpagingMap v hpa level s p).2 then markPageDirty s.kvm (gfnOf v) else s.kvm) with activeMmuPages := pages }) ∧
      ((nonpagingMap v hpa level s p).2 = true → ∃ q, OnPath (nonpagingMap v hpa level s p).1 v 1 q ∧
        (nonpagingMap v hpa level s p).1.shadow q (pt64Index v 1) = hpa ||| ptPresentMask ||| ptWritableMask ||| ptUserMask) := by
  induction level using Nat.strong_induction_on generalizing s lvl p with
  | _ level ih =>
    obtain ⟨hact, hlev⟩ := h.active_of_onPath hp
    match level, h.pos_of_onPath hp with
    | 1, _ =>
      show (∃ pages, (nonpagingLeaf s v hpa p).kvm = { markPageDirty s.kvm (gfnOf v) with activeMmuPages := pages }) ∧
        (true = true → ∃ q, OnPath (nonpagingLeaf s v hpa p) v 1 q ∧ (nonpagingLeaf s v hpa p).shadow q (pt64Index v 1) = _)
      unfold nonpagingLeaf
      rw [(pageHeaderUpdateSlot_frame { s with kvm := markPageDirty s.kvm (gfnOf v) } p v).1]
      refine ⟨⟨_, rfl⟩, fun _ => ⟨p, ?_, if_pos ⟨rfl, rfl⟩⟩⟩
      have hq := (h.onPath_writeLeaf hlev (pt64Index v 1) (hpa ||| ptPresentMask ||| ptWritableMask ||| ptUserMask)).2 hp
      refine (OnPath.congr ?_ ?_ ?_).2 hq
      · rfl
      · rfl
      · rfl
    | level + 2, _ =>
      by_cases hz : s.shadow p (pt64Index v (level + 2)) = 0
      · cases hf : s.freePages with
        | nil =>
          have heq : nonpagingMap v hpa (level + 2) s p = (s, false) := by
            unfold nonpagingMap
            simp [Vcpu.readPte, hz, kvmMmuAllocPage_nil hf]
          rw [heq]
          exact ⟨⟨_, rfl⟩, fun h => by cases h⟩
        | cons q rest =>
          have hzq : ∀ i, s.shadow q i = 0 := h.tables.free_zero q (hf ▸ List.mem_cons_self)
          have h0 : (nonpagingLinkFlags (level + 2)).hasBit 0 = true := by simp [hasBit_nonpagingLinkFlags]
          have haddr : ∀ i, 12 ≤ i → i < 52 → (nonpagingLinkFlags (level + 2)).hasBit i = false := fun i h12 _ => by
            simp [hasBit_nonpagingLinkFlags]
            omega
          have h1 := h.linkPage hp hz hf h0 haddr
          have hentry := linkPage_readPte s ⟨p, pt64Index v (level + 2)⟩ q rest h0 haddr
          have hp1 := @onPath_linkPage _ v ⟨p, pt64Index v (level + 2)⟩ hz q rest (nonpagingLinkFlags (level + 2)) _ _ hp
          rw [nonpagingMap_link hz hf hzq]
          obtain ⟨⟨pages, h2⟩, h3⟩ := ih (level + 1) (by omega) h1 (.down hp1 hentry.1)
          refine ⟨⟨pages, h2.trans ?_⟩, h3⟩
          split
          · exact markPageDirty_active s.kvm _ _ _
          · rfl
      · have hpres := (h.tables.upper p hact (by omega) _).resolve_left hz
        rw [nonpagingMap_down hz]
        exact ih (level + 1) (by omega) h (.down hp hpres)

/-- A call of `nonpaging_page_fault` is a sequence of steps; it maps the page if it has one. -/
theorem nonpagingPageFault_spec (hpool : pool ≠ []) {addr : BitVec 64} {fuel : Nat} {out : Vcpu × Bool}
    (h : MmuInv pool lvl r s) (hnp : s.mmu.shadowRootLevel = 3)
    (hs : nonpagingPageFault addr fuel s = some out) :
    (isErrorHpa (gpaToHpa s.kvm (addr &&& pt64BaseAddrMask)) = true ∧ out = (s, true)) ∨
      (isErrorHpa (gpaToHpa s.kvm (addr &&& pt64BaseAddrMask)) = false ∧
        ReflTransGen (NonpagingStep (addr &&& pageMask) (gpaToHpa s.kvm (addr &&& pt64BaseAddrMask))) s out.1) := by
  induction fuel generalizing s lvl r with
  | zero => cases hs
  | succ fuel ih =>
    unfold nonpagingPageFault at hs
    dsimp only at hs
    cases herr : isErrorHpa (gpaToHpa s.kvm (addr &&& pt64BaseAddrMask)) with
    | true =>
      rw [if_pos herr] at hs
      exact Or.inl ⟨rfl, (Option.some.inj hs).symm⟩
    | false =>
      rw [if_neg (by simp [herr])] at hs
      refine Or.inr ⟨rfl, ?_⟩
      rw [h.rootPage_eq] at hs
      obtain ⟨h1, ⟨lvl', h2⟩, h3, -⟩ := nonpagingMap_spec (addr &&& pageMask)
        (gpaToHpa s.kvm (addr &&& pt64BaseAddrMask)) hpool h
        (hnp ▸ OnPath.root h.root)
      generalize nonpagingMap (addr &&& pageMask) (gpaToHpa s.kvm (addr &&& pt64BaseAddrMask)) 3 s r = res at hs h1 h2 h3
      obtain ⟨s1, ok⟩ := res
      cases ok with
      | true => exact Option.some.inj hs ▸ h1
      | false =>
        have hstep : NonpagingStep (addr &&& pageMask) (gpaToHpa s.kvm (addr &&& pt64BaseAddrMask)) s1
          (nonpagingFlush s1) := .flush
        have hsteps := h1.tail hstep
        obtain ⟨lvl2, q, h4, -, hmmu⟩ := nonpagingFlush_spec h2 hpool
        -- the slots are the same, so the next round maps the same page
        obtain ⟨-, hn, hm, ha⟩ := NonpagingStep.run (P := fun s' => s'.kvm.nmemslots = s.kvm.nmemslots ∧
          s'.kvm.memslots = s.kvm.memslots ∧ s'.kvm.pageArray = s.kvm.pageArray) hpool
          (fun h' hs' hstep' => by
            obtain ⟨h1, h2, h3⟩ := hstep'.slots h' hpool
            exact ⟨h1.trans hs'.1, h2.trans hs'.2.1, h3.trans hs'.2.2⟩) h ⟨rfl, rfl, rfl⟩ hsteps
        have hgpa : ∀ gpa, gpaToHpa (nonpagingFlush s1).kvm gpa = gpaToHpa s.kvm gpa := fun gpa =>
          gpaToHpa_congr hn hm ha gpa
        have hrest := ih h4 (by rw [hmmu]; exact h3 ▸ hnp) hs
        rw [hgpa, herr] at hrest
        rcases hrest with ⟨h6, -⟩ | ⟨-, h6⟩
        · cases h6
        · exact hsteps.trans h6

/-- A page of a slot is marked dirty and mapped. -/
theorem nonpagingPageFault_maps (hpool : pool ≠ []) {addr : BitVec 64} {fuel : Nat} {out : Vcpu × Bool}
    (h : MmuInv pool lvl r s) (hnp : s.mmu.shadowRootLevel = 3)
    (herr : isErrorHpa (gpaToHpa s.kvm (addr &&& pt64BaseAddrMask)) = false)
    (hs : nonpagingPageFault addr fuel s = some out) :
    (∃ pages, out.1.kvm = { markPageDirty s.kvm (gfnOf (addr &&& pageMask)) with activeMmuPages := pages }) ∧
      out.1.mmu = { s.mmu with rootHpa := out.1.mmu.rootHpa } ∧ (∃ lvl' r', MmuInv pool lvl' r' out.1) ∧
      ∃ q, OnPath out.1 (addr &&& pageMask) 1 q ∧ out.1.shadow q (pt64Index (addr &&& pageMask) 1) =
        gpaToHpa s.kvm (addr &&& pt64BaseAddrMask) ||| ptPresentMask ||| ptWritableMask ||| ptUserMask := by
  induction fuel generalizing s lvl r with
  | zero => cases hs
  | succ fuel ih =>
    unfold nonpagingPageFault at hs
    dsimp only at hs
    rw [if_neg (by simp [herr]), h.rootPage_eq] at hs
    obtain ⟨-, ⟨lvl', h2⟩, h3, -⟩ := nonpagingMap_spec (addr &&& pageMask)
      (gpaToHpa s.kvm (addr &&& pt64BaseAddrMask)) hpool h (hnp ▸ OnPath.root h.root)
    obtain ⟨⟨pages, hkvm⟩, hmaps⟩ := nonpagingMap_maps (addr &&& pageMask)
      (gpaToHpa s.kvm (addr &&& pt64BaseAddrMask)) h (hnp ▸ OnPath.root h.root)
    generalize nonpagingMap (addr &&& pageMask) (gpaToHpa s.kvm (addr &&& pt64BaseAddrMask)) 3 s r = res at hs h2 h3 hkvm hmaps
    obtain ⟨s1, ok⟩ := res
    cases ok with
    | true =>
      obtain rfl := Option.some.inj hs
      exact ⟨⟨pages, hkvm⟩, h3 ▸ rfl, ⟨lvl', r, h2⟩, hmaps rfl⟩
    | false =>
      obtain ⟨lvl2, q, h4, h5, hmmu⟩ := nonpagingFlush_spec h2 hpool
      have hkvm' : (nonpagingFlush s1).kvm = { s.kvm with activeMmuPages := [q] } := by
        rw [h5.kvm]
        exact congrArg (fun kvm : Kvm => { kvm with activeMmuPages := [q] }) hkvm
      have hgpa : ∀ gpa, gpaToHpa (nonpagingFlush s1).kvm gpa = gpaToHpa s.kvm gpa := fun gpa => by
        rw [hkvm']
        exact gpaToHpa_congr rfl rfl rfl gpa
      obtain ⟨⟨pages', h6⟩, h7, h8, h9⟩ := ih h4 (by rw [hmmu]; exact h3 ▸ hnp) (by rw [hgpa]; exact herr) hs
      rw [hgpa] at h9
      refine ⟨⟨pages', h6.trans ?_⟩, h7.trans ?_, h8, h9⟩
      · rw [hkvm']
        exact markPageDirty_active s.kvm _ _ _
      · rw [hmmu]
        exact congrArg (fun m : KvmMmu => { m with rootHpa := out.1.mmu.rootHpa }) h3

/-- The second attempt finds enough pages. -/
theorem nonpagingPageFault_isSome (hpool : 4 ≤ pool.length) {addr : BitVec 64} (fuel : Nat) (h : MmuInv pool lvl r s)
    (hnp : s.mmu.shadowRootLevel = 3) : (nonpagingPageFault addr (fuel + 2) s).isSome = true := by
  have hne : pool ≠ [] := List.ne_nil_of_length_pos (by omega)
  have hround : ∀ (fuel : Nat) {s : Vcpu} {lvl : Pfn → Nat} {r : Pfn}, MmuInv pool lvl r s → s.mmu.shadowRootLevel = 3 →
      3 ≤ s.freePages.length → (nonpagingPageFault addr (fuel + 1) s).isSome = true := by
    intro fuel s lvl r h hnp hlen
    obtain ⟨-, -, -, hpages, -⟩ := nonpagingMap_spec (addr &&& pageMask)
      (gpaToHpa s.kvm (addr &&& pt64BaseAddrMask)) hne h (hnp ▸ OnPath.root h.root)
    unfold nonpagingPageFault
    rw [h.rootPage_eq]
    dsimp only
    split
    · rfl
    · generalize nonpagingMap (addr &&& pageMask) (gpaToHpa s.kvm (addr &&& pt64BaseAddrMask)) 3 s r = res at hpages
      obtain ⟨s1, ok⟩ := res
      cases ok with
      | true => rfl
      | false =>
        have := hpages rfl
        omega
  obtain ⟨-, ⟨lvl', h2⟩, h3, -⟩ := nonpagingMap_spec (addr &&& pageMask)
    (gpaToHpa s.kvm (addr &&& pt64BaseAddrMask)) hne h (hnp ▸ OnPath.root h.root)
  rw [nonpagingPageFault, h.rootPage_eq]
  split
  · rfl
  · generalize nonpagingMap (addr &&& pageMask) (gpaToHpa s.kvm (addr &&& pt64BaseAddrMask)) 3 s r = res at h2 h3
    obtain ⟨s1, ok⟩ := res
    dsimp only at h2 h3
    cases ok with
    | true => rfl
    | false =>
      obtain ⟨lvl2, q, h4, h5, hmmu⟩ := nonpagingFlush_spec h2 hne
      have hlen := h5.length
      exact hround fuel (s := nonpagingFlush s1) h4 (by rw [hmmu]; exact h3 ▸ hnp) (by omega)

end LearnKvm
