import LearnKvm.Mmu.Access

/-!
# Faults end as the guest tables say

A call of the fault handler at an address that the guest maps finds or installs the entry of the address, updates it,
and then either emulates, injects or returns (`PagingInv.faultCall`).  When it returns, the entry either permits the
access or is `Stuck`: no further call will change it, and the next one injects.  So an access ends after two calls at
most, and it ends as `GuestOutcome` says (`PagingInv.alwaysEnds`).
-/

namespace LearnKvm

open Relation

variable {pool : List Pfn} {s s' t : Vcpu} {va : BitVec 64} {D : Set (BitVec 64)} {acc : Access}

/-! ### One call -/

/-- What a call does after the lookup has led to the state `s1` and the entry of the page `p`. -/
structure CallSpec (pool : List Pfn) (D : Set (BitVec 64)) (va : BitVec 64) (errorCode : BitVec 32) (s s1 : Vcpu) (p : Pfn)
    (out : Vcpu × Bool) : Prop where
  inv : PagingInv pool D s1
  ops : s1.mmu.ops = s.mmu.ops
  same : SameWalks s.mmu.ops.ptType s s1
  vmcs : ∀ f, f ≠ .guestCr3 → s1.vmcs f = s.vmcs f
  path : OnPath s1 va 1 p
  entry : s1.readPte ⟨p, pt64Index va 1⟩ ≠ 0
  out : out =
    let fix := fixPf s.mmu.ops.ptType s1 va ⟨p, pt64Index va 1⟩ (errorCode.hasBit 1) (errorCode.hasBit 2)
    if (fix.1.readPte ⟨p, pt64Index va 1⟩).hasBit 9 then
      if mayAccess (fix.1.readPte ⟨p, pt64Index va 1⟩) (errorCode.hasBit 1) (errorCode.hasBit 2) then (fix.1, true)
      else (injectPageFault fix.1 va (errorCode ||| pferrPresentMask), false)
    else if errorCode.hasBit 0 && !fix.2 then (injectPageFault fix.1 va errorCode, false)
    else (fix.1, false)

theorem PagingInv.pageFault_eq (h : PagingInv pool D s) {errorCode : BitVec 32} {fuel : Nat} {out : Vcpu × Bool}
    (hs : mmuPageFault s va errorCode fuel = some out) : pageFault s.mmu.ops.ptType s va errorCode fuel = some out := by
  unfold mmuPageFault at hs
  cases hops : s.mmu.ops with
  | nonpaging => exact absurd hops h.ops
  | paging64 =>
    rw [hops] at hs
    exact hs
  | paging32 =>
    rw [hops] at hs
    exact hs

/-- A call at an address that the guest does not map injects the fault; at other addresses it finds an entry, the one
that is there or a new one. -/
theorem PagingInv.faultCall (h : PagingInv pool D s) (hpool : pool ≠ []) (hD : IndexClosed s.mmu.shadowRootLevel D)
    {errorCode : BitVec 32} {fuel : Nat} {out : Vcpu × Bool} (hs : mmuPageFault s va errorCode fuel = some out) :
    ((guestPte s.mmu.ops.ptType s va 1).hasBit 0 = false ∧
      ∃ s1, (∀ f, f ≠ .guestCr3 → s1.vmcs f = s.vmcs f) ∧ out = (injectPageFault s1 va errorCode, false)) ∨
    ∃ s1 p, CallSpec pool D va errorCode s s1 p out ∧
      ∀ q, OnPath s va 1 q → s.shadow q (pt64Index va 1) ≠ 0 → s1 = s ∧ p = q := by
  obtain ⟨lvl, r, hinv⟩ := h.inv
  have hs := h.pageFault_eq hs
  unfold pageFault at hs
  cases hf : fetchRetry s.mmu.ops.ptType va fuel s with
  | none =>
    rw [hf] at hs
    cases hs
  | some res =>
    obtain ⟨s1, walker, shadowPte⟩ := res
    rw [hf] at hs
    obtain rfl := Option.some.inj hs
    have hl := fetchRetry_spec hpool hinv h.isFor hf
    obtain ⟨h1, hmmu⟩ := h.faultSteps hpool hD (FetchStep.faultSteps hl.steps)
    have hsame := (FaultStep.run_sameGuest hpool hinv (FetchStep.faultSteps hl.steps)).2
    have hops : s1.mmu.ops = s.mmu.ops := by rw [hmmu]
    cases shadowPte with
    | none =>
      refine Or.inl ⟨?_, s1, hl.vmcs, rfl⟩
      rw [← hsame.sameWalks.present_iff h.isFor.one_le_rootLevel]
      exact hl.ok
    | some ptr =>
      obtain ⟨p, i⟩ := ptr
      obtain ⟨hp, rfl, hne, hw⟩ := hl.ok
      refine Or.inr ⟨s1, p, ⟨h1, hops, hsame.sameWalks, hl.vmcs, hp, hne, pageFaultFix_eq hw _ _⟩, ?_⟩
      intro q hq hqne
      obtain ⟨h1, h2⟩ := fetchRetry_complete hinv hq hqne hf
      exact ⟨h1, congrArg PtePtr.page (Option.some.inj h2)⟩

/-! ### Events -/

theorem pendingEvent_congr {v v' : Vmcs} (h : v' .vmEntryIntrInfoField = v .vmEntryIntrInfoField) :
    pendingEvent v' = pendingEvent v := by
  unfold pendingEvent vmcsRead32 vmcsReadl
  rw [h]

theorem pfInjected_injectPageFault {s s1 : Vcpu} (h : ∀ f, f ≠ .guestCr3 → s1.vmcs f = s.vmcs f) (errorCode : BitVec 32) :
    PfInjected va s (injectPageFault s1 va errorCode) := by
  have hread : ∀ (v : Vmcs) (x : BitVec 32), vmcsRead32 (vmcsWrite32 v .vmEntryIntrInfoField x) .vmEntryIntrInfoField = x := by
    intro v x
    unfold vmcsRead32 vmcsWrite32
    rw [vmcsReadl_vmcsWritel_self]
    exact BitVec.setWidth_setWidth_of_le _ (by decide)
  have hvec : vmcsRead32 s1.vmcs .idtVectoringInfoField = vmcsRead32 s.vmcs .idtVectoringInfoField := by
    unfold vmcsRead32 vmcsReadl
    rw [h _ (by decide)]
  unfold PfInjected injectPageFault
  rw [hvec]
  split
  · exact hread _ _
  · exact ⟨hread _ _, rfl⟩

/-! ### The entry -/

section Entry

variable {pt : PtType} {e : BitVec 64} {write user : Bool}

theorem mayAccess_iff : mayAccess e write user = true ↔
    (user = true → e.hasBit 2 = true) ∧ (write = true → e.hasBit 1 = true) := by
  unfold mayAccess
  rw [and_ptUserMask, and_ptWritableMask]
  cases user <;> cases write <;> simp

/-- After the update the entry gives exactly the rights that the guest tables give. -/
theorem mayAccess_fixEntry (h : LeafSound pt s va e) :
    mayAccess (fixEntry s e write user).1 write user = true ↔ (user = true → e.hasBit 11 = true) ∧
      (write = true → e.hasBit 10 = true ∨ user = false ∧ isWriteProtection s.vmcs = false) := by
  have h1 := h.user
  have h2 := h.writable
  have h3 := h.supervisor
  rw [mayAccess_iff]
  unfold fixEntry mayFix
  cases write with
  | false =>
    simp only [Bool.false_eq_true, if_false, false_implies, and_true]
    cases h11 : e.hasBit 11 <;> cases h22 : e.hasBit 2 <;> simp [h22]
    rw [h1 h22] at h11
    cases h11
  | true =>
    simp only [if_true]
    cases user <;> cases hw : e.hasBit 1 <;> cases h10 : e.hasBit 10 <;> cases h11 : e.hasBit 11 <;>
      cases hu : e.hasBit 2 <;> cases hwp : isWriteProtection s.vmcs <;> simp_all

theorem fixEntry_of_not_fixed (h : (fixEntry s e write user).2 = false) : (fixEntry s e write user).1 = e := by
  unfold fixEntry at h ⊢
  grind

/-- One update is enough. -/
theorem fixEntry_fixEntry : (fixEntry s (fixEntry s e write user).1 write user).2 = false := by
  cases write with
  | false => cases h11 : e.hasBit 11 <;> cases h2 : e.hasBit 2 <;> simp [fixEntry, h11, h2]
  | true =>
    have hdirty : mayFix s (dirtyPte e) user = false := by simp [mayFix]
    by_cases hm : mayFix s e user = true
    · simp [fixEntry, hm, hdirty]
    · simp [fixEntry, hm]

/-- An update of the entry changes rights only. -/
theorem hasBit_fixEntry {i : Nat} (h1 : i ≠ 1) (h2 : i ≠ 2) : (fixEntry s e write user).1.hasBit i = e.hasBit i := by
  unfold fixEntry
  cases write with
  | false =>
    simp only [Bool.false_eq_true, if_false]
    split
    · simp [h1, h2]
    · rfl
  | true =>
    simp only [if_true]
    split
    · simp [h1, h2]
    · rfl

end Entry

/-- The fault handler has nothing left to change for this access. -/
def Stuck (s : Vcpu) (va : BitVec 64) (acc : Access) : Prop :=
  ∃ p, OnPath s va 1 p ∧ (s.shadow p (pt64Index va 1)).hasBit 0 = true ∧
    (fixEntry s (s.shadow p (pt64Index va 1)) acc.isWrite acc.user).2 = false

/-- An access that the processor does not permit, though the handler has nothing left to change, is denied. -/
theorem PagingInv.denied_of_not_fixed (h : PagingInv pool D s) (hD : va ∈ D) {p : Pfn} (hp : OnPath s va 1 p)
    (he : (s.shadow p (pt64Index va 1)).hasBit 0 = true)
    (hfix : (fixEntry s (s.shadow p (pt64Index va 1)) acc.isWrite acc.user).2 = false)
    (hdenied : ∀ f, ¬CpuPermits s va acc f) : GuestOutcome s.mmu.ops.ptType s va acc .injected := by
  have hleaf := h.sound.leaf va p hD hp (BitVec.ne_zero_of_hasBit he)
  have hrights := @mayAccess_fixEntry s va _ _ acc.isWrite acc.user hleaf
  rw [fixEntry_of_not_fixed hfix, mayAccess_iff, ← guestRightsOk_iff h.isFor.one_le_rootLevel hleaf] at hrights
  have hc := hdenied (frameOf (s.shadow p (pt64Index va 1)))
  rw [h.cpuPermits_iff hD hp he] at hc
  by_cases hok : GuestRightsOk s.mmu.ops.ptType s va acc
  · refine Or.inr ⟨fun hperm => hc ⟨rfl, (hrights.2 hok).1, (hrights.2 hok).2, hperm.2⟩, ?_⟩
    exact hleaf.mapped.symm.trans he
  · exact Or.inl hok

theorem fixEntry_congr (h : isWriteProtection s'.vmcs = isWriteProtection s.vmcs) (e : BitVec 64) (write user : Bool) :
    fixEntry s' e write user = fixEntry s e write user := by
  unfold fixEntry mayFix
  rw [h]

/-! ### The outcome of a call -/

namespace PagingInv

/-- A call emulates, injects or returns; then the guest tables say so, or the handler has nothing left to change. -/
theorem faultOf_cases (h : PagingInv pool D s) (hpool : pool ≠ []) (hDc : IndexClosed s.mmu.shadowRootLevel D)
    (hD : va ∈ D) {out : Vcpu × Bool} (hf : FaultOf va acc s out) :
    (out.2 = true ∧ pendingEvent out.1.vmcs = false ∧ GuestOutcome s.mmu.ops.ptType s va acc .emulated) ∨
    (out.2 = false ∧ PfInjected va s out.1 ∧ GuestOutcome s.mmu.ops.ptType s va acc .injected) ∨
    (out.2 = false ∧ pendingEvent out.1.vmcs = false ∧ Stuck out.1 va acc) := by
  obtain ⟨errorCode, fuel, hc, hs⟩ := hf
  have hroot := h.isFor.one_le_rootLevel
  rcases h.faultCall hpool hDc hs with ⟨hg, s1, hvmcs, rfl⟩ | ⟨s1, p, hcall, hsame⟩
  · refine Or.inr (Or.inl ⟨rfl, pfInjected_injectPageFault hvmcs errorCode, Or.inl fun hok => ?_⟩)
    rw [hok.present] at hg
    cases hg
  obtain ⟨h1, hops, hwalks, hvmcs, hp, hne, hout⟩ := hcall
  obtain ⟨lvl, r, hinv⟩ := h1.inv
  have hleaf := h1.sound.leaf va p hD hp hne
  rw [hops] at hleaf
  obtain ⟨hshadow, hfixed, hmmu, hvmcs2⟩ := fixPf_eq hleaf.present ⟨p, pt64Index va 1⟩ acc.isWrite acc.user
  rw [hc.write, hc.user] at hout
  generalize fixPf s.mmu.ops.ptType s1 va ⟨p, pt64Index va 1⟩ acc.isWrite acc.user = fix at hout hshadow hfixed hmmu hvmcs2
  -- the entry after the update
  have hentry : fix.1.readPte ⟨p, pt64Index va 1⟩ =
      (fixEntry s1 (s1.shadow p (pt64Index va 1)) acc.isWrite acc.user).1 := by
    unfold Vcpu.readPte
    rw [hshadow, Vcpu.shadow_writePte, if_pos ⟨rfl, rfl⟩]
    rfl
  have hio : (fix.1.readPte ⟨p, pt64Index va 1⟩).hasBit 9 = (gpaFrame s1.kvm (guestGaddr s.mmu.ops.ptType s1 va)).isNone := by
    rw [hentry, hasBit_fixEntry (by decide) (by decide), hleaf.io]
  have hrights := @mayAccess_fixEntry s1 va _ _ acc.isWrite acc.user hleaf
  rw [← hentry, ← guestRightsOk_iff h1.isFor.one_le_rootLevel hleaf] at hrights
  have hvmcs' : ∀ f, f ≠ .guestCr3 → fix.1.vmcs f = s.vmcs f := fun f hf => by rw [hvmcs2, hvmcs f hf]
  have hpend : pendingEvent fix.1.vmcs = false := (pendingEvent_congr (hvmcs' _ (by decide))).trans hc.noEvent
  dsimp only at hout
  split at hout
  · rename_i h9
    have hnone : guestFrame s.mmu.ops.ptType s1 va = none := Option.isNone_iff_eq_none.1 (hio.symm.trans h9)
    split at hout
    · rename_i hacc
      rw [hout]
      exact Or.inl ⟨rfl, hpend, (hwalks.guestOutcome_iff hroot .emulated).1 ⟨hrights.1 hacc, hnone⟩⟩
    · rename_i hacc
      rw [hout]
      refine Or.inr (Or.inl ⟨rfl, pfInjected_injectPageFault hvmcs' _, ?_⟩)
      exact (hwalks.guestOutcome_iff hroot .injected).1 (Or.inl fun hok => hacc (hrights.2 hok))
  · rename_i h9
    split at hout
    · rename_i hinj
      rw [hout]
      rw [Bool.and_eq_true, Bool.not_eq_true'] at hinj
      obtain ⟨q, hq, he⟩ := hc.present.1 hinj.1
      obtain ⟨rfl, rfl⟩ := hsame q hq (BitVec.ne_zero_of_hasBit he)
      refine Or.inr (Or.inl ⟨rfl, pfInjected_injectPageFault hvmcs' _, ?_⟩)
      exact h.denied_of_not_fixed hD hq he (hfixed.symm.trans hinj.2) hc.denied
    · rw [hout]
      refine Or.inr (Or.inr ⟨rfl, hpend, p, ?_, ?_, ?_⟩)
      · exact (OnPath.congr (by rw [hmmu]; rfl) (by rw [hmmu]; rfl) hshadow).2
          ((hinv.onPath_writeLeaf (hinv.active_of_onPath hp).2 _ _).2 hp)
      · show (fix.1.readPte ⟨p, pt64Index va 1⟩).hasBit 0 = true
        rw [hio, Option.isNone_iff_eq_none] at h9
        rw [hentry, hasBit_fixEntry (by decide) (by decide), hleaf.mapped]
        exact Option.isSome_iff_ne_none.2 h9
      · show (fixEntry fix.1 (fix.1.readPte ⟨p, pt64Index va 1⟩) acc.isWrite acc.user).2 = false
        rw [fixEntry_congr (show isWriteProtection fix.1.vmcs = isWriteProtection s1.vmcs by rw [hvmcs2]), hentry]
        exact fixEntry_fixEntry

/-- When the handler has nothing left to change, a fault is injected. -/
theorem faultOf_stuck (h : PagingInv pool D s) (hpool : pool ≠ []) (hDc : IndexClosed s.mmu.shadowRootLevel D)
    (hD : va ∈ D) (hstuck : Stuck s va acc) {out : Vcpu × Bool} (hf : FaultOf va acc s out) :
    out.2 = false ∧ PfInjected va s out.1 := by
  obtain ⟨errorCode, fuel, hc, hs⟩ := hf
  obtain ⟨q, hq, he, hfix⟩ := hstuck
  have hleaf := h.sound.leaf va q hD hq (BitVec.ne_zero_of_hasBit he)
  rcases h.faultCall hpool hDc hs with ⟨hg, -⟩ | ⟨s1, p, hcall, hsame⟩
  · rw [hleaf.present] at hg
    cases hg
  obtain ⟨rfl, rfl⟩ := hsame q hq (BitVec.ne_zero_of_hasBit he)
  obtain ⟨hshadow, hfixed, -, hvmcs⟩ := fixPf_eq hleaf.present ⟨p, pt64Index va 1⟩ acc.isWrite acc.user
  have hout := hcall.out
  rw [hc.write, hc.user] at hout
  generalize fixPf s1.mmu.ops.ptType s1 va ⟨p, pt64Index va 1⟩ acc.isWrite acc.user = fix at hout hshadow hfixed hvmcs
  have h9 : (fix.1.readPte ⟨p, pt64Index va 1⟩).hasBit 9 = false := by
    unfold Vcpu.readPte
    rw [hshadow, Vcpu.shadow_writePte, if_pos ⟨rfl, rfl⟩, hasBit_fixEntry (by decide) (by decide)]
    have hsome := hleaf.mapped.symm.trans he
    rw [show s1.readPte ⟨p, pt64Index va 1⟩ = s1.shadow p (pt64Index va 1) from rfl, hleaf.io]
    cases hf : gpaFrame s1.kvm (guestGaddr s1.mmu.ops.ptType s1 va) with
    | none =>
      rw [hf] at hsome
      cases hsome
    | some f => rfl
  dsimp only at hout
  rw [h9, if_neg (by decide), if_pos] at hout
  · rw [hout]
    exact ⟨rfl, pfInjected_injectPageFault (fun f _ => by rw [hvmcs]) _⟩
  · rw [hc.present.2 ⟨p, hq, he⟩, hfixed]
    exact Bool.and_eq_true_iff.2 ⟨rfl, by rw [show s1.readPte ⟨p, pt64Index va 1⟩ = s1.shadow p (pt64Index va 1) from rfl, hfix]; rfl⟩

end PagingInv

/-! ### Accesses -/

theorem NextExit.sameShadow (h : NextExit s s') : SameShadow s s' := by
  rw [h.frame]
  exact ⟨rfl, rfl, rfl, rfl, rfl, rfl⟩

theorem NextExit.sameGuest (h : NextExit s s') (pt : PtType) : SameGuest pt s s' := by
  refine .of_eq ?_ ?_ ?_ (fun gpa => ?_) ?_ h.fields <;> rw [h.frame]

theorem NextExit.samePaging (h : NextExit s s') (pt : PtType) : SamePaging pt s s' := by
  have hg := h.sameGuest pt
  refine ⟨hg.cr3, hg.longMode, hg.pse, hg.writeProtection, hg.badPage, hg.gpaToHpa, fun va level v hv => ?_⟩
  rw [h.frame]
  rfl

theorem Stuck.nextExit (h : Stuck s va acc) (hs : NextExit s s') : Stuck s' va acc := by
  obtain ⟨p, hp, he, hfix⟩ := h
  have hmmu := hs.sameShadow.mmu
  have hshadow := hs.sameShadow.shadow
  refine ⟨p, (OnPath.congr (by rw [hmmu]) (by rw [hmmu]) hshadow).2 hp, by rwa [hshadow], ?_⟩
  rw [hshadow, fixEntry_congr (hs.sameGuest .pt64).writeProtection]
  exact hfix

namespace PagingInv

/-- When the access is tried again, the handler has nothing left to change. -/
theorem again (h : PagingInv pool D s) (hpool : pool ≠ []) (hDc : IndexClosed s.mmu.shadowRootLevel D) (hD : va ∈ D)
    (ha : Again va acc s s') : PagingInv pool D s' ∧ s'.mmu = { s.mmu with rootHpa := s'.mmu.rootHpa } ∧
      SameWalks s.mmu.ops.ptType s s' ∧ Stuck s' va acc := by
  obtain ⟨t, hf, ht, hnext⟩ := ha
  obtain ⟨lvl, r, hinv⟩ := h.inv
  have hsteps : ReflTransGen (FaultStep s.mmu.ops.ptType va) s t := by
    obtain ⟨errorCode, fuel, -, hs⟩ := hf
    exact h.pageFault_steps hpool hs
  obtain ⟨h1, hmmu⟩ := h.faultSteps hpool hDc hsteps
  have hsame := (FaultStep.run_sameGuest hpool hinv hsteps).2
  have hmmu' := hnext.sameShadow.mmu
  refine ⟨h1.other hnext.sameShadow (hnext.samePaging _), by rw [hmmu', hmmu],
    (hsame.trans (hnext.sameGuest _)).sameWalks, Stuck.nextExit ?_ hnext⟩
  rcases h.faultOf_cases hpool hDc hD hf with ⟨hr, -⟩ | ⟨-, hinj, -⟩ | ⟨-, -, hstuck⟩
  · cases hr
  · rw [hinj.pendingEvent] at ht
    cases ht
  · exact hstuck

/-- An access that the processor denies, though the handler has nothing left to change, ends after one call. -/
theorem alwaysEnds_of_stuck (h : PagingInv pool D s) (hpool : 4 ≤ pool.length)
    (hDc : IndexClosed s.mmu.shadowRootLevel D) (hD : va ∈ D) (hstuck : Stuck s va acc)
    (hpend : pendingEvent s.vmcs = false) (n : Nat) :
    AlwaysEnds va acc (GuestOutcome s.mmu.ops.ptType s va acc) (n + 1) s := by
  have hpool' : pool ≠ [] := List.ne_nil_of_length_pos (by omega)
  obtain ⟨lvl, r, hinv⟩ := h.inv
  by_cases hperm : ∃ f, CpuPermits s va acc f
  · obtain ⟨f, hf⟩ := hperm
    exact .permitted hf (h.guestOutcome_of_cpuPermits hD hf)
  · rw [not_exists] at hperm
    obtain ⟨p, hp, he, hfix⟩ := id hstuck
    have hinj := h.denied_of_not_fixed hD hp he hfix hperm
    refine .fault (exists_cpuRaises hperm hpend) (fun e fuel _ => mmuPageFault_isSome hinv hpool va e fuel)
      (fun out hout => ?_) fun s' ha => ?_
    · obtain ⟨h1, h2⟩ := h.faultOf_stuck hpool' hDc hD hstuck hout
      exact Or.inl (Or.inr ⟨h1, h2, hinj⟩)
    · obtain ⟨t, hout, ht, -⟩ := ha
      obtain ⟨-, h2⟩ := h.faultOf_stuck hpool' hDc hD hstuck hout
      rw [h2.pendingEvent] at ht
      cases ht

/-- An access ends after two calls at most, as the guest tables say. -/
theorem alwaysEnds (h : PagingInv pool D s) (hpool : 4 ≤ pool.length) (hDc : IndexClosed s.mmu.shadowRootLevel D)
    (hD : va ∈ D) (hpend : pendingEvent s.vmcs = false) (n : Nat) :
    AlwaysEnds va acc (GuestOutcome s.mmu.ops.ptType s va acc) (n + 2) s := by
  have hpool' : pool ≠ [] := List.ne_nil_of_length_pos (by omega)
  obtain ⟨lvl, r, hinv⟩ := h.inv
  by_cases hperm : ∃ f, CpuPermits s va acc f
  · obtain ⟨f, hf⟩ := hperm
    exact .permitted hf (h.guestOutcome_of_cpuPermits hD hf)
  · rw [not_exists] at hperm
    refine .fault (exists_cpuRaises hperm hpend) (fun e fuel _ => mmuPageFault_isSome hinv hpool va e fuel)
      (fun out hout => ?_) fun s' ha => ?_
    · rcases h.faultOf_cases hpool' hDc hD hout with hem | hinj | ⟨h1, h2, -⟩
      · exact Or.inl (Or.inl hem)
      · exact Or.inl (Or.inr hinj)
      · exact Or.inr ⟨h1, h2⟩
    · obtain ⟨h1, hmmu, hsame, hstuck⟩ := h.again hpool' hDc hD ha
      obtain ⟨t, -, -, hnext⟩ := ha
      have hend := h1.alwaysEnds_of_stuck hpool (by rw [hmmu]; exact hDc) hD hstuck hnext.noEvent n
      rw [hmmu] at hend
      exact hend.mono fun o ho => (hsame.guestOutcome_iff h.isFor.one_le_rootLevel o).1 ho

end PagingInv

namespace Started

variable {s₀ : Vcpu}

theorem alwaysEnds (h : Started s₀ s) (hpend : pendingEvent s.vmcs = false) (va : BitVec 64) (acc : Access) :
    AlwaysEnds va acc (GuestOutcome s.mmu.ops.ptType s va acc) 3 s := by
  obtain ⟨pool, hlen, hinv⟩ := h.inv
  exact hinv.alwaysEnds (by omega) (indexClosed_univ _) (Set.mem_univ va) hpend 1

/-- In the excepted case the fetch does not end as it should, whatever the number of calls. -/
theorem not_alwaysEnds (h : Started s₀ s) (hpend : pendingEvent s.vmcs = false)
    (hnx : NxOutsideSlots s.mmu.ops.ptType s va acc) (n : Nat) :
    ¬AlwaysEnds va acc (RightOutcome s.mmu.ops.ptType s va acc) n s := by
  intro hright
  obtain ⟨o, ho, hr⟩ := (h.alwaysEnds hpend va acc).exists_common hright
  exact hnx.not_right ho hr

end Started

/-- **Fault-handling exactness.**  An access ends after at most three calls of the fault handler, and a page fault is
injected if and only if the guest tables deny the access, except for instruction fetches from pages outside of the slots
to which the guest forbids execution. -/
theorem fault_handling_exact {s₀ : Vcpu} (h : Started s₀ s) (hpend : pendingEvent s.vmcs = false) (va : BitVec 64)
    (acc : Access) : AlwaysEnds va acc (RightOutcome s.mmu.ops.ptType s va acc) 3 s ↔
      ¬NxOutsideSlots s.mmu.ops.ptType s va acc :=
  ⟨fun hright hnx => h.not_alwaysEnds hpend hnx 3 hright,
    fun hnx => (h.alwaysEnds hpend va acc).mono fun _ ho => rightOutcome_of_guestOutcome hnx ho⟩

/-- Long mode. -/
def vmcs64 : Vmcs := Function.update (Function.update vmcs32 .cr4ReadShadow cr4PaeMask) .vmEntryControls (1 <<< 9)

/-- A guest in long mode all of whose tables are page 0.  Its second page is page 256, outside of the slot, and is not
executable. -/
def nxVcpu : Vcpu := smallVcpu vmcs64 0 fun i => if i % 512 = 1 then 0x8000000000100067 else 0x67

theorem nxVcpu_started : ∃ s₀ s, Started s₀ s ∧ pendingEvent s.vmcs = false ∧ s.mmu.ops.ptType = .pt64 ∧
    SameWalks .pt64 { nxVcpu with mmu := contextFor vmcs64 none } s := by
  obtain ⟨hstart, hops, hvmcs, hsame⟩ := Started.init nxVcpu rfl rfl rfl (by decide) somePages_injective fun _ => rfl
  refine ⟨_, _, hstart, ?_, ?_, (hsame .pt64).sameWalks⟩
  · exact (pendingEvent_congr (hvmcs _ (by decide))).trans (by decide)
  · rw [hops]
    decide

theorem nxVcpu_nxOutsideSlots :
    NxOutsideSlots .pt64 { nxVcpu with mmu := contextFor vmcs64 none } 0x1000 ⟨.fetch, false⟩ := by
  refine ⟨rfl, ⟨1, by decide, by decide, Or.inl (by decide), by decide⟩, ⟨by decide, ?_, ?_⟩, by decide⟩
  · intro hu
    cases hu
  · intro hw
    cases hw

/-- An instruction fetch from the second page is emulated. -/
theorem nxVcpu_fetch_emulated : ¬∀ s₀ s va acc, Started s₀ s → pendingEvent s.vmcs = false →
    AlwaysEnds va acc (RightOutcome s.mmu.ops.ptType s va acc) 3 s := by
  intro hall
  obtain ⟨s₀, s, hstart, hpend, hpt, hsame⟩ := nxVcpu_started
  refine hstart.not_alwaysEnds hpend ?_ 3 (hall s₀ s 0x1000 ⟨.fetch, false⟩ hstart hpend)
  rw [hpt, hsame.nxOutsideSlots_iff (by decide)]
  exact nxVcpu_nxOutsideSlots

/-- A read of the second page ends as it should. -/
theorem fault_handling_exact_read : ∃ s, AlwaysEnds 0x1000 ⟨.read, true⟩ (RightOutcome .pt64 s 0x1000 ⟨.read, true⟩) 3 s := by
  obtain ⟨s₀, s, hstart, hpend, hpt, -⟩ := nxVcpu_started
  rw [← hpt]
  exact ⟨s, (fault_handling_exact hstart hpend 0x1000 ⟨.read, true⟩).2 fun hnx => by cases hnx.1⟩

end LearnKvm
