import LearnKvm.Mmu.Run

/-!
# Accesses and how their faults end

The processor runs the guest on the shadow tables: an access that they do not permit raises a page fault (`CpuRaises`),
which exits to the fault handler, and is tried again after the next entry (`Again`).  `AlwaysEnds` says in which ways
this can end: the tables permit the access, the instruction is emulated, or an exception is injected.  The guest tables
decide which (`GuestOutcome`), with one exception: an instruction fetch from a page outside of the slots is emulated
even where the guest forbids execution, since `may_access` does not look at the NX bit.
-/

namespace LearnKvm

open Relation

variable {pool : List Pfn} {lvl : Pfn → Nat} {r : Pfn} {s s' t : Vcpu} {pt : PtType} {va : BitVec 64}
  {D : Set (BitVec 64)}

inductive AccessKind where
  | read | write | fetch
  deriving DecidableEq

/-- A memory access of the guest, by user or supervisor code. -/
structure Access where
  kind : AccessKind
  user : Bool
  deriving DecidableEq

namespace Access

def isWrite (acc : Access) : Bool := acc.kind = .write

def isFetch (acc : Access) : Bool := acc.kind = .fetch

end Access

variable {acc : Access}

/-! ### The processor -/

/-- The shadow tables map `va`. -/
def Mapped (s : Vcpu) (va : BitVec 64) : Prop :=
  ∃ p, OnPath s va 1 p ∧ (s.shadow p (pt64Index va 1)).hasBit 0 = true

/-- The processor's walk of the shadow tables permits the access, and leads to the frame `f`.  In a guest CR0.WP is set
in hardware; page-directory pointers of the PAE format have no access rights. -/
structure CpuPermits (s : Vcpu) (va : BitVec 64) (acc : Access) (f : Pfn) : Prop where
  mapped : ∃ p, OnPath s va 1 p ∧ (s.shadow p (pt64Index va 1)).hasBit 0 = true ∧
    frameOf (s.shadow p (pt64Index va 1)) = f
  user : acc.user = true → ∀ l p, OnPath s va l p → l ≠ 3 ∨ isLongMode s.vmcs = true →
    (s.shadow p (pt64Index va l)).hasBit 2 = true
  write : acc.isWrite = true → ∀ l p, OnPath s va l p → l ≠ 3 ∨ isLongMode s.vmcs = true →
    (s.shadow p (pt64Index va l)).hasBit 1 = true
  fetch : acc.isFetch = true → ¬ShadowNx s va

/-- An exception is to be delivered at the next entry. -/
def pendingEvent (v : Vmcs) : Bool := (vmcsRead32 v .vmEntryIntrInfoField).hasBit 31

/-- The access raises a page fault with this error code.  The exit clears the valid bit of the entry's event. -/
structure CpuRaises (s : Vcpu) (va : BitVec 64) (acc : Access) (errorCode : BitVec 32) : Prop where
  denied : ∀ f, ¬CpuPermits s va acc f
  noEvent : pendingEvent s.vmcs = false
  present : errorCode.hasBit 0 = true ↔ Mapped s va
  write : errorCode.hasBit 1 = acc.isWrite
  user : errorCode.hasBit 2 = acc.user

/-- The fault of an access is raised and handled. -/
def FaultOf (va : BitVec 64) (acc : Access) (s : Vcpu) (out : Vcpu × Bool) : Prop :=
  ∃ errorCode fuel, CpuRaises s va acc errorCode ∧ mmuPageFault s va errorCode fuel = some out

/-- The next exit: the processor has changed nothing but the VMCS, and there neither the control registers nor the
paging mode. -/
structure NextExit (s s' : Vcpu) : Prop where
  frame : s' = { s with vmcs := s'.vmcs }
  fields : ∀ f ∈ [VmcsField.vmEntryControls, .cr0ReadShadow, .guestCr0, .cr4ReadShadow, .guestCr4],
    s'.vmcs f = s.vmcs f
  noEvent : pendingEvent s'.vmcs = false

/-- The handler has returned to the guest, and the access is tried again. -/
def Again (va : BitVec 64) (acc : Access) (s s' : Vcpu) : Prop :=
  ∃ t, FaultOf va acc s (t, false) ∧ pendingEvent t.vmcs = false ∧ NextExit t s'

/-- A page fault has been injected, or a double fault if delivering a page fault has raised this one. -/
def PfInjected (va : BitVec 64) (s t : Vcpu) : Prop :=
  if isPageFault (vmcsRead32 s.vmcs .idtVectoringInfoField) then
    vmcsRead32 t.vmcs .vmEntryIntrInfoField = exceptionInfo dfVector
  else vmcsRead32 t.vmcs .vmEntryIntrInfoField = exceptionInfo pfVector ∧ t.cr2 = va

/-- How an access ends. -/
inductive Outcome where
  | permitted (frame : Pfn) | emulated | injected

/-- A call of the fault handler ends the access, in a way that `P` admits. -/
def CallEnds (va : BitVec 64) (P : Outcome → Prop) (s : Vcpu) (out : Vcpu × Bool) : Prop :=
  out.2 = true ∧ pendingEvent out.1.vmcs = false ∧ P .emulated ∨ out.2 = false ∧ PfInjected va s out.1 ∧ P .injected

/-- Whatever the processor does, the access ends after at most `n` calls of the fault handler, in a way that `P` admits.
Where the access faults, the call for each of the faults returns, and either ends the access or lets the guest try
again. -/
inductive AlwaysEnds (va : BitVec 64) (acc : Access) (P : Outcome → Prop) : Nat → Vcpu → Prop
  | permitted {n : Nat} {s : Vcpu} {f : Pfn} (h : CpuPermits s va acc f) (hP : P (.permitted f)) : AlwaysEnds va acc P n s
  | fault {n : Nat} {s : Vcpu} (hraises : ∃ errorCode, CpuRaises s va acc errorCode)
      (hreturns : ∀ errorCode fuel, CpuRaises s va acc errorCode →
        (mmuPageFault s va errorCode (fuel + 2)).isSome = true)
      (hends : ∀ out, FaultOf va acc s out → CallEnds va P s out ∨ out.2 = false ∧ pendingEvent out.1.vmcs = false)
      (hagain : ∀ s', Again va acc s s' → AlwaysEnds va acc P n s') : AlwaysEnds va acc P (n + 1) s

theorem PfInjected.pendingEvent (h : PfInjected va s t) : pendingEvent t.vmcs = true := by
  unfold PfInjected at h
  unfold LearnKvm.pendingEvent
  split at h
  · rw [h]
    rfl
  · rw [h.1]
    rfl

/-- A call that ends the access does not let the guest try again. -/
theorem CallEnds.not_returns {P : Outcome → Prop} {out : Vcpu × Bool} (h : CallEnds va P s out) :
    ¬(out.2 = false ∧ pendingEvent out.1.vmcs = false) := by
  rintro ⟨h3, h4⟩
  rcases h with ⟨h1, -⟩ | ⟨-, h2, -⟩
  · rw [h1] at h3
    cases h3
  · rw [h2.pendingEvent] at h4
    cases h4

theorem CpuPermits.frame_unique {f g : Pfn} (h : CpuPermits s va acc f) (h' : CpuPermits s va acc g) : f = g := by
  obtain ⟨p, hp, -, hf⟩ := h.mapped
  obtain ⟨q, hq, -, hg⟩ := h'.mapped
  rw [← hf, ← hg, hp.page_unique hq]

/-- A denied access raises a fault. -/
theorem exists_cpuRaises (hdenied : ∀ f, ¬CpuPermits s va acc f) (hpend : pendingEvent s.vmcs = false) :
    ∃ errorCode, CpuRaises s va acc errorCode := by
  classical
  have hbits : ∀ a b c : Bool, ∃ e : BitVec 32, e.hasBit 0 = a ∧ e.hasBit 1 = b ∧ e.hasBit 2 = c := fun a b c =>
    ⟨BitVec.ofNat 32 (a.toNat + 2 * b.toNat + 4 * c.toNat), by cases a <;> cases b <;> cases c <;> decide⟩
  obtain ⟨e, h0, h1, h2⟩ := hbits (decide (Mapped s va)) acc.isWrite acc.user
  exact ⟨e, hdenied, hpend, by rw [h0, decide_eq_true_iff], h1, h2⟩

theorem NextExit.refl (h : pendingEvent s.vmcs = false) : NextExit s s := ⟨rfl, fun _ _ => rfl, h⟩

namespace AlwaysEnds

variable {P Q : Outcome → Prop} {n m : Nat}

theorem mono (h : AlwaysEnds va acc P n s) (hPQ : ∀ o, P o → Q o) : AlwaysEnds va acc Q n s := by
  induction h with
  | permitted h hP => exact .permitted h (hPQ _ hP)
  | fault hraises hreturns hends _ ih =>
    refine .fault hraises hreturns (fun out hout => (hends out hout).imp_left fun hc => ?_) ih
    rcases hc with ⟨h1, h2, h3⟩ | ⟨h1, h2, h3⟩
    · exact Or.inl ⟨h1, h2, hPQ _ h3⟩
    · exact Or.inr ⟨h1, h2, hPQ _ h3⟩

/-- An access ends: two descriptions of its ends have an end in common. -/
theorem exists_common (h : AlwaysEnds va acc P n s) (h' : AlwaysEnds va acc Q m s) : ∃ o, P o ∧ Q o := by
  induction h generalizing m with
  | permitted h hP =>
    cases h' with
    | permitted h' hQ =>
      obtain rfl := h.frame_unique h'
      exact ⟨_, hP, hQ⟩
    | fault hraises => exact absurd h (hraises.choose_spec.denied _)
  | fault hraises hreturns hends _ ih =>
    obtain ⟨errorCode, hc⟩ := hraises
    cases h' with
    | permitted h' => exact absurd h' (hc.denied _)
    | fault _ _ hends' hagain' =>
      obtain ⟨⟨t, b⟩, hout⟩ := Option.isSome_iff_exists.1 (hreturns errorCode 0 hc)
      have hf : FaultOf va acc _ (t, b) := ⟨errorCode, _, hc, hout⟩
      rcases hends _ hf with he | hr
      · rcases hends' _ hf with he' | hr'
        · rcases he with ⟨h1, -, h2⟩ | ⟨h1, -, h2⟩ <;> rcases he' with ⟨h3, -, h4⟩ | ⟨h3, -, h4⟩
          · exact ⟨_, h2, h4⟩
          · exact absurd (h1.symm.trans h3) (by decide)
          · exact absurd (h1.symm.trans h3) (by decide)
          · exact ⟨_, h2, h4⟩
        · exact absurd hr' he.not_returns
      · obtain ⟨rfl, hr⟩ := hr
        have ha : Again va acc _ t := ⟨t, hf, hr, .refl hr⟩
        exact ih t ha (hagain' t ha)

end AlwaysEnds

/-! ### The guest -/

/-- The guest tables grant the access, execution apart. -/
structure GuestRightsOk (pt : PtType) (s : Vcpu) (va : BitVec 64) (acc : Access) : Prop where
  present : (guestPte pt s va 1).hasBit 0 = true
  user : acc.user = true → GuestGrants pt s va 2
  write : acc.isWrite = true → GuestGrants pt s va 1 ∨ acc.user = false ∧ isWriteProtection s.vmcs = false

/-- The guest tables permit the access under the current CR0.WP. -/
def GuestPermits (pt : PtType) (s : Vcpu) (va : BitVec 64) (acc : Access) : Prop :=
  GuestRightsOk pt s va acc ∧ (acc.isFetch = true → ¬GuestNx pt s va)

/-- The page that the guest maps at `va`, if it is in a slot. -/
def guestFrame (pt : PtType) (s : Vcpu) (va : BitVec 64) : Option Pfn := gpaFrame s.kvm (guestGaddr pt s va)

/-- How the code ends an access. -/
def GuestOutcome (pt : PtType) (s : Vcpu) (va : BitVec 64) (acc : Access) : Outcome → Prop
  | .permitted f => GuestPermits pt s va acc ∧ guestFrame pt s va = some f
  | .emulated => GuestRightsOk pt s va acc ∧ guestFrame pt s va = none
  | .injected => ¬GuestRightsOk pt s va acc ∨ ¬GuestPermits pt s va acc ∧ (guestFrame pt s va).isSome = true

/-- How an access should end. -/
def RightOutcome (pt : PtType) (s : Vcpu) (va : BitVec 64) (acc : Access) : Outcome → Prop
  | .permitted f => GuestPermits pt s va acc ∧ guestFrame pt s va = some f
  | .emulated => GuestPermits pt s va acc ∧ guestFrame pt s va = none
  | .injected => ¬GuestPermits pt s va acc

/-- The guest tells an instruction fetch apart from a read only by the NX bit, and maps no page of a slot. -/
def NxOutsideSlots (pt : PtType) (s : Vcpu) (va : BitVec 64) (acc : Access) : Prop :=
  acc.isFetch = true ∧ GuestNx pt s va ∧ GuestRightsOk pt s va acc ∧ guestFrame pt s va = none

theorem rightOutcome_of_guestOutcome (hnx : ¬NxOutsideSlots pt s va acc) {o : Outcome} (h : GuestOutcome pt s va acc o) :
    RightOutcome pt s va acc o := by
  cases o with
  | permitted f => exact h
  | emulated =>
    obtain ⟨hok, hf⟩ := h
    exact ⟨⟨hok, fun hfetch hg => hnx ⟨hfetch, hg, hok, hf⟩⟩, hf⟩
  | injected =>
    rcases h with hok | ⟨hperm, -⟩
    · exact fun hperm => hok hperm.1
    · exact hperm

/-- In the excepted case the code emulates, and should inject. -/
theorem NxOutsideSlots.not_right (h : NxOutsideSlots pt s va acc) {o : Outcome} (ho : GuestOutcome pt s va acc o) :
    ¬RightOutcome pt s va acc o := by
  obtain ⟨hfetch, hg, hok, hf⟩ := h
  have hperm : ¬GuestPermits pt s va acc := fun hperm => hperm.2 hfetch hg
  cases o with
  | permitted f => exact fun hr => hperm hr.1
  | emulated => exact fun hr => hperm hr.1
  | injected =>
    rcases ho with hno | ⟨-, hsome⟩
    · exact absurd hok hno
    · rw [hf] at hsome
      cases hsome

theorem guestRightsOk_iff (hroot : 1 ≤ s.mmu.rootLevel) {e : BitVec 64} (h : LeafSound pt s va e) :
    GuestRightsOk pt s va acc ↔ (acc.user = true → e.hasBit 11 = true) ∧
      (acc.isWrite = true → e.hasBit 10 = true ∨ acc.user = false ∧ isWriteProtection s.vmcs = false) := by
  have hw : e.hasBit 10 = true ↔ GuestGrants pt s va 1 :=
    h.shadowWritable ▸ hasBit_leafRights s va hroot (Or.inl rfl) h.present
  have hu : e.hasBit 11 = true ↔ GuestGrants pt s va 2 :=
    h.shadowUser ▸ hasBit_leafRights s va hroot (Or.inr rfl) h.present
  rw [hw, hu]
  exact ⟨fun hr => ⟨hr.user, hr.write⟩, fun hr => ⟨h.present, hr.1, hr.2⟩⟩

namespace SameWalks

variable (h : SameWalks pt s s') (hroot : 1 ≤ s.mmu.rootLevel)
include h hroot

theorem hasBit_guestPte {k i : Nat} (hk : guestLevel pt s va ≤ k) (hk' : k ≤ s.mmu.rootLevel) (h5 : i ≠ 5) (h6 : i ≠ 6) :
    (guestPte pt s' va k).hasBit i = (guestPte pt s va k).hasBit i :=
  (h.guestPte_le va k ((@one_le_guestLevel pt s va hroot).trans hk) hk').eq i h5 h6

theorem guestGrants_iff {i : Nat} (h5 : i ≠ 5) (h6 : i ≠ 6) : GuestGrants pt s' va i ↔ GuestGrants pt s va i := by
  unfold GuestGrants
  rw [h.guestLevel_eq, h.rootLevel, h.longMode]
  exact forall₃_congr fun k hk hk' => by rw [h.hasBit_guestPte hroot hk hk' h5 h6]

theorem guestNx_iff : GuestNx pt s' va ↔ GuestNx pt s va := by
  unfold GuestNx
  rw [h.guestLevel_eq, h.rootLevel, h.longMode]
  refine exists_congr fun k => and_congr_right fun hk => and_congr_right fun hk' => ?_
  rw [h.hasBit_guestPte hroot hk hk' (by decide) (by decide)]

theorem guestRightsOk_iff : GuestRightsOk pt s' va acc ↔ GuestRightsOk pt s va acc := by
  have hp := h.present_iff hroot va
  have hw : GuestGrants pt s' va 1 ↔ GuestGrants pt s va 1 := h.guestGrants_iff hroot (by decide) (by decide)
  have hu : GuestGrants pt s' va 2 ↔ GuestGrants pt s va 2 := h.guestGrants_iff hroot (by decide) (by decide)
  constructor
  · intro hr
    exact ⟨hp.symm.trans hr.present, fun hacc => hu.1 (hr.user hacc), fun hacc => by
      rw [← hw, ← h.writeProtection]
      exact hr.write hacc⟩
  · intro hr
    exact ⟨hp.trans hr.present, fun hacc => hu.2 (hr.user hacc), fun hacc => by
      rw [hw, h.writeProtection]
      exact hr.write hacc⟩

theorem guestFrame_eq : guestFrame pt s' va = guestFrame pt s va := by
  unfold guestFrame
  rw [h.guestGaddr_eq hroot, h.gpaFrame_eq]

/-- Walks that agree give the same outcomes. -/
theorem guestOutcome_iff (o : Outcome) : GuestOutcome pt s' va acc o ↔ GuestOutcome pt s va acc o := by
  have hok : GuestRightsOk pt s' va acc ↔ GuestRightsOk pt s va acc := h.guestRightsOk_iff hroot
  have hnx : GuestNx pt s' va ↔ GuestNx pt s va := h.guestNx_iff hroot
  have hframe : guestFrame pt s' va = guestFrame pt s va := h.guestFrame_eq hroot
  cases o <;> simp only [GuestOutcome, GuestPermits, hok, hnx, hframe]

theorem nxOutsideSlots_iff : NxOutsideSlots pt s' va acc ↔ NxOutsideSlots pt s va acc := by
  unfold NxOutsideSlots
  rw [h.guestNx_iff hroot, h.guestRightsOk_iff hroot, h.guestFrame_eq hroot]

end SameWalks

/-! ### The shadow tables -/

namespace PagingInv

/-- What the processor finds at an entry of level one. -/
theorem cpuPermits_iff (h : PagingInv pool D s) (hD : va ∈ D) {p : Pfn} (hp : OnPath s va 1 p)
    (he : (s.shadow p (pt64Index va 1)).hasBit 0 = true) (f : Pfn) :
    CpuPermits s va acc f ↔ frameOf (s.shadow p (pt64Index va 1)) = f ∧
      (acc.user = true → (s.shadow p (pt64Index va 1)).hasBit 2 = true) ∧
      (acc.isWrite = true → (s.shadow p (pt64Index va 1)).hasBit 1 = true) ∧
      (acc.isFetch = true → ¬GuestNx s.mmu.ops.ptType s va) := by
  obtain ⟨lvl, r, hinv⟩ := h.inv
  have hne := BitVec.ne_zero_of_hasBit he
  have hleaf := h.sound.leaf va p hD hp hne
  have hnx := h.sound.nx_iff hinv h.isFor hD hp hne
  -- the entries above level one give all rights
  have hrights : ∀ i, i = 1 ∨ i = 2 → (s.shadow p (pt64Index va 1)).hasBit i = true →
      ∀ l q, OnPath s va l q → l ≠ 3 ∨ isLongMode s.vmcs = true → (s.shadow q (pt64Index va l)).hasBit i = true := by
    intro i hi hbit l q hq hl
    match l, hinv.pos_of_onPath hq with
    | 1, _ => rwa [hq.page_unique hp]
    | l + 2, _ =>
      obtain ⟨x, hx, hpres⟩ := hp.above (l + 2) (by omega) hq.level_le
      obtain rfl := hx.page_unique hq
      have := (h.sound.upper va l x hx (hpres (by omega)) hleaf.present).rights hl
      rcases hi with rfl | rfl
      · exact this.1
      · exact this.2
  constructor
  · intro hc
    obtain ⟨q, hq, -, hf⟩ := hc.mapped
    rw [hq.page_unique hp] at hf
    exact ⟨hf, fun hu => hc.user hu 1 p hp (Or.inl (by decide)), fun hw => hc.write hw 1 p hp (Or.inl (by decide)),
      fun hx hn => hc.fetch hx (hnx.2 hn)⟩
  · rintro ⟨hf, hu, hw, hx⟩
    exact ⟨⟨p, hp, he, hf⟩, fun hacc => hrights 2 (Or.inr rfl) (hu hacc), fun hacc => hrights 1 (Or.inl rfl) (hw hacc),
      fun hacc hn => hx hacc (hnx.1 hn)⟩

/-- What the processor permits, the guest permits. -/
theorem guestOutcome_of_cpuPermits (h : PagingInv pool D s) (hD : va ∈ D) {f : Pfn} (hc : CpuPermits s va acc f) :
    GuestOutcome s.mmu.ops.ptType s va acc (.permitted f) := by
  obtain ⟨p, hp, he, -⟩ := hc.mapped
  obtain ⟨hf, hu, hw, hx⟩ := (h.cpuPermits_iff hD hp he f).1 hc
  have hleaf := h.sound.leaf va p hD hp (BitVec.ne_zero_of_hasBit he)
  refine ⟨⟨(guestRightsOk_iff h.isFor.one_le_rootLevel hleaf).2 ⟨fun hacc => hleaf.user (hu hacc), fun hacc => ?_⟩, hx⟩, ?_⟩
  · rcases hleaf.writable (hw hacc) with h10 | ⟨hwp, h2⟩
    · exact Or.inl h10
    · refine Or.inr ⟨Bool.eq_false_iff.2 fun huser => ?_, hwp⟩
      rw [hu huser] at h2
      cases h2
  · obtain ⟨g, hg⟩ := Option.isSome_iff_exists.1 (hleaf.mapped.symm.trans he)
    rw [← hf, hleaf.frame g hg]
    exact hg

end PagingInv

end LearnKvm
