import LearnKvm.Mmu.Conservation

/-!
# The retry loops of the fault handlers

A fault handler looks up the shadow entry of the faulting address and starts over with an empty tree when no shadow
page is left.  `attempt` is one iteration of this loop.  It fails only if there are fewer than three free pages, and
takes at most three (`attempt_spec`); after `nonpaging_flush` every page but the root is free (`nonpagingFlush_flushed`),
so the second iteration is the last.
-/

namespace LearnKvm

variable {pool : List Pfn} {lvl : Pfn → Nat} {r : Pfn} {s : Vcpu} {addr : BitVec 64}

/-- `fetch` with its result cut down to whether it found the pages it needed. -/
def fetchAttempt (pt : PtType) (s : Vcpu) (addr : BitVec 64) : Vcpu × Bool :=
  ((fetch pt s addr (initWalker s)).1, decide ((fetch pt s addr (initWalker s)).2.2 ≠ .enomem))

def nonpagingAttempt (s : Vcpu) (addr : BitVec 64) : Vcpu × Bool :=
  if isErrorHpa (gpaToHpa s.kvm (addr &&& pt64BaseAddrMask)) then (s, true)
  else nonpagingMap (addr &&& pageMask) (gpaToHpa s.kvm (addr &&& pt64BaseAddrMask)) 3 s (rootPage s)

/-- One iteration of the loop of the fault handler: the state it leaves, and `false` if no shadow page was left. -/
def attempt (s : Vcpu) (addr : BitVec 64) : Vcpu × Bool :=
  match s.mmu.ops with
  | .nonpaging => nonpagingAttempt s addr
  | .paging64 => fetchAttempt .pt64 s addr
  | .paging32 => fetchAttempt .pt32 s addr

/-! ### The loop in terms of its iterations -/

theorem fetchRetry_attempt (pt : PtType) (s : Vcpu) (addr : BitVec 64) :
    ((fetchAttempt pt s addr).2 = true → ∃ out, ∀ fuel, fetchRetry pt addr (fuel + 1) s = some out) ∧
      ((fetchAttempt pt s addr).2 = false → ∀ fuel, fetchRetry pt addr (fuel + 1) s =
        fetchRetry pt addr fuel (nonpagingFlush (fetchAttempt pt s addr).1)) := by
  unfold fetchAttempt
  simp only [fetchRetry]
  generalize fetch pt s addr (initWalker s) = out
  obtain ⟨s1, walker, res⟩ := out
  cases res with
  | enomem => exact ⟨fun h => by simp at h, fun _ _ => rfl⟩
  | null => exact ⟨fun _ => ⟨_, fun _ => rfl⟩, fun h => by simp at h⟩
  | pte ptr => exact ⟨fun _ => ⟨_, fun _ => rfl⟩, fun h => by simp at h⟩

theorem pageFault_attempt (pt : PtType) (s : Vcpu) (addr : BitVec 64) (errorCode : BitVec 32) :
    ((fetchAttempt pt s addr).2 = true → ∃ out, ∀ fuel, pageFault pt s addr errorCode (fuel + 1) = some out) ∧
      ((fetchAttempt pt s addr).2 = false → ∀ fuel, pageFault pt s addr errorCode (fuel + 1) =
        pageFault pt (nonpagingFlush (fetchAttempt pt s addr).1) addr errorCode fuel) := by
  obtain ⟨hdone, hagain⟩ := fetchRetry_attempt pt s addr
  unfold pageFault
  refine ⟨fun h => ?_, fun h fuel => by rw [hagain h]⟩
  obtain ⟨⟨s1, walker, shadowPte⟩, hout⟩ := hdone h
  exact ⟨_, fun fuel => by rw [hout]⟩

theorem nonpagingPageFault_attempt (s : Vcpu) (addr : BitVec 64) :
    ((nonpagingAttempt s addr).2 = true → ∃ out, ∀ fuel, nonpagingPageFault addr (fuel + 1) s = some out) ∧
      ((nonpagingAttempt s addr).2 = false → ∀ fuel, nonpagingPageFault addr (fuel + 1) s =
        nonpagingPageFault addr fuel (nonpagingFlush (nonpagingAttempt s addr).1)) := by
  unfold nonpagingAttempt
  simp only [nonpagingPageFault]
  split
  · exact ⟨fun _ => ⟨_, fun _ => rfl⟩, fun h => by cases h⟩
  · generalize nonpagingMap (addr &&& pageMask) _ 3 s (rootPage s) = out
    obtain ⟨s1, ok⟩ := out
    cases ok with
    | true => exact ⟨fun _ => ⟨_, fun _ => rfl⟩, fun h => by cases h⟩
    | false => exact ⟨fun h => (by cases h), fun _ _ => rfl⟩

/-- An iteration that succeeds is the last; after one that fails the loop goes on from the flushed state. -/
theorem mmuPageFault_attempt (s : Vcpu) (addr : BitVec 64) (errorCode : BitVec 32)
    (hops : (nonpagingFlush (attempt s addr).1).mmu.ops = s.mmu.ops) :
    ((attempt s addr).2 = true → ∃ out, ∀ fuel, mmuPageFault s addr errorCode (fuel + 1) = some out) ∧
      ((attempt s addr).2 = false → ∀ fuel, mmuPageFault s addr errorCode (fuel + 1) =
        mmuPageFault (nonpagingFlush (attempt s addr).1) addr errorCode fuel) := by
  unfold mmuPageFault
  rw [hops]
  unfold attempt
  cases s.mmu.ops with
  | nonpaging => exact nonpagingPageFault_attempt s addr
  | paging64 => exact pageFault_attempt .pt64 s addr errorCode
  | paging32 => exact pageFault_attempt .pt32 s addr errorCode

/-! ### The pages that an iteration takes -/

/-- What an iteration keeps, and the pages it needs. -/
structure AttemptSpec (pool : List Pfn) (r : Pfn) (s : Vcpu) (out : Vcpu × Bool) : Prop where
  inv : ∃ lvl, MmuInv pool lvl r out.1
  mmu : out.1.mmu = s.mmu
  fails : out.2 = false → s.freePages.length < 3
  taken : s.freePages.length ≤ out.1.freePages.length + 3

theorem fetchAttempt_spec {pt : PtType} (h : MmuInv pool lvl r s) (hpool : pool ≠ []) (hfor : s.mmu.IsFor pt)
    (addr : BitVec 64) : AttemptSpec pool r s (fetchAttempt pt s addr) := by
  obtain ⟨hspec, hpages, htaken⟩ := @fetch_spec _ _ _ _ _ addr hpool h hfor
  refine ⟨hspec.inv, hspec.mmu, fun hn => hpages ?_, htaken⟩
  unfold fetchAttempt at hn
  simpa using hn

theorem nonpagingAttempt_spec (h : MmuInv pool lvl r s) (hpool : pool ≠ []) (hnp : s.mmu.shadowRootLevel = 3)
    (addr : BitVec 64) : AttemptSpec pool r s (nonpagingAttempt s addr) := by
  unfold nonpagingAttempt
  split
  · exact ⟨⟨lvl, h⟩, rfl, fun hn => (by cases hn), Nat.le_add_right _ _⟩
  · rw [h.rootPage_eq]
    obtain ⟨-, h1, h2, h3, h4⟩ := nonpagingMap_spec (addr &&& pageMask) (gpaToHpa s.kvm (addr &&& pt64BaseAddrMask))
      hpool h (hnp ▸ OnPath.root h.root)
    refine ⟨h1, h2, fun hn => ?_, by omega⟩
    have := h3 hn
    omega

theorem attempt_spec (h : MmuInv pool lvl r s) (hpool : pool ≠ []) (addr : BitVec 64) :
    AttemptSpec pool r s (attempt s addr) := by
  have hlev := h.levels
  have hfor := h.levels.isFor
  unfold attempt
  unfold KvmMmu.LevelsOk at hlev
  cases hops : s.mmu.ops with
  | nonpaging =>
    rw [hops] at hlev
    exact nonpagingAttempt_spec h hpool hlev.2 addr
  | paging64 =>
    rw [hops] at hfor
    exact fetchAttempt_spec h hpool (hfor (by decide)) addr
  | paging32 =>
    rw [hops] at hfor
    exact fetchAttempt_spec h hpool (hfor (by decide)) addr

/-! ### Starting over -/

/-- `s'` has a root page, and all other pages of `s` are free; none is lost. -/
def Flushed (s s' : Vcpu) : Prop :=
  ∃ q, s'.mmu.rootHpa = some q ∧ s'.kvm.activeMmuPages = [q] ∧
    (q :: s'.freePages).Perm (s.freePages ++ s.kvm.activeMmuPages) ∧ s'.freePages.length + 1 = kvmNumMmuPages

theorem nonpagingFlush_flushed (h : MmuInv pool lvl r s) (hpool : pool.length = kvmNumMmuPages) :
    Flushed s (nonpagingFlush s) := by
  obtain ⟨lvl', q, h1, h2, -⟩ := nonpagingFlush_spec h (List.ne_nil_of_length_pos (hpool ▸ by decide))
  refine ⟨q, h2.root, h2.active, ?_, h2.length.trans hpool⟩
  have hperm := h1.tables.perm
  rw [h2.active] at hperm
  exact (List.perm_append_singleton q _).symm.trans (hperm.trans h.tables.perm.symm)

/-- **The fault handlers start over at most once.**  An iteration takes at most three shadow pages; when it fails, the
flush finds a root page and makes all others free, and the next iteration succeeds.  Two rounds of fuel are enough for
every fault. -/
theorem retry_terminates (hs : MmuReachable s) (addr : BitVec 64) (errorCode : BitVec 32) :
    (∃ out, ∀ fuel, mmuPageFault s addr errorCode (fuel + 2) = some out) ∧
      s.freePages.length ≤ (attempt s addr).1.freePages.length + 3 ∧
      Flushed s (nonpagingFlush s) ∧ Flushed s (nonpagingFlush (attempt s addr).1) ∧
      (attempt (nonpagingFlush (attempt s addr).1) addr).2 = true := by
  obtain ⟨pool, lvl, r, h, hlen⟩ := hs.inv
  have hpool : pool ≠ [] := List.ne_nil_of_length_pos (by omega)
  have h1 := attempt_spec h hpool addr
  obtain ⟨lvl1, hinv1⟩ := h1.inv
  have hflush := nonpagingFlush_flushed hinv1 hlen
  obtain ⟨lvl2, q, hinv2, hnew, hmmu⟩ := nonpagingFlush_spec hinv1 hpool
  have hops : (nonpagingFlush (attempt s addr).1).mmu.ops = s.mmu.ops := by
    rw [hmmu, h1.mmu]
  have h2 := attempt_spec hinv2 hpool addr
  have hsecond : (attempt (nonpagingFlush (attempt s addr).1) addr).2 = true := by
    by_contra hn
    have := h2.fails (Bool.eq_false_iff.2 hn)
    have := hnew.length
    omega
  refine ⟨?_, h1.taken, nonpagingFlush_flushed h hlen, ?_, hsecond⟩
  · obtain ⟨hdone, hagain⟩ := mmuPageFault_attempt s addr errorCode hops
    cases hfirst : (attempt s addr).2 with
    | true =>
      obtain ⟨out, hout⟩ := hdone hfirst
      exact ⟨out, fun fuel => hout (fuel + 1)⟩
    | false =>
      obtain ⟨lvl3, hinv3⟩ := h2.inv
      obtain ⟨lvl4, q', -, -, hmmu4⟩ := nonpagingFlush_spec hinv3 hpool
      obtain ⟨out, hout⟩ := (mmuPageFault_attempt (nonpagingFlush (attempt s addr).1) addr errorCode
        (by rw [hmmu4, h2.mmu])).1 hsecond
      exact ⟨out, fun fuel => (hagain hfirst (fuel + 1)).trans (hout fuel)⟩
  · obtain ⟨q, hroot, hact, hperm, hlength⟩ := hflush
    exact ⟨q, hroot, hact, hperm.trans (hinv1.tables.perm.trans h.tables.perm.symm), hlength⟩

theorem retry_terminates_reset :
    (∃ out, ∀ fuel, mmuPageFault (kvmMmuResetContext (kvmMmuInit somePages default).1) 0x1000 0 (fuel + 2) = some out) ∧
      Flushed (kvmMmuResetContext (kvmMmuInit somePages default).1)
        (nonpagingFlush (kvmMmuResetContext (kvmMmuInit somePages default).1)) := by
  have h := retry_terminates (s := kvmMmuResetContext (kvmMmuInit somePages default).1)
    ⟨somePages, default, _, somePages_injective, rfl, rfl, rfl, kvmMmuInit_of_alloc (fun _ => rfl) default,
      .single (.resetContext _)⟩ 0x1000 0
  exact ⟨h.1, h.2.2.1⟩

end LearnKvm
