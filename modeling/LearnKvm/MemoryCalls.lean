import Mathlib.Logic.Relation
import LearnKvm.RegionAccounting

/-!
# Concurrent calls on the memory of a machine

Several threads call KVM_SET_MEMORY_REGION and KVM_GET_DIRTY_LOG.  A call is at one of the places of `MemCall`; between
two places it runs without another thread being able to see a difference, and `MemCall.step` takes it from one to the
next.  A section under `kvm->lock` is one step.

`MemSystem.commits` counts the commits so far, and a call remembers the count of its checks: both are only there to say
what the version counter can tell.  `kvm->memory_config_version` has 32 bits, so it detects a commit of another call if
fewer than `2 ^ 32` of them have happened since the checks (`FewCommits`).  Then a commit finds the slots as its checks
have found them, and the slots stay disjoint (`memslots_disjoint`).
-/

namespace LearnKvm

open Relation

/-! ### Threads -/

/-- Where a call is. -/
inductive MemCall where
  /-- KVM_SET_MEMORY_REGION at the label `raced`. -/
  | raced (mem : KvmMemoryRegion) (slot : Fin 4)
  /-- The checks have passed; `start` is the number of commits before. -/
  | checked (mem : KvmMemoryRegion) (slot : Fin 4) (old : KvmMemorySlot) (version : BitVec 32) (start : Nat)
  /-- The allocations are over, and the lock is to be taken again. -/
  | allocated (mem : KvmMemoryRegion) (slot : Fin 4) (old : KvmMemorySlot) (x : Allocated) (version : BitVec 32)
      (start : Nat)
  /-- The slot has been replaced, and the contexts of the MMU are to be reset. -/
  | committed (old new : KvmMemorySlot)
  /-- The old memory is to be freed. -/
  | reset (old new : KvmMemorySlot)
  /-- KVM_GET_DIRTY_LOG after `++kvm->busy`. -/
  | logBusy (slot : BitVec 32)
  /-- The bitmap, which has `n` bytes, has been searched for a bit. -/
  | logScanned (slot : Fin 4) (n : Nat) (any : Bool)
  /-- The bitmap has been copied to user space. -/
  | logCopied (slot : Fin 4) (n : Nat) (log : Nat → Bool)
  /-- Write access has been removed. -/
  | logProtected (slot : Fin 4) (n : Nat) (log : Nat → Bool)
  /-- The bitmap has been cleared, and the TLB is to be flushed. -/
  | logCleared (slot : Fin 4) (log : Nat → Bool)
  /-- KVM_GET_DIRTY_LOG at the label `out`. -/
  | logOut (r : Int) (log : Option (Nat → Bool))
  | returned (r : Int) (log : Option (Nat → Bool))

structure MemSystem where
  kvm : Kvm
  /-- The memory that is allocated. -/
  live : List Resource
  /-- The number of commits so far. -/
  commits : Nat
  calls : Nat → Option MemCall

/-- A machine as `kvm_dev_open` leaves it. -/
def MemSystem.opened : MemSystem where
  kvm := default
  live := []
  commits := 0
  calls := fun _ => none

namespace MemSystem

def setCall (s : MemSystem) (t : Nat) (c : MemCall) : MemSystem :=
  { s with calls := Function.update s.calls t (some c) }

@[simp] theorem setCall_self (s : MemSystem) (t : Nat) (c : MemCall) : (s.setCall t c).calls t = some c :=
  Function.update_self ..

theorem setCall_of_ne {s : MemSystem} {t u : Nat} {c : MemCall} (h : u ≠ t) : (s.setCall t c).calls u = s.calls u :=
  Function.update_of_ne h ..

/-- The thread is not in a call. -/
def Free (s : MemSystem) (t : Nat) : Prop := ∀ c, s.calls t = some c → ∃ r log, c = .returned r log

end MemSystem

/-- The effect of an operation on what is allocated. -/
def HeapOp.run (live : List Resource) : HeapOp → List Resource
  | allocPage p => .page p :: live
  | freePage none => live
  | freePage (some p) => live.erase (.page p)
  | vmalloc a => .array a :: live
  | vfree a => live.erase (.array a)

def runOps (live : List Resource) (ops : List HeapOp) : List Resource := ops.foldl HeapOp.run live

/-- The allocators return memory that is not in use. -/
structure RegionAllocs.Fresh (allocs : RegionAllocs) (live : List Resource) : Prop where
  array : ∀ a, allocs.array = some a → Resource.array a ∉ live
  bitmap : ∀ b, allocs.bitmap = some b → Resource.array b ∉ live ∧ allocs.array ≠ some b
  page : ∀ i p, allocs.page i = some p → Resource.page p ∉ live
  pages : ∀ i j p, allocs.page i = some p → allocs.page j = some p → i = j

/-! ### The dirty log -/

/-- The number of bytes of the bitmap, an `int`. -/
def logBytes (slot : KvmMemorySlot) : Nat := (BitVec.ofNat 32 ((slot.npages + 7) / 8)).toInt.toNat

/-- `dirty_bitmap[i]`, an `unsigned long`, is not zero. -/
def bitmapWord (bits : Nat → Bool) (i : Nat) : Bool := (List.range 64).any fun k => bits (64 * i + k)

/-- The loop over `dirty_bitmap[i]` finds a word that is not zero; it takes the number of bytes for the number of words. -/
def scanBitmap (kvm : Kvm) (slot : KvmMemorySlot) (n : Nat) : Bool :=
  (List.range n).any (bitmapWord (kvm.bitmap slot.dirtyBitmap))

def copyBitmap (kvm : Kvm) (slot : KvmMemorySlot) (n nr : Nat) : Bool :=
  decide (nr < 8 * n) && kvm.bitmap slot.dirtyBitmap nr

/-- `memset(memslot->dirty_bitmap, 0, n)`. -/
def clearBitmap (kvm : Kvm) (slot : KvmMemorySlot) (n : Nat) : Kvm :=
  { kvm with bitmap := fun b nr => if b = slot.dirtyBitmap ∧ nr < 8 * n then false else kvm.bitmap b nr }

/-! ### Steps -/

/-- A thread starts KVM_SET_MEMORY_REGION. -/
def MemSystem.setMemoryRegion (s : MemSystem) (t : Nat) (mem : KvmMemoryRegion) : MemSystem :=
  match mem.sanityChecks with
  | none => s.setCall t (.returned (-einval) none)
  | some slot => s.setCall t (.raced mem slot)

/-- A thread starts KVM_GET_DIRTY_LOG. -/
def MemSystem.getDirtyLog (s : MemSystem) (t : Nat) (slot : BitVec 32) : MemSystem :=
  { s with kvm := { s.kvm with busy := s.kvm.busy + 1#32 } }.setCall t (.logBusy slot)

/-- The call of the thread `t` goes on; `allocs` are the results of its allocations, `copied` that of `copy_to_user`. -/
def MemCall.step (s : MemSystem) (t : Nat) (allocs : RegionAllocs) (copied : Bool) : MemCall → MemSystem
  | raced mem slot =>
    match checkRegion s.kvm mem slot with
    | some r =>
      let old := s.kvm.memslots slot
      { s with live := runOps s.live (kvmFreePhysmemSlot (fun _ => none) (newSlot mem old) (some old)) }.setCall t
        (.returned r none)
    | none => s.setCall t (.checked mem slot (s.kvm.memslots slot) s.kvm.memoryConfigVersion s.commits)
  | checked mem slot old version start =>
    let x := allocRegion allocs (newSlot mem old)
    { s with kvm := x.store old s.kvm, live := runOps s.live x.ops }.setCall t (.allocated mem slot old x version start)
  | allocated mem slot old x version _ =>
    let cleaned := { s with live := runOps s.live (kvmFreePhysmemSlot (fun i => x.pages[i]?) x.slot (some old)) }
    if !x.ok then cleaned.setCall t (.returned (-enomem) none)
    else if version != s.kvm.memoryConfigVersion then cleaned.setCall t (.raced mem slot)
    else if s.kvm.busy != 0 then cleaned.setCall t (.returned (-eagain) none)
    else
      { s with kvm := commitRegion s.kvm slot x.slot, commits := s.commits + 1 }.setCall t (.committed old x.slot)
  | committed old new => s.setCall t (.reset old new)
  | reset old new =>
    let ops := kvmFreePhysmemSlot (fun i => some (s.kvm.pageArray old.physMem i)) old (some new)
    { s with live := runOps s.live ops }.setCall t (.returned 0 none)
  | logBusy slot =>
    if h : kvmMemorySlots ≤ slot.toNat then s.setCall t (.logOut (-einval) none)
    else
      let i : Fin 4 := ⟨slot.toNat, Nat.lt_of_not_le h⟩
      if (s.kvm.memslots i).dirtyBitmap = 0 then s.setCall t (.logOut (-enoent) none)
      else
        let n := logBytes (s.kvm.memslots i)
        s.setCall t (.logScanned i n (scanBitmap s.kvm (s.kvm.memslots i) n))
  | logScanned slot n any =>
    let log := copyBitmap s.kvm (s.kvm.memslots slot) n
    if !copied then s.setCall t (.logOut (-efault) none)
    else if any then s.setCall t (.logCopied slot n log)
    else s.setCall t (.logOut 0 (some log))
  | logCopied slot n log => s.setCall t (.logProtected slot n log)
  | logProtected slot n log =>
    { s with kvm := clearBitmap s.kvm (s.kvm.memslots slot) n }.setCall t (.logCleared slot log)
  | logCleared _ log => s.setCall t (.logOut 0 (some log))
  | logOut r log => { s with kvm := { s.kvm with busy := s.kvm.busy - 1#32 } }.setCall t (.returned r log)
  | returned r log => s.setCall t (.returned r log)

/-- A thread starts a call or goes on with it, or the vcpu marks pages dirty and changes shadow pages. -/
inductive MemStep : MemSystem → MemSystem → Prop
  | setMemoryRegion {s : MemSystem} {t : Nat} (mem : KvmMemoryRegion) (h : s.Free t) : MemStep s (s.setMemoryRegion t mem)
  | getDirtyLog {s : MemSystem} {t : Nat} (slot : BitVec 32) (h : s.Free t) : MemStep s (s.getDirtyLog t slot)
  | call {s : MemSystem} {t : Nat} {c : MemCall} {allocs : RegionAllocs} (copied : Bool) (h : s.calls t = some c)
      (hfresh : allocs.Fresh s.live) : MemStep s (c.step s t allocs copied)
  | vcpu (s : MemSystem) (bitmap : Nat → Nat → Bool) (pages : List Pfn) :
      MemStep s { s with kvm := { s.kvm with bitmap := bitmap, activeMmuPages := pages } }

/-- The steps of the threads. -/
inductive ThreadStep : MemSystem → MemSystem → Prop
  | setMemoryRegion {s : MemSystem} {t : Nat} (mem : KvmMemoryRegion) (h : s.Free t) :
      ThreadStep s (s.setMemoryRegion t mem)
  | getDirtyLog {s : MemSystem} {t : Nat} (slot : BitVec 32) (h : s.Free t) : ThreadStep s (s.getDirtyLog t slot)
  | call {s : MemSystem} {t : Nat} {c : MemCall} {allocs : RegionAllocs} (copied : Bool) (h : s.calls t = some c)
      (hfresh : allocs.Fresh s.live) : ThreadStep s (c.step s t allocs copied)

theorem ThreadStep.memStep {s s' : MemSystem} (h : ThreadStep s s') : MemStep s s' := by
  cases h with
  | setMemoryRegion mem h => exact .setMemoryRegion mem h
  | getDirtyLog slot h => exact .getDirtyLog slot h
  | call copied h hfresh => exact .call copied h hfresh

/-- The number of commits before the checks of a call that has not committed yet. -/
def MemCall.start : MemCall → Option Nat
  | checked _ _ _ _ start => some start
  | allocated _ _ _ _ _ start => some start
  | _ => none

/-- Fewer than `2 ^ 32` commits have happened since the checks of any call. -/
def FewCommits (s : MemSystem) : Prop :=
  ∀ t c start, s.calls t = some c → c.start = some start → s.commits < start + 2 ^ 32

/-- A run in which the version counter does not come round during a call. -/
def MemRun : MemSystem → MemSystem → Prop := ReflTransGen fun s s' => MemStep s s' ∧ FewCommits s

/-! ### The invariant -/

/-- The frames of a slot have no wrap-around, and no two slots share a frame. -/
structure SlotsDisjoint (memslots : Fin 4 → KvmMemorySlot) : Prop where
  bound : ∀ i, (memslots i).baseGfn + (memslots i).npages < 2 ^ 53
  disjoint : ∀ i j, i ≠ j → ∀ gfn, (memslots i).contains gfn = true → (memslots j).contains gfn = false

/-- A call that has made its checks: the version is the number of commits before them, and without a later commit the
checks still hold. -/
structure Checked (s : MemSystem) (mem : KvmMemoryRegion) (slot : Fin 4) (old : KvmMemorySlot) (version : BitVec 32)
    (before : Nat) : Prop where
  start : before ≤ s.commits
  version : version = BitVec.ofNat 32 before
  current : before = s.commits → s.kvm.memslots slot = old ∧ checkRegion s.kvm mem slot = none

/-- What holds of a call at each place. -/
def CallChecked (s : MemSystem) : MemCall → Prop
  | .checked mem slot old version start => Checked s mem slot old version start
  | .allocated mem slot old x version start => Checked s mem slot old version start ∧
      ∃ allocs, x = allocRegion allocs (newSlot mem old)
  | _ => True

structure MemInv (s : MemSystem) : Prop where
  version : s.kvm.memoryConfigVersion = BitVec.ofNat 32 s.commits
  slots : SlotsDisjoint s.kvm.memslots
  nmemslots : ∀ i : Fin 4, 0 < (s.kvm.memslots i).npages → i.val < s.kvm.nmemslots
  calls : ∀ t c, s.calls t = some c → CallChecked s c

theorem memInv_opened : MemInv .opened := by
  have hslot : ∀ i, MemSystem.opened.kvm.memslots i =
      { baseGfn := 0, npages := 0, flags := 0, physMem := 0, dirtyBitmap := 0 } := fun _ => rfl
  refine ⟨rfl, ⟨fun i => ?_, fun i j _ gfn _ => ?_⟩, fun i h => ?_, fun t c h => by cases h⟩
  · rw [hslot]
    decide
  · rw [hslot]
    simp [KvmMemorySlot.contains]
  · rw [hslot] at h
    exact absurd h (by decide)

variable {s s' : MemSystem} {t : Nat} {c : MemCall}

/-- The checks look only at the slots. -/
theorem checkRegion_congr {kvm kvm' : Kvm} (h : kvm'.memslots = kvm.memslots) (mem : KvmMemoryRegion) (slot : Fin 4) :
    checkRegion kvm' mem slot = checkRegion kvm mem slot := by
  unfold checkRegion
  rw [h]

/-- The memory configuration and the counter of commits are the same. -/
structure SameConfig (s s' : MemSystem) : Prop where
  nmemslots : s'.kvm.nmemslots = s.kvm.nmemslots
  memslots : s'.kvm.memslots = s.kvm.memslots
  version : s'.kvm.memoryConfigVersion = s.kvm.memoryConfigVersion
  commits : s'.commits = s.commits

theorem CallChecked.congr (h : SameConfig s s') (hc : CallChecked s c) : CallChecked s' c := by
  have hchecked : ∀ {mem slot old version start}, Checked s mem slot old version start →
      Checked s' mem slot old version start := by
    rintro mem slot old version start ⟨h1, h2, h3⟩
    refine ⟨by rw [h.commits]; exact h1, h2, fun h0 => ?_⟩
    rw [h.memslots, checkRegion_congr h.memslots]
    exact h3 (h0.trans h.commits)
  cases c with
  | checked => exact hchecked hc
  | allocated => exact ⟨hchecked hc.1, hc.2⟩
  | _ => trivial

/-- A step that keeps the configuration and moves one call. -/
theorem MemInv.move (hi : MemInv s) (h : SameConfig s s') (hcalls : ∀ u, u ≠ t → s'.calls u = s.calls u)
    (hc : ∀ c, s'.calls t = some c → CallChecked s c) : MemInv s' := by
  refine ⟨by rw [h.version, h.commits]; exact hi.version, by rw [h.memslots]; exact hi.slots, fun i hpos => ?_,
    fun u c hu => ?_⟩
  · rw [h.memslots] at hpos
    rw [h.nmemslots]
    exact hi.nmemslots i hpos
  · refine CallChecked.congr h ?_
    by_cases hut : u = t
    · subst hut
      exact hc c hu
    · rw [hcalls u hut] at hu
      exact hi.calls u c hu

theorem MemInv.setCall (hi : MemInv s) {s1 : MemSystem} (h : SameConfig s s1) (hcalls : s1.calls = s.calls)
    (hc : CallChecked s c) : MemInv (s1.setCall t c) := by
  refine hi.move (t := t) ⟨h.nmemslots, h.memslots, h.version, h.commits⟩ (fun u hu => ?_) fun c' hc' => ?_
  · rw [MemSystem.setCall_of_ne hu, hcalls]
  · rw [MemSystem.setCall_self] at hc'
    obtain rfl := Option.some.inj hc'
    exact hc

/-! ### The commit -/

theorem gfnOf_lt (gpa : BitVec 64) : gfnOf gpa < 2 ^ 52 := by
  unfold gfnOf pageShift
  rw [BitVec.toNat_ushiftRight, Nat.shiftRight_eq_div_pow]
  have := gpa.isLt
  omega

/-- The new slot has no frame of a slot that it does not overlap. -/
theorem disjoint_of_not_overlaps {mem : KvmMemoryRegion} {new slot : KvmMemorySlot} (hbase : new.baseGfn = mem.baseGfn)
    (hnpages : new.npages = mem.npages) (hbound : slot.baseGfn + slot.npages < 2 ^ 53)
    (h : regionOverlaps mem slot = false) (gfn : Nat) :
    ¬(new.contains gfn = true ∧ slot.contains gfn = true) := by
  have hb : mem.baseGfn < 2 ^ 52 := gfnOf_lt _
  have hn : mem.npages < 2 ^ 52 := gfnOf_lt _
  unfold regionOverlaps at h
  simp only [Bool.not_eq_false', Bool.or_eq_true, decide_eq_true_eq] at h
  unfold KvmMemorySlot.contains
  simp only [Bool.and_eq_true, decide_eq_true_eq]
  rw [hbase, hnpages]
  -- the sums do not wrap around
  rw [Nat.mod_eq_of_lt (by omega), Nat.mod_eq_of_lt (by omega)] at h
  omega

theorem not_overlaps_of_checkRegion {kvm : Kvm} {mem : KvmMemoryRegion} {slot i : Fin 4}
    (h : checkRegion kvm mem slot = none) (hi : i ≠ slot) : regionOverlaps mem (kvm.memslots i) = false := by
  unfold checkRegion at h
  dsimp only at h
  split at h
  · cases h
  · split at h
    · cases h
    · rename_i hany
      rw [Bool.not_eq_true, List.any_eq_false] at hany
      have := hany i (List.mem_finRange i)
      simpa [hi] using this

/-- A slot that passes the checks can replace the old one. -/
theorem SlotsDisjoint.update {kvm : Kvm} {mem : KvmMemoryRegion} {slot : Fin 4} {new : KvmMemorySlot}
    (h : SlotsDisjoint kvm.memslots) (hbase : new.baseGfn = mem.baseGfn) (hnpages : new.npages = mem.npages)
    (hcheck : checkRegion kvm mem slot = none) : SlotsDisjoint (Function.update kvm.memslots slot new) := by
  have hnew : ∀ i, i ≠ slot → ∀ gfn, ¬(new.contains gfn = true ∧ (kvm.memslots i).contains gfn = true) := fun i hi =>
    disjoint_of_not_overlaps hbase hnpages (h.bound i) (not_overlaps_of_checkRegion hcheck hi)
  refine ⟨fun i => ?_, fun i j hij gfn hgfn => ?_⟩
  · by_cases hi : i = slot
    · subst hi
      rw [Function.update_self, hbase, hnpages]
      have hb : mem.baseGfn < 2 ^ 52 := gfnOf_lt _
      have hn : mem.npages < 2 ^ 52 := gfnOf_lt _
      omega
    · rw [Function.update_of_ne hi]
      exact h.bound i
  · by_cases hi : i = slot
    · subst hi
      rw [Function.update_self] at hgfn
      rw [Function.update_of_ne hij.symm, Bool.eq_false_iff]
      exact fun hno => hnew j hij.symm gfn ⟨hgfn, hno⟩
    · rw [Function.update_of_ne hi] at hgfn
      by_cases hj : j = slot
      · subst hj
        rw [Function.update_self, Bool.eq_false_iff]
        exact fun hno => hnew i hi gfn ⟨hno, hgfn⟩
      · rw [Function.update_of_ne hj]
        exact h.disjoint i j hij gfn hgfn

/-- With few commits, a version that has not changed means that there has been none. -/
theorem Checked.no_commit {mem : KvmMemoryRegion} {slot : Fin 4} {old : KvmMemorySlot} {version : BitVec 32} {start : Nat}
    (h : Checked s mem slot old version start) (hi : MemInv s) (hfew : s.commits < start + 2 ^ 32)
    (hv : version = s.kvm.memoryConfigVersion) : start = s.commits := by
  have heq := congrArg BitVec.toNat (h.version.symm.trans (hv.trans hi.version))
  rw [BitVec.toNat_ofNat, BitVec.toNat_ofNat] at heq
  have := h.start
  omega

theorem MemInv.commit (hi : MemInv s) {mem : KvmMemoryRegion} {slot : Fin 4} {old : KvmMemorySlot} {x : Allocated}
    {version : BitVec 32} {start : Nat} (h : CallChecked s (.allocated mem slot old x version start))
    (hfew : s.commits < start + 2 ^ 32) (hv : version = s.kvm.memoryConfigVersion) :
    MemInv ({ s with kvm := commitRegion s.kvm slot x.slot, commits := s.commits + 1 }.setCall t (.committed old x.slot)) := by
  obtain ⟨hchecked, allocs, rfl⟩ := h
  obtain rfl := hchecked.no_commit hi hfew hv
  obtain ⟨-, hcheck⟩ := hchecked.current rfl
  have hbase : (allocRegion allocs (newSlot mem old)).slot.baseGfn = mem.baseGfn := allocRegion_baseGfn _ _
  have hnpages := (allocRegion_spec allocs mem old).npages
  generalize (allocRegion allocs (newSlot mem old)).slot = new at hbase hnpages
  refine ⟨?_, hi.slots.update hbase hnpages hcheck, fun i hpos => ?_, fun u c hu => ?_⟩
  · show s.kvm.memoryConfigVersion + 1#32 = BitVec.ofNat 32 (s.commits + 1)
    rw [hi.version, BitVec.ofNat_add]
  · show i.val < if s.kvm.nmemslots ≤ slot.val then slot.val + 1 else s.kvm.nmemslots
    have hpos : 0 < (Function.update s.kvm.memslots slot new i).npages := hpos
    by_cases his : i = slot
    · subst his
      split <;> omega
    · rw [Function.update_of_ne his] at hpos
      have := hi.nmemslots i hpos
      split <;> omega
  · -- the commit outdates the checks of every other call
    have hother : ∀ {mem' slot' old' version' before}, Checked s mem' slot' old' version' before →
        Checked ({ s with kvm := commitRegion s.kvm slot new, commits := s.commits + 1 }.setCall t (.committed old new))
          mem' slot' old' version' before := by
      rintro mem' slot' old' version' before ⟨h1, h2, -⟩
      exact ⟨Nat.le_succ_of_le h1, h2, fun h0 => absurd h0 (by show before ≠ s.commits + 1; omega)⟩
    by_cases hut : u = t
    · subst hut
      rw [MemSystem.setCall_self] at hu
      obtain rfl := Option.some.inj hu
      trivial
    · rw [MemSystem.setCall_of_ne hut] at hu
      have hc := hi.calls u c hu
      cases c with
      | checked => exact hother hc
      | allocated => exact ⟨hother hc.1, hc.2⟩
      | _ => trivial

/-! ### Steps and runs -/

/-- How the first section under the lock ends; no memory is freed. -/
theorem step_raced (s : MemSystem) (t : Nat) (allocs : RegionAllocs) (copied : Bool) (mem : KvmMemoryRegion)
    (slot : Fin 4) :
    (∃ r, checkRegion s.kvm mem slot = some r ∧
      MemCall.step s t allocs copied (.raced mem slot) = s.setCall t (.returned r none)) ∨
    (checkRegion s.kvm mem slot = none ∧ MemCall.step s t allocs copied (.raced mem slot) =
      s.setCall t (.checked mem slot (s.kvm.memslots slot) s.kvm.memoryConfigVersion s.commits)) := by
  unfold MemCall.step
  dsimp only
  cases hcheck : checkRegion s.kvm mem slot with
  | some r =>
    refine Or.inl ⟨r, rfl, ?_⟩
    have hops : kvmFreePhysmemSlot (fun _ => none) (newSlot mem (s.kvm.memslots slot)) (some (s.kvm.memslots slot)) = [] := by
      unfold kvmFreePhysmemSlot newSlot
      simp
    dsimp only
    rw [hops]
    rfl
  | none => exact Or.inr ⟨rfl, rfl⟩

/-- How the second section under the lock ends. -/
theorem step_allocated (s : MemSystem) (t : Nat) (allocs : RegionAllocs) (copied : Bool) (mem : KvmMemoryRegion)
    (slot : Fin 4) (old : KvmMemorySlot) (x : Allocated) (version : BitVec 32) (start : Nat) :
    (∃ live c, (c = .raced mem slot ∧ version ≠ s.kvm.memoryConfigVersion ∨ ∃ r, c = .returned r none) ∧
      live = runOps s.live (kvmFreePhysmemSlot (fun i => x.pages[i]?) x.slot (some old)) ∧
      MemCall.step s t allocs copied (.allocated mem slot old x version start) = { s with live := live }.setCall t c) ∨
    (x.ok = true ∧ version = s.kvm.memoryConfigVersion ∧ s.kvm.busy = 0 ∧
      MemCall.step s t allocs copied (.allocated mem slot old x version start) =
        { s with kvm := commitRegion s.kvm slot x.slot, commits := s.commits + 1 }.setCall t (.committed old x.slot)) := by
  unfold MemCall.step
  dsimp only
  cases hok : x.ok with
  | false => exact Or.inl ⟨_, _, Or.inr ⟨_, rfl⟩, rfl, rfl⟩
  | true =>
    cases hv : version != s.kvm.memoryConfigVersion with
    | true => exact Or.inl ⟨_, _, Or.inl ⟨rfl, by simpa using hv⟩, rfl, rfl⟩
    | false =>
      cases hb : s.kvm.busy != 0 with
      | true => exact Or.inl ⟨_, _, Or.inr ⟨_, rfl⟩, rfl, rfl⟩
      | false => exact Or.inr ⟨rfl, by simpa using hv, by simpa using hb, rfl⟩

/-- What KVM_GET_DIRTY_LOG does next after its first steps. -/
def MemCall.Logging : MemCall → Prop
  | .logScanned .. | .logCopied .. | .logCleared .. | .logOut .. => True
  | _ => False

/-- The first steps of KVM_GET_DIRTY_LOG change nothing but the call. -/
theorem step_logBusy (s : MemSystem) (t : Nat) (allocs : RegionAllocs) (copied : Bool) (slot : BitVec 32) :
    ∃ c, MemCall.step s t allocs copied (.logBusy slot) = s.setCall t c ∧ c.Logging := by
  unfold MemCall.step
  dsimp only
  split
  · exact ⟨_, rfl, trivial⟩
  · split <;> exact ⟨_, rfl, trivial⟩

theorem step_logScanned (s : MemSystem) (t : Nat) (allocs : RegionAllocs) (copied : Bool) (slot : Fin 4) (n : Nat)
    (any : Bool) : ∃ c, MemCall.step s t allocs copied (.logScanned slot n any) = s.setCall t c ∧ c.Logging := by
  cases copied with
  | false => exact ⟨_, rfl, trivial⟩
  | true => cases any <;> exact ⟨_, rfl, trivial⟩

theorem MemCall.Logging.checked {c : MemCall} (h : c.Logging) : CallChecked s c := by
  cases c <;> trivial

/-- A step does not take a commit back. -/
theorem MemCall.commits_le (m : MemSystem) (t : Nat) (allocs : RegionAllocs) (copied : Bool) (c : MemCall) :
    m.commits ≤ (c.step m t allocs copied).commits := by
  cases c with
  | raced mem slot => rcases step_raced m t allocs copied mem slot with ⟨r, -, heq⟩ | ⟨-, heq⟩ <;> rw [heq] <;> exact le_rfl
  | allocated mem slot old x version start =>
    rcases step_allocated m t allocs copied mem slot old x version start with ⟨_, _, -, -, heq⟩ | ⟨-, -, -, heq⟩
    · rw [heq]
      exact le_rfl
    · rw [heq]
      exact Nat.le_succ _
  | logBusy slot =>
    obtain ⟨c', heq, -⟩ := step_logBusy m t allocs copied slot
    rw [heq]
    exact le_rfl
  | logScanned slot n any =>
    obtain ⟨c', heq, -⟩ := step_logScanned m t allocs copied slot n any
    rw [heq]
    exact le_rfl
  | _ => exact le_rfl

/-- Every step of a call keeps the invariant. -/
theorem MemInv.call (hi : MemInv s) (hfew : FewCommits s) (h : s.calls t = some c) (allocs : RegionAllocs) (copied : Bool) :
    MemInv (c.step s t allocs copied) := by
  have hc := hi.calls t c h
  have hsame : ∀ kvm live, kvm.nmemslots = s.kvm.nmemslots → kvm.memslots = s.kvm.memslots →
      kvm.memoryConfigVersion = s.kvm.memoryConfigVersion → SameConfig s { s with kvm := kvm, live := live } :=
    fun _ _ h1 h2 h3 => ⟨h1, h2, h3, rfl⟩
  cases c with
  | raced mem slot =>
    rcases step_raced s t allocs copied mem slot with ⟨r, -, heq⟩ | ⟨hcheck, heq⟩
    · rw [heq]
      exact hi.setCall (hsame s.kvm s.live rfl rfl rfl) rfl trivial
    · rw [heq]
      have hchecked : Checked s mem slot (s.kvm.memslots slot) s.kvm.memoryConfigVersion s.commits :=
        ⟨Nat.le_refl _, hi.version, fun _ => ⟨rfl, hcheck⟩⟩
      exact hi.setCall (c := .checked ..) (hsame s.kvm s.live rfl rfl rfl) rfl hchecked
  | checked mem slot old version start => exact hi.setCall (hsame _ _ rfl rfl rfl) rfl ⟨hc, allocs, rfl⟩
  | allocated mem slot old x version start =>
    rcases step_allocated s t allocs copied mem slot old x version start
      with ⟨live, c', hc', -, heq⟩ | ⟨-, hv, -, heq⟩
    · rw [heq]
      refine hi.setCall (hsame s.kvm live rfl rfl rfl) rfl ?_
      rcases hc' with ⟨rfl, -⟩ | ⟨r, rfl⟩ <;> trivial
    · rw [heq]
      exact hi.commit hc (hfew t _ start h rfl) hv
  | committed old new => exact hi.setCall (hsame s.kvm s.live rfl rfl rfl) rfl trivial
  | reset old new => exact hi.setCall (hsame s.kvm _ rfl rfl rfl) rfl trivial
  | logBusy slot =>
    obtain ⟨c', heq, hc'⟩ := step_logBusy s t allocs copied slot
    rw [heq]
    exact hi.setCall (hsame s.kvm s.live rfl rfl rfl) rfl hc'.checked
  | logScanned slot n any =>
    obtain ⟨c', heq, hc'⟩ := step_logScanned s t allocs copied slot n any
    rw [heq]
    exact hi.setCall (hsame s.kvm s.live rfl rfl rfl) rfl hc'.checked
  | logCopied slot n log => exact hi.setCall (hsame s.kvm s.live rfl rfl rfl) rfl trivial
  | logProtected slot n log => exact hi.setCall (hsame _ s.live rfl rfl rfl) rfl trivial
  | logCleared slot log => exact hi.setCall (hsame s.kvm s.live rfl rfl rfl) rfl trivial
  | logOut r log => exact hi.setCall (hsame _ s.live rfl rfl rfl) rfl trivial
  | returned r log => exact hi.setCall (hsame s.kvm s.live rfl rfl rfl) rfl trivial

theorem MemInv.step (hi : MemInv s) (hfew : FewCommits s) (h : MemStep s s') : MemInv s' := by
  cases h with
  | setMemoryRegion mem h =>
    unfold MemSystem.setMemoryRegion
    split
    · exact hi.setCall ⟨rfl, rfl, rfl, rfl⟩ rfl trivial
    · exact hi.setCall ⟨rfl, rfl, rfl, rfl⟩ rfl trivial
  | getDirtyLog slot h => exact hi.setCall (c := .logBusy slot) ⟨rfl, rfl, rfl, rfl⟩ rfl trivial
  | call copied h hfresh => exact hi.call hfew h _ copied
  | vcpu bitmap pages => exact hi.move (t := 0) ⟨rfl, rfl, rfl, rfl⟩ (fun _ _ => rfl) (hi.calls 0)

theorem MemInv.run (hi : MemInv s) (h : MemRun s s') : MemInv s' := by
  induction h with
  | refl => exact hi
  | tail _ hstep ih => exact ih.step hstep.2 hstep.1

/-- The slot of a frame, when the slots are disjoint. -/
theorem gfnToMemslot_iff {kvm : Kvm} (hdisjoint : SlotsDisjoint kvm.memslots)
    (hn : ∀ i : Fin 4, 0 < (kvm.memslots i).npages → i.val < kvm.nmemslots) (gfn : Nat) (i : Fin 4) :
    gfnToMemslot kvm gfn = some i ↔ (kvm.memslots i).contains gfn = true := by
  have hbelow : ∀ i, (kvm.memslots i).contains gfn = true → i.val < kvm.nmemslots := by
    intro i hi
    refine hn i ?_
    unfold KvmMemorySlot.contains at hi
    simp only [Bool.and_eq_true, decide_eq_true_eq] at hi
    omega
  constructor
  · intro h
    have := List.find?_some h
    simp only [Bool.and_eq_true] at this
    exact this.2
  · intro hi
    cases hfind : gfnToMemslot kvm gfn with
    | none =>
      have hno := List.find?_eq_none.1 hfind i (List.mem_finRange i)
      simp [hi, hbelow i hi] at hno
    | some j =>
      have hj := List.find?_some hfind
      simp only [Bool.and_eq_true] at hj
      by_contra hne
      have := hdisjoint.disjoint i j (fun hij => hne (by rw [hij])) gfn hi
      rw [hj.2] at this
      cases this

theorem fewCommits_of_lt (h : s.commits < 2 ^ 32) : FewCommits s := fun _ _ _ _ _ => by omega

theorem ThreadStep.commits_le (h : ThreadStep s s') : s.commits ≤ s'.commits := by
  cases h with
  | setMemoryRegion mem h =>
    unfold MemSystem.setMemoryRegion
    split <;> exact le_rfl
  | getDirtyLog slot h => exact le_rfl
  | call copied h hfresh => exact MemCall.commits_le _ _ _ _ _

/-- Steps of threads with fewer than `2 ^ 32` commits are a run. -/
theorem MemRun.of_threadSteps (h : ReflTransGen ThreadStep s s') (hc : s'.commits < 2 ^ 32) : MemRun s s' := by
  induction h with
  | refl => exact .refl
  | tail _ hstep ih =>
    have hbefore := hstep.commits_le.trans_lt hc
    exact (ih hbefore).tail ⟨hstep.memStep, fewCommits_of_lt hbefore⟩

/-- Page frames with consecutive numbers differ. -/
theorem consecutive_pages {page : Nat → Option Pfn} {n base : Nat}
    (hpage : ∀ k, page k = if k < n then some (BitVec.ofNat 40 (k + base)) else none) (hn : n + base ≤ 2 ^ 40)
    (i j : Nat) (p : Pfn) (hi : page i = some p) (hj : page j = some p) : i = j := by
  have hnumber : ∀ k, page k = some p → p.toNat = k + base := by
    intro k hk
    rw [hpage k] at hk
    split at hk
    · obtain rfl := Option.some.inj hk
      rw [BitVec.toNat_ofNat]
      omega
    · cases hk
  have h1 := hnumber i hi
  have h2 := hnumber j hj
  omega

theorem onePageAllocs_fresh : onePageAllocs.Fresh [] := by
  refine ⟨fun _ _ => List.not_mem_nil, fun b hb => (by cases hb), fun _ _ _ => List.not_mem_nil, ?_⟩
  intro i j p hi hj
  have hzero : ∀ k, onePageAllocs.page k = some p → k = 0 := by
    intro k hk
    by_contra hne
    rw [show onePageAllocs.page k = none from if_neg hne] at hk
    cases hk
  rw [hzero i hi, hzero j hj]

theorem noAllocs_fresh (live : List Resource) : noAllocs.Fresh live :=
  ⟨fun _ h => (by cases h), fun _ h => (by cases h), fun _ _ h => (by cases h), fun _ _ _ h => (by cases h)⟩

/-! ### A call without interference -/

section OneCall

variable {slot : Fin 4} {old : KvmMemorySlot} {x : Allocated} {allocs : RegionAllocs}

/-- A call up to the end of its allocations. -/
theorem call_allocates (mem : KvmMemoryRegion) (hfree : s.Free t) (hslot : mem.sanityChecks = some slot) (hcheck : checkRegion s.kvm mem slot = none)
    (hfresh : allocs.Fresh s.live) (hold : s.kvm.memslots slot = old) (hx : x = allocRegion allocs (newSlot mem old)) :
    ReflTransGen ThreadStep s ({ s with kvm := x.store old s.kvm, live := runOps s.live x.ops }.setCall t
      (.allocated mem slot old x s.kvm.memoryConfigVersion s.commits)) := by
  have hraced : ThreadStep s (s.setCall t (.raced mem slot)) := by
    have h := ThreadStep.setMemoryRegion mem hfree
    unfold MemSystem.setMemoryRegion at h
    rwa [hslot] at h
  have hchecked : ThreadStep (s.setCall t (.raced mem slot)) (s.setCall t
      (.checked mem slot old s.kvm.memoryConfigVersion s.commits)) := by
    have h := ThreadStep.call true (MemSystem.setCall_self s t (.raced mem slot)) (noAllocs_fresh _)
    unfold MemCall.step at h
    have hcheck' : checkRegion (s.setCall t (.raced mem slot)).kvm mem slot = none := hcheck
    have hold' : (s.setCall t (.raced mem slot)).kvm.memslots slot = old := hold
    dsimp only at h
    rw [hcheck', hold'] at h
    simpa [MemSystem.setCall] using h
  have hallocated : ThreadStep (s.setCall t (.checked mem slot old s.kvm.memoryConfigVersion s.commits))
      ({ s with kvm := x.store old s.kvm, live := runOps s.live x.ops }.setCall t
        (.allocated mem slot old x s.kvm.memoryConfigVersion s.commits)) := by
    have h := ThreadStep.call true (MemSystem.setCall_self s t (.checked mem slot old s.kvm.memoryConfigVersion s.commits)) hfresh
    unfold MemCall.step at h
    dsimp only at h
    rw [← hx] at h
    simpa [MemSystem.setCall] using h
  exact ((ReflTransGen.single hraced).tail hchecked).tail hallocated

/-- A call that commits what it has allocated, and returns. -/
theorem call_returns {mem : KvmMemoryRegion} {start : Nat} (h : s.calls t = some (.allocated mem slot old x s.kvm.memoryConfigVersion start))
    (hok : x.ok = true) (hbusy : s.kvm.busy = 0) :
    ReflTransGen ThreadStep s ({ s with
      kvm := commitRegion s.kvm slot x.slot
      live := runOps s.live (kvmFreePhysmemSlot (fun i => some (s.kvm.pageArray old.physMem i)) old (some x.slot))
      commits := s.commits + 1 }.setCall t (.returned 0 none)) := by
  have hcommit : ThreadStep s ({ s with kvm := commitRegion s.kvm slot x.slot, commits := s.commits + 1 }.setCall t
      (.committed old x.slot)) := by
    have h := ThreadStep.call true h (noAllocs_fresh _)
    unfold MemCall.step at h
    dsimp only at h
    rwa [hok, hbusy, bne_self_eq_false] at h
  generalize hs1 : ({ s with kvm := commitRegion s.kvm slot x.slot, commits := s.commits + 1 } : MemSystem) = s1 at hcommit
  have hreset : ThreadStep (s1.setCall t (.committed old x.slot)) (s1.setCall t (.reset old x.slot)) := by
    have h := ThreadStep.call true (MemSystem.setCall_self s1 t (.committed old x.slot)) (noAllocs_fresh _)
    unfold MemCall.step at h
    simpa [MemSystem.setCall] using h
  have hfreed : ThreadStep (s1.setCall t (.reset old x.slot)) ({ s1 with
      live := runOps s1.live (kvmFreePhysmemSlot (fun i => some (s1.kvm.pageArray old.physMem i)) old (some x.slot)) }.setCall t
        (.returned 0 none)) := by
    have h := ThreadStep.call true (MemSystem.setCall_self s1 t (.reset old x.slot)) (noAllocs_fresh _)
    unfold MemCall.step at h
    simpa [MemSystem.setCall] using h
  subst hs1
  exact ((ReflTransGen.single hcommit).tail hreset).tail hfreed

/-- A call that runs alone replaces the slot. -/
theorem call_commits {mem : KvmMemoryRegion} (hfree : s.Free t) (hsane : mem.sanityChecks = some slot)
    (hcheck : checkRegion s.kvm mem slot = none) (hfresh : allocs.Fresh s.live)
    (hok : (allocRegion allocs (newSlot mem (s.kvm.memslots slot))).ok = true) (hbusy : s.kvm.busy = 0) :
    ∃ s', ReflTransGen ThreadStep s s' ∧ s'.Free t ∧ s'.commits = s.commits + 1 ∧ s'.kvm =
      commitRegion ((allocRegion allocs (newSlot mem (s.kvm.memslots slot))).store (s.kvm.memslots slot) s.kvm) slot
        (allocRegion allocs (newSlot mem (s.kvm.memslots slot))).slot := by
  have halloc := call_allocates mem hfree hsane hcheck hfresh rfl rfl
  refine ⟨_, halloc.trans (call_returns (MemSystem.setCall_self _ t _) hok hbusy), fun c hc => ?_, rfl, rfl⟩
  rw [MemSystem.setCall_self] at hc
  exact ⟨0, none, (Option.some.inj hc).symm⟩

end OneCall

/-- A machine whose slots are all empty, and the slot of one page. -/
def emptySlot : KvmMemorySlot := MemSystem.opened.kvm.memslots 0
def onePageSlot : Allocated := allocRegion onePageAllocs (newSlot onePage emptySlot)

end LearnKvm
