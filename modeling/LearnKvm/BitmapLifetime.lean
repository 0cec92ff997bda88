import LearnKvm.MemoryOwnership

/-!
# The bitmaps under the busy counter

KVM_GET_DIRTY_LOG reads and clears the bitmap of a slot outside of `kvm->lock`, and relies on `kvm->busy`, which is not
zero from its first to its last step, to keep the memory configuration as it is.  `BitmapsSafe` states what it relies
on.  It holds as long as `kvm->busy` can count the calls and the version counter does not come round during a call
(`bitmap_lifetime`).  When the version comes round, a call commits a slot whose memory has been freed since its checks,
and the next reader looks at a freed bitmap (`freed_bitmap_read`).
-/

namespace LearnKvm

open Relation

variable {s s' : MemSystem} {t : Nat} {c : MemCall}

/-- From `++kvm->busy` to `--kvm->busy`. -/
def MemCall.logging : MemCall → Bool
  | logBusy _ => true
  | logScanned _ _ _ => true
  | logCopied _ _ _ => true
  | logProtected _ _ _ => true
  | logCleared _ _ => true
  | logOut _ _ => true
  | _ => false

/-- The slot whose bitmap is being read or is to be cleared, and the number of bytes. -/
def MemCall.reads : MemCall → Option (Fin 4 × Nat)
  | logScanned slot n _ => some (slot, n)
  | logCopied slot n _ => some (slot, n)
  | logProtected slot n _ => some (slot, n)
  | _ => none

/-- The thread is in a call of KVM_GET_DIRTY_LOG. -/
def MemSystem.Logging (s : MemSystem) (t : Nat) : Prop := ∃ c, s.calls t = some c ∧ c.logging = true

/-- `kvm->busy` has 32 bits, and there are fewer calls of KVM_GET_DIRTY_LOG than that. -/
def FewLogs (s : MemSystem) : Prop := ∀ T : Finset Nat, (∀ t ∈ T, s.Logging t) → T.card < 2 ^ 32

/-- A run whose steps are taken in states with `ok`. -/
def RunWith (ok : MemSystem → Prop) : MemSystem → MemSystem → Prop := ReflTransGen fun s s' => MemStep s s' ∧ ok s

/-- A run in which the thread stays in its call of KVM_GET_DIRTY_LOG. -/
def LogWindow (ok : MemSystem → Prop) (t : Nat) : MemSystem → MemSystem → Prop :=
  ReflTransGen fun s s' => (MemStep s s' ∧ ok s) ∧ s.Logging t ∧ s'.Logging t

/-- What the calls of KVM_GET_DIRTY_LOG rely on. -/
structure BitmapsSafe (ok : MemSystem → Prop) (s : MemSystem) : Prop where
  /-- `kvm->busy` is the number of calls: each of them restores it. -/
  busy : ∃ T : Finset Nat, (∀ t, t ∈ T ↔ s.Logging t) ∧ s.kvm.busy = BitVec.ofNat 32 T.card
  /-- What a call reads and clears is the bitmap of its slot, in memory that has not been freed. -/
  reads : ∀ t c slot n, s.calls t = some c → c.reads = some (slot, n) →
    .array (s.kvm.memslots slot).dirtyBitmap ∈ s.live ∧ n = logBytes (s.kvm.memslots slot)
  /-- During a call the slots stay the same, and their bitmaps are not freed. -/
  window : ∀ t s', LogWindow ok t s s' → s'.kvm.memslots = s.kvm.memslots ∧
    ∀ i, (s.kvm.memslots i).dirtyBitmap ≠ 0 → .array (s.kvm.memslots i).dirtyBitmap ∈ s'.live
  /-- No memory is allocated twice, so that what is live has not been freed. -/
  nodup : s.live.Nodup
  /-- A KVM_SET_MEMORY_REGION that would commit during a call fails and changes nothing. -/
  again : ok s → ∀ t u mem slot old x start allocs copied, s.Logging u → x.ok = true →
    s.calls t = some (.allocated mem slot old x s.kvm.memoryConfigVersion start) →
    let s' := MemCall.step s t allocs copied (.allocated mem slot old x s.kvm.memoryConfigVersion start)
    s'.calls t = some (.returned (-eagain) none) ∧ s'.kvm = s.kvm

/-! ### The invariant -/

/-- The slot of a reader has a bitmap of that length. -/
def LogReads (s : MemSystem) (c : MemCall) : Prop := ∀ slot n, c.reads = some (slot, n) →
  (s.kvm.memslots slot).dirtyBitmap ≠ 0 ∧ n = logBytes (s.kvm.memslots slot)

structure LogInv (s : MemSystem) : Prop where
  busy : ∃ T : Finset Nat, (∀ t, t ∈ T ↔ s.Logging t) ∧ s.kvm.busy = BitVec.ofNat 32 T.card
  reads : ∀ t c, s.calls t = some c → LogReads s c

theorem logInv_opened : LogInv .opened := by
  refine ⟨⟨∅, fun t => ⟨fun h => absurd h (Finset.notMem_empty t), ?_⟩, rfl⟩, fun t c h => by cases h⟩
  rintro ⟨c, hc, -⟩
  cases hc

theorem MemCall.logging_of_reads {slot : Fin 4} {n : Nat} (h : c.reads = some (slot, n)) : c.logging = true := by
  cases c <;> first | rfl | cases h

theorem logging_setCall {s1 : MemSystem} (hcalls : s1.calls = s.calls) (u : Nat) :
    (s1.setCall t c).Logging u ↔ if u = t then c.logging = true else s.Logging u := by
  unfold MemSystem.Logging
  split
  · rename_i hu
    subst hu
    rw [MemSystem.setCall_self]
    constructor
    · rintro ⟨c', hc', h⟩
      rwa [Option.some.inj hc']
    · exact fun h => ⟨c, rfl, h⟩
  · rename_i hu
    rw [MemSystem.setCall_of_ne hu, hcalls]

/-- How a step changes the counter when the call of the thread goes on, begins or ends. -/
inductive BusyChange (s s1 : MemSystem) (t : Nat) (c : MemCall) : Prop
  | same (hbusy : s1.kvm.busy = s.kvm.busy) (h : c.logging = true ↔ s.Logging t)
  | started (hbusy : s1.kvm.busy = s.kvm.busy + 1#32) (h : c.logging = true) (h' : ¬s.Logging t)
  | ended (hbusy : s1.kvm.busy = s.kvm.busy - 1#32) (h : ¬c.logging = true) (h' : s.Logging t)

theorem LogInv.count (hl : LogInv s) {s1 : MemSystem} (hcalls : s1.calls = s.calls) (h : BusyChange s s1 t c) :
    ∃ T : Finset Nat, (∀ u, u ∈ T ↔ (s1.setCall t c).Logging u) ∧ s1.kvm.busy = BitVec.ofNat 32 T.card := by
  obtain ⟨T, hT, hbusy⟩ := hl.busy
  cases h with
  | same hsame h =>
    refine ⟨T, fun u => ?_, hsame.trans hbusy⟩
    rw [hT, logging_setCall hcalls]
    split
    · rename_i hu
      rw [hu, h]
    · rfl
  | started hstart h h' =>
    refine ⟨insert t T, fun u => ?_, ?_⟩
    · rw [Finset.mem_insert, logging_setCall hcalls, hT]
      split
      · rename_i hu
        simp [hu, h]
      · rename_i hu
        simp [hu]
    · rw [hstart, hbusy, Finset.card_insert_of_notMem fun ht => h' ((hT t).1 ht), BitVec.ofNat_add]
  | ended hend h h' =>
    refine ⟨T.erase t, fun u => ?_, ?_⟩
    · rw [Finset.mem_erase, logging_setCall hcalls, hT]
      split
      · rename_i hu
        simp [hu, h]
      · rename_i hu
        simp [hu]
    · have ht := (hT t).2 h'
      rw [hend, hbusy, ← Finset.card_erase_add_one ht, BitVec.ofNat_add]
      exact BitVec.add_sub_cancel _ _

/-- A step that keeps the slots. -/
theorem LogInv.setCall (hl : LogInv s) {s1 : MemSystem} (hslots : s1.kvm.memslots = s.kvm.memslots)
    (hcalls : s1.calls = s.calls) (hreads : LogReads s c) (h : BusyChange s s1 t c) : LogInv (s1.setCall t c) := by
  have hkeep : ∀ c, LogReads s c → LogReads (s1.setCall t c) c := fun c hc slot n hr => by
    show (s1.kvm.memslots slot).dirtyBitmap ≠ 0 ∧ _ = logBytes (s1.kvm.memslots slot)
    rw [hslots]
    exact hc slot n hr
  refine ⟨hl.count hcalls h, fun u c' hc' => ?_⟩
  by_cases hu : u = t
  · subst hu
    rw [MemSystem.setCall_self] at hc'
    obtain rfl := Option.some.inj hc'
    exact hkeep _ hreads
  · rw [MemSystem.setCall_of_ne hu, hcalls] at hc'
    exact hkeep _ (hl.reads u c' hc')

/-- When the counter is zero there are no calls. -/
theorem LogInv.not_logging (hl : LogInv s) (hfew : FewLogs s) (hbusy : s.kvm.busy = 0) (u : Nat) : ¬s.Logging u := by
  intro hu
  obtain ⟨T, hT, hcount⟩ := hl.busy
  have hlt := hfew T fun t ht => (hT t).1 ht
  have hzero : T.card = 0 := by
    have := congrArg BitVec.toNat (hcount.symm.trans hbusy)
    rw [BitVec.toNat_ofNat, Nat.mod_eq_of_lt hlt] at this
    exact this
  rw [Finset.card_eq_zero.1 hzero] at hT
  exact Finset.notMem_empty u ((hT u).2 hu)

/-! ### Steps -/

/-- The calls of KVM_GET_DIRTY_LOG go on without changing the counter. -/
theorem LogInv.keepLogging (hl : LogInv s) (h : s.calls t = some c) (hlog : c.logging = true) (s1 : MemSystem)
    (hslots : s1.kvm.memslots = s.kvm.memslots) (hcalls : s1.calls = s.calls) (hbusy : s1.kvm.busy = s.kvm.busy)
    (c' : MemCall) (hlog' : c'.logging = true) (hreads : LogReads s c') : LogInv (s1.setCall t c') :=
  hl.setCall hslots hcalls hreads (.same hbusy (iff_of_true hlog' ⟨c, h, hlog⟩))

/-- So do the calls of KVM_SET_MEMORY_REGION. -/
theorem LogInv.keepIdle (hl : LogInv s) (hidle : ¬s.Logging t) (s1 : MemSystem)
    (hslots : s1.kvm.memslots = s.kvm.memslots) (hcalls : s1.calls = s.calls) (hbusy : s1.kvm.busy = s.kvm.busy)
    (c' : MemCall) (hlog' : c'.logging = false) : LogInv (s1.setCall t c') := by
  have hno : ¬c'.logging = true := fun h => by rw [hlog'] at h; cases h
  exact hl.setCall hslots hcalls (fun slot n hr => absurd (MemCall.logging_of_reads hr) hno)
    (.same hbusy (iff_of_false hno hidle))

theorem not_logging_of_call (h : s.calls t = some c) (hno : c.logging = false) : ¬s.Logging t := by
  rintro ⟨c', hc', hlog⟩
  rw [h] at hc'
  obtain rfl := Option.some.inj hc'
  rw [hno] at hlog
  cases hlog

theorem not_logging_of_free (h : s.Free t) : ¬s.Logging t := by
  rintro ⟨c, hc, hlog⟩
  obtain ⟨r, log, rfl⟩ := h c hc
  cases hlog

/-- A commit finds no call of KVM_GET_DIRTY_LOG. -/
theorem LogInv.commit (hl : LogInv s) (hfew : FewLogs s) (hbusy : s.kvm.busy = 0) (slot : Fin 4) (old new : KvmMemorySlot) :
    LogInv ({ s with kvm := commitRegion s.kvm slot new, commits := s.commits + 1 }.setCall t (.committed old new)) := by
  have hno := hl.not_logging hfew hbusy
  generalize hs1 : ({ s with kvm := commitRegion s.kvm slot new, commits := s.commits + 1 } : MemSystem) = s1
  have hcalls : s1.calls = s.calls := by rw [← hs1]
  have hsame : s1.kvm.busy = s.kvm.busy := by rw [← hs1]; rfl
  have hno' : ∀ u, ¬(s1.setCall t (.committed old new)).Logging u := by
    intro u hu
    rw [logging_setCall hcalls] at hu
    split at hu
    · cases hu
    · exact hno u hu
  refine ⟨hl.count hcalls (.same hsame (iff_of_false (fun h => by cases h) (hno t))), fun u c hc slot n hr => ?_⟩
  exact absurd ⟨c, hc, MemCall.logging_of_reads hr⟩ (hno' u)

theorem LogInv.logBusy (hl : LogInv s) {slot : BitVec 32} (h : s.calls t = some (.logBusy slot)) (allocs : RegionAllocs)
    (copied : Bool) : LogInv (MemCall.step s t allocs copied (.logBusy slot)) := by
  unfold MemCall.step
  dsimp only
  split
  · exact hl.keepLogging h rfl s rfl rfl rfl (.logOut _ _) rfl fun slot n hr => by cases hr
  · split
    · exact hl.keepLogging h rfl s rfl rfl rfl (.logOut _ _) rfl fun slot n hr => by cases hr
    · rename_i hne
      refine hl.keepLogging h rfl s rfl rfl rfl (.logScanned ..) rfl fun slot' n hr => ?_
      obtain ⟨rfl, rfl⟩ := Prod.mk.inj (Option.some.inj hr)
      exact ⟨hne, rfl⟩

theorem LogInv.logScanned (hl : LogInv s) {slot : Fin 4} {n : Nat} {any : Bool}
    (h : s.calls t = some (.logScanned slot n any)) (allocs : RegionAllocs) (copied : Bool) :
    LogInv (MemCall.step s t allocs copied (.logScanned slot n any)) := by
  have hreads := hl.reads t _ h
  cases copied with
  | false => exact hl.keepLogging h rfl s rfl rfl rfl (.logOut _ _) rfl fun slot n hr => by cases hr
  | true =>
    cases any with
    | true => exact hl.keepLogging h rfl s rfl rfl rfl (.logCopied ..) rfl hreads
    | false => exact hl.keepLogging h rfl s rfl rfl rfl (.logOut _ _) rfl fun slot n hr => by cases hr

theorem LogInv.call (hl : LogInv s) (hfew : FewLogs s) (h : s.calls t = some c) (allocs : RegionAllocs) (copied : Bool) :
    LogInv (c.step s t allocs copied) := by
  have hreads := hl.reads t c h
  cases c with
  | raced mem slot =>
    have hidle := not_logging_of_call h rfl
    rcases step_raced s t allocs copied mem slot with ⟨r, -, heq⟩ | ⟨-, heq⟩
    · rw [heq]
      exact hl.keepIdle hidle s rfl rfl rfl _ rfl
    · rw [heq]
      exact hl.keepIdle hidle s rfl rfl rfl _ rfl
  | checked mem slot old version start =>
    let x := allocRegion allocs (newSlot mem old)
    exact hl.keepIdle (not_logging_of_call h rfl) { s with kvm := x.store old s.kvm, live := runOps s.live x.ops } rfl rfl rfl
      (.allocated mem slot old x version start) rfl
  | allocated mem slot old x version start =>
    rcases step_allocated s t allocs copied mem slot old x version start with ⟨live, c', hc', -, heq⟩ | ⟨-, -, hbusy, heq⟩
    · rw [heq]
      refine hl.keepIdle (not_logging_of_call h rfl) { s with live := live } rfl rfl rfl c' ?_
      rcases hc' with ⟨rfl, -⟩ | ⟨r, rfl⟩ <;> rfl
    · rw [heq]
      exact hl.commit hfew hbusy slot old x.slot
  | committed old new => exact hl.keepIdle (not_logging_of_call h rfl) s rfl rfl rfl (.reset old new) rfl
  | reset old new =>
    let ops := kvmFreePhysmemSlot (fun i => some (s.kvm.pageArray old.physMem i)) old (some new)
    exact hl.keepIdle (not_logging_of_call h rfl) { s with live := runOps s.live ops } rfl rfl rfl (.returned 0 none) rfl
  | logBusy slot => exact hl.logBusy h allocs copied
  | logScanned slot n any => exact hl.logScanned h allocs copied
  | logCopied slot n log => exact hl.keepLogging h rfl s rfl rfl rfl (.logProtected ..) rfl hreads
  | logProtected slot n log =>
    let s1 := { s with kvm := clearBitmap s.kvm (s.kvm.memslots slot) n }
    exact hl.keepLogging h rfl s1 rfl rfl rfl (.logCleared slot log) rfl fun slot n hr => by cases hr
  | logCleared slot log => exact hl.keepLogging h rfl s rfl rfl rfl (.logOut 0 (some log)) rfl fun slot n hr => by cases hr
  | logOut r log =>
    exact hl.setCall rfl rfl (fun slot n hr => by cases hr) (.ended rfl (fun h => by cases h) ⟨_, h, rfl⟩)
  | returned r log => exact hl.keepIdle (not_logging_of_call h rfl) s rfl rfl rfl (.returned r log) rfl

theorem LogInv.step (hl : LogInv s) (hfew : FewLogs s) (h : MemStep s s') : LogInv s' := by
  cases h with
  | setMemoryRegion mem h =>
    unfold MemSystem.setMemoryRegion
    split
    · exact hl.keepIdle (not_logging_of_free h) s rfl rfl rfl _ rfl
    · exact hl.keepIdle (not_logging_of_free h) s rfl rfl rfl _ rfl
  | getDirtyLog slot h =>
    exact hl.setCall rfl rfl (fun slot n hr => by cases hr) (.started rfl rfl (not_logging_of_free h))
  | call copied h hfresh => exact hl.call hfew h _ copied
  | vcpu bitmap pages => exact ⟨hl.busy, hl.reads⟩

/-! ### The window of a call -/

/-- Only a commit changes the slots, and there is none while `kvm->busy` is not zero. -/
theorem memslots_kept (h : MemStep s s') (hbusy : s.kvm.busy ≠ 0) : s'.kvm.memslots = s.kvm.memslots := by
  cases h with
  | setMemoryRegion mem h =>
    unfold MemSystem.setMemoryRegion
    split <;> rfl
  | getDirtyLog slot h => rfl
  | vcpu bitmap pages => rfl
  | @call t c allocs copied h hfresh =>
    cases c with
    | raced mem slot =>
      rcases step_raced s t allocs copied mem slot with ⟨r, -, heq⟩ | ⟨-, heq⟩ <;> rw [heq] <;> rfl
    | allocated mem slot old x version start =>
      rcases step_allocated s t allocs copied mem slot old x version start with ⟨_, _, -, -, heq⟩ | ⟨-, -, hno, -⟩
      · rw [heq]
        rfl
      · exact absurd hno hbusy
    | logBusy slot =>
      obtain ⟨c', heq, -⟩ := step_logBusy s t allocs copied slot
      rw [heq]
      rfl
    | logScanned slot n any =>
      obtain ⟨c', heq, -⟩ := step_logScanned s t allocs copied slot n any
      rw [heq]
      rfl
    | _ => rfl

/-- All that the calls need. -/
structure BusyInv (s : MemSystem) : Prop where
  mem : MemInv s
  owned : MemOwned s
  log : LogInv s

/-- The counters do not come round. -/
def CountersSuffice (s : MemSystem) : Prop := FewCommits s ∧ FewLogs s

theorem BusyInv.step (hi : BusyInv s) (hok : CountersSuffice s) (h : MemStep s s') : BusyInv s' :=
  ⟨hi.mem.step hok.1 h, hi.owned.step hi.mem hok.1 h, hi.log.step hok.2 h⟩

theorem BusyInv.run (h : RunWith CountersSuffice .opened s) : BusyInv s := by
  induction h with
  | refl => exact ⟨memInv_opened, memOwned_opened, logInv_opened⟩
  | tail _ hstep ih => exact ih.step hstep.2 hstep.1

theorem BusyInv.window (hi : BusyInv s) (h : LogWindow CountersSuffice t s s') :
    BusyInv s' ∧ s'.kvm.memslots = s.kvm.memslots := by
  induction h with
  | refl => exact ⟨hi, rfl⟩
  | @tail s1 s2 _ hstep ih =>
    obtain ⟨⟨hstep, hok⟩, hlog, -⟩ := hstep
    have hbusy : s1.kvm.busy ≠ 0 := fun h0 => ih.1.log.not_logging hok.2 h0 t hlog
    exact ⟨ih.1.step hok hstep, (memslots_kept hstep hbusy).trans ih.2⟩

/-- The bitmap of a slot is allocated. -/
theorem MemOwned.bitmap_live (ho : MemOwned s) {i : Fin 4} (h : (s.kvm.memslots i).dirtyBitmap ≠ 0) :
    .array (s.kvm.memslots i).dirtyBitmap ∈ s.live :=
  ho.owned.held_live (.inl i) _ (mem_slotMemory.2 (Or.inr ⟨h, rfl⟩))

theorem step_again {mem : KvmMemoryRegion} {slot : Fin 4} {old : KvmMemorySlot} {x : Allocated} (start : Nat)
    (allocs : RegionAllocs) (copied : Bool) (hok : x.ok = true) (hbusy : s.kvm.busy ≠ 0) :
    (MemCall.step s t allocs copied (.allocated mem slot old x s.kvm.memoryConfigVersion start)).calls t =
        some (.returned (-eagain) none) ∧
      (MemCall.step s t allocs copied (.allocated mem slot old x s.kvm.memoryConfigVersion start)).kvm = s.kvm := by
  have hne : (s.kvm.busy != 0) = true := by simpa using hbusy
  unfold MemCall.step
  dsimp only
  rw [hok, hne]
  simp [MemSystem.setCall]

/-- **Bitmap lifetime under the busy counter**: as long as the counters do not come round, the calls of
KVM_GET_DIRTY_LOG find what they rely on. -/
theorem bitmap_lifetime (h : RunWith CountersSuffice .opened s) : BitmapsSafe CountersSuffice s := by
  have hi := BusyInv.run h
  refine ⟨hi.log.busy, fun t c slot n hc hr => ?_, fun t s' hw => ?_, hi.owned.nodup, ?_⟩
  · obtain ⟨hne, hn⟩ := hi.log.reads t c hc slot n hr
    exact ⟨hi.owned.bitmap_live hne, hn⟩
  · obtain ⟨hi', hslots⟩ := hi.window hw
    refine ⟨hslots, fun i hne => ?_⟩
    rw [← hslots] at hne ⊢
    exact hi'.owned.bitmap_live hne
  · intro hok t u mem slot old x start allocs copied hu hx _
    exact step_again start allocs copied hx fun h0 => hi.log.not_logging hok.2 h0 u hu

/-- The first thread has counted itself. -/
theorem bitmap_lifetime_oneLog : RunWith CountersSuffice .opened (MemSystem.opened.getDirtyLog 0 0) ∧
    BitmapsSafe CountersSuffice (MemSystem.opened.getDirtyLog 0 0) := by
  have hstep : MemStep .opened (MemSystem.opened.getDirtyLog 0 0) := .getDirtyLog 0 fun c hc => by cases hc
  have hlogs : FewLogs .opened := by
    intro T hT
    have hempty : T = ∅ := Finset.eq_empty_of_forall_notMem fun t ht => by
      obtain ⟨c, hc, -⟩ := hT t ht
      cases hc
    rw [hempty]
    decide
  have hrun : RunWith CountersSuffice .opened (MemSystem.opened.getDirtyLog 0 0) :=
    ReflTransGen.single ⟨hstep, fewCommits_of_lt (by decide), hlogs⟩
  exact ⟨hrun, bitmap_lifetime hrun⟩

/-! ### When the version comes round -/

section Counterexample

/-- A slot of one page with a bitmap, the slot without memory, and an empty second slot. -/
def loggedPage : KvmMemoryRegion := { onePage with flags := 1 }
def removedSlot : KvmMemoryRegion := { onePage with memorySize := 0 }
def secondSlot : KvmMemoryRegion := { removedSlot with slot := 1 }

def loggedAllocs : RegionAllocs := { onePageAllocs with bitmap := some 2, bitmap_ne := by decide }

theorem loggedAllocs_fresh : loggedAllocs.Fresh [] := by
  refine ⟨fun _ _ => List.not_mem_nil, fun b hb => ⟨List.not_mem_nil, ?_⟩, fun _ _ _ => List.not_mem_nil, ?_⟩
  · obtain rfl := Option.some.inj hb
    decide
  · exact onePageAllocs_fresh.pages

def loggedSlot : Allocated := allocRegion loggedAllocs (newSlot loggedPage noMemory)
def removed : Allocated := allocRegion noAllocs (newSlot removedSlot loggedSlot.slot)

/-- The first slot, as the other ones are empty. -/
def withSlot (m : KvmMemorySlot) : Fin 4 → KvmMemorySlot := Function.update (fun _ => noMemory) 0 m

/-- What the scenario needs to know of a state. -/
structure Observed (s : MemSystem) (m : KvmMemorySlot) (version : BitVec 32) (live : List Resource) (c : MemCall) :
    Prop where
  run : ReflTransGen ThreadStep .opened s
  slots : s.kvm.memslots = withSlot m
  version : s.kvm.memoryConfigVersion = version
  busy : s.kvm.busy = 0
  live : s.live = live
  first : s.calls 0 = some c
  free : ∀ t, t ≠ 0 → s.Free t

/-- The first thread creates the slot. -/
theorem observed_created : ∃ s, Observed s loggedSlot.slot 1 (runOps [] loggedSlot.ops) (.returned 0 none) ∧
    s.kvm.pageArray 1 0 = 7 := by
  have halloc := call_allocates (s := .opened) (t := 0) loggedPage (fun c hc => by cases hc) rfl rfl
    loggedAllocs_fresh rfl rfl
  have hreturn := call_returns (MemSystem.setCall_self { MemSystem.opened with
    kvm := loggedSlot.store noMemory MemSystem.opened.kvm
    live := runOps [] loggedSlot.ops } 0 (.allocated loggedPage 0 noMemory loggedSlot 0 0)) rfl rfl
  refine ⟨_, ⟨halloc.trans hreturn, rfl, rfl, rfl, rfl, rfl, fun t ht c hc => ?_⟩, rfl⟩
  rw [MemSystem.setCall_of_ne ht] at hc
  rw [MemSystem.setCall_of_ne ht] at hc
  cases hc

variable {m : KvmMemorySlot} {version : BitVec 32} {live : List Resource}

/-- It starts a call with the same request, and gets past the checks and allocations. -/
theorem Observed.recreate (h : Observed s loggedSlot.slot version live (.returned 0 none)) :
    ∃ s' start, Observed s' loggedSlot.slot version live
      (.allocated loggedPage 0 loggedSlot.slot (allocRegion noAllocs (newSlot loggedPage loggedSlot.slot)) version start) ∧
      s'.kvm.pageArray = s.kvm.pageArray := by
  have hfree : s.Free 0 := fun c hc => by
    rw [h.first] at hc
    exact ⟨0, none, (Option.some.inj hc).symm⟩
  have hold : s.kvm.memslots 0 = loggedSlot.slot := by
    rw [h.slots]
    rfl
  have hcheck : checkRegion s.kvm loggedPage 0 = none := by
    have hsame : checkRegion s.kvm loggedPage 0 = checkRegion { s.kvm with memslots := withSlot loggedSlot.slot } loggedPage 0 :=
      checkRegion_congr h.slots _ _
    rw [hsame]
    rfl
  have halloc := call_allocates (t := 0) loggedPage hfree rfl hcheck (noAllocs_fresh _) hold rfl
  rw [h.version] at halloc
  exact ⟨_, s.commits, ⟨h.run.trans halloc, h.slots, h.version, h.busy, h.live, MemSystem.setCall_self .., fun t ht c hc =>
    h.free t ht c (by rwa [MemSystem.setCall_of_ne ht] at hc)⟩, rfl⟩

/-- Another thread changes a slot, and allocates nothing. -/
theorem Observed.other (h : Observed s m version live c) (mem : KvmMemoryRegion) (slot : Fin 4) (x : Allocated)
    (m' : KvmMemorySlot) (hslot : mem.sanityChecks = some slot) (hcheck : checkRegion { s.kvm with memslots := withSlot m } mem slot = none)
    (hx : x = allocRegion noAllocs (newSlot mem (withSlot m slot))) (hok : x.ok = true) (hops : x.ops = [])
    (hstore : ∀ kvm, (x.store (withSlot m slot) kvm).pageArray = kvm.pageArray)
    (hm : Function.update (withSlot m) slot x.slot = withSlot m') :
    ∃ s', Observed s' m' (version + 1#32)
      (runOps live (kvmFreePhysmemSlot (fun i => some (s.kvm.pageArray (withSlot m slot).physMem i)) (withSlot m slot)
        (some x.slot))) c ∧ s'.kvm.pageArray = s.kvm.pageArray := by
  have hold : s.kvm.memslots slot = withSlot m slot := by rw [h.slots]
  have hcheck' : checkRegion s.kvm mem slot = none := by
    rw [← hcheck]
    exact checkRegion_congr h.slots _ _
  have halloc := call_allocates mem (h.free 1 (by decide)) hslot hcheck' (noAllocs_fresh _) hold hx
  generalize hs1 : ({ s with kvm := x.store (withSlot m slot) s.kvm, live := runOps s.live x.ops }.setCall 1
    (.allocated mem slot (withSlot m slot) x s.kvm.memoryConfigVersion s.commits) : MemSystem) = s1 at halloc
  have hlive1 : s1.live = live := by
    rw [← hs1, ← h.live]
    show runOps s.live x.ops = s.live
    rw [hops]
    rfl
  have hcall1 : s1.calls 1 = some (.allocated mem slot (withSlot m slot) x s1.kvm.memoryConfigVersion s.commits) := by
    rw [← hs1]
    exact MemSystem.setCall_self ..
  have hcalls1 : ∀ t, t ≠ 1 → s1.calls t = s.calls t := by
    intro t ht
    rw [← hs1]
    exact MemSystem.setCall_of_ne ht
  have hkvm1 : s1.kvm.memslots = withSlot m ∧ s1.kvm.memoryConfigVersion = version ∧ s1.kvm.busy = 0 ∧
      s1.kvm.pageArray = s.kvm.pageArray := by
    rw [← hs1]
    exact ⟨h.slots, h.version, h.busy, hstore s.kvm⟩
  obtain ⟨hslots1, hversion1, hbusy1, harray1⟩ := hkvm1
  have hreturn := call_returns hcall1 hok hbusy1
  rw [harray1] at hreturn
  refine ⟨_, ⟨h.run.trans (halloc.trans hreturn), ?_, ?_, hbusy1, ?_, ?_, ?_⟩, harray1⟩
  · show Function.update s1.kvm.memslots slot x.slot = _
    rw [hslots1]
    exact hm
  · show s1.kvm.memoryConfigVersion + 1#32 = _
    rw [hversion1]
  · exact congrArg (fun l => runOps l _) hlive1
  · rw [MemSystem.setCall_of_ne (by decide)]
    exact (hcalls1 0 (by decide)).trans h.first
  · intro t ht c' hc'
    by_cases ht1 : t = 1
    · subst ht1
      rw [MemSystem.setCall_self] at hc'
      exact ⟨0, none, (Option.some.inj hc').symm⟩
    · rw [MemSystem.setCall_of_ne ht1] at hc'
      exact h.free t ht c' ((hcalls1 t ht1).symm.trans hc')

/-- It frees the memory of the slot. -/
theorem Observed.remove (h : Observed s loggedSlot.slot version (runOps [] loggedSlot.ops) c)
    (harray : s.kvm.pageArray 1 0 = 7) :
    ∃ s', Observed s' noMemory (version + 1#32) [] c ∧ s'.kvm.pageArray = s.kvm.pageArray := by
  obtain ⟨s', h', harray'⟩ := h.other removedSlot 0 removed noMemory rfl rfl rfl rfl rfl (fun _ => rfl) (by
    unfold withSlot
    rw [Function.update_idem]
    rfl)
  refine ⟨s', ?_, harray'⟩
  have hops : kvmFreePhysmemSlot (fun i => some (s.kvm.pageArray (withSlot loggedSlot.slot 0).physMem i))
      (withSlot loggedSlot.slot 0) (some removed.slot) = [.freePage (some (s.kvm.pageArray 1 0)), .vfree 1, .vfree 2] := rfl
  rw [hops, harray] at h'
  exact h'

/-- It commits the second slot over and over again. -/
theorem Observed.commits (h : Observed s noMemory version live c) (n : Nat) :
    ∃ s', Observed s' noMemory (version + BitVec.ofNat 32 n) live c ∧ s'.kvm.pageArray = s.kvm.pageArray := by
  induction n with
  | zero => exact ⟨s, by simpa using h, rfl⟩
  | succ n ih =>
    obtain ⟨s', h', harray⟩ := ih
    have hsecond : (allocRegion noAllocs (newSlot secondSlot noMemory)).slot = noMemory := rfl
    obtain ⟨s2, h2, harray2⟩ := h'.other secondSlot 1 (allocRegion noAllocs (newSlot secondSlot noMemory)) noMemory
      rfl rfl rfl rfl rfl (fun _ => rfl) (by
        rw [hsecond]
        unfold withSlot
        rw [Function.update_eq_self_iff.2 (Function.update_of_ne (by decide) ..).symm])
    rw [BitVec.add_assoc, ← BitVec.ofNat_add] at h2
    exact ⟨s2, h2, harray2.trans harray⟩

/-- After `2 ^ 32` commits of the other thread the first one commits the slot that has been removed.  Its memory has been
freed. -/
theorem observed_stale : ∃ s version, Observed s loggedSlot.slot version [] (.returned 0 none) ∧ 0 < s.kvm.nmemslots := by
  obtain ⟨s1, h1, harray1⟩ := observed_created
  obtain ⟨s2, start, h2, harray2⟩ := h1.recreate
  obtain ⟨s3, h3, -⟩ := h2.remove (by rw [harray2, harray1])
  obtain ⟨s4, h4, -⟩ := h3.commits (2 ^ 32 - 1)
  have hversion : (1 : BitVec 32) + 1#32 + BitVec.ofNat 32 (2 ^ 32 - 1) = 1 := by decide
  rw [hversion] at h4
  have hcall := h4.first
  rw [← h4.version] at hcall
  have hreturn := call_returns hcall rfl h4.busy
  refine ⟨_, _, ⟨h4.run.trans hreturn, ?_, rfl, h4.busy, ?_, MemSystem.setCall_self .., fun t ht c hc => ?_⟩, ?_⟩
  · show Function.update s4.kvm.memslots 0 _ = _
    rw [h4.slots]
    unfold withSlot
    rw [Function.update_idem]
    rfl
  · exact congrArg (fun l => runOps l _) h4.live
  · rw [MemSystem.setCall_of_ne ht] at hc
    exact h4.free t ht c hc
  · show 0 < (if s4.kvm.nmemslots ≤ 0 then 0 + 1 else s4.kvm.nmemslots)
    split <;> omega

end Counterexample

/-- A call of KVM_GET_DIRTY_LOG reads a bitmap that has been freed. -/
theorem freed_bitmap_read : ¬∀ s, RunWith (fun _ => True) .opened s → BitmapsSafe (fun _ => True) s := by
  intro hall
  obtain ⟨s, version, h, -⟩ := observed_stale
  have hbegin : ThreadStep s (s.getDirtyLog 2 0) := .getDirtyLog 0 (h.free 2 (by decide))
  have hslot : (s.getDirtyLog 2 0).kvm.memslots 0 = loggedSlot.slot := by
    show s.kvm.memslots 0 = _
    rw [h.slots]
    rfl
  have hscan := ThreadStep.call (s := s.getDirtyLog 2 0) true (MemSystem.setCall_self _ 2 _) (noAllocs_fresh _)
  obtain ⟨n, any, heq⟩ : ∃ n any, MemCall.step (s.getDirtyLog 2 0) 2 noAllocs true (.logBusy 0) =
      (s.getDirtyLog 2 0).setCall 2 (.logScanned 0 n any) := by
    unfold MemCall.step
    dsimp only
    rw [dif_neg (by decide), if_neg (by rw [show (⟨(0 : BitVec 32).toNat, _⟩ : Fin 4) = 0 from rfl, hslot]; decide)]
    exact ⟨_, _, rfl⟩
  rw [heq] at hscan
  have hrun : RunWith (fun _ => True) .opened ((s.getDirtyLog 2 0).setCall 2 (.logScanned 0 n any)) := by
    refine ReflTransGen.lift id (fun _ _ h => ?_) _ _ ((h.run.tail hbegin).tail hscan)
    exact ⟨h.memStep, trivial⟩
  have hsafe := hall _ hrun
  obtain ⟨hmem, -⟩ := hsafe.reads 2 _ 0 n (MemSystem.setCall_self ..) rfl
  have hmem : Resource.array ((s.getDirtyLog 2 0).kvm.memslots 0).dirtyBitmap ∈ s.live := hmem
  rw [h.live] at hmem
  cases hmem

end LearnKvm
