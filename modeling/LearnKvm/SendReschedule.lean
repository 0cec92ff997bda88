import LearnKvm.Lib.ThreadPool
import Mathlib.Data.List.Nodup
import Mathlib.Logic.Function.Basic
import Mathlib.Logic.Relation

/-!
# Kicking a CPU (`kvm_smp_send_reschedule`)

With interrupts enabled `vcpu_kick_intr` is sent at once.  With interrupts disabled a `struct kvm_kick` is queued, and the
work function sends the kick later, from whatever CPU it runs on.  The allocation may fail, and nobody fills in the `cpu` of
the object: `kvm_queue_smp_call_function` drops its argument.

A state of `KickState` is the heap and the calls made so far, each with the state of its work item and the kicks that it has
led to.  `kickRun_right` says that every call does what it should in a run where each deferred call gets an object whose
`cpu` happens to be the right one.
-/

namespace LearnKvm

variable {Cpu : Type}

structure KvmKick (Cpu : Type) where
  cpu : Cpu

/-- Where a call of `kvm_smp_send_reschedule` has got to. -/
inductive KickPc (Cpu : Type) where
  /-- Sent without a work item. -/
  | direct
  /-- The work item could not be made. -/
  | noMemory
  | queued (kick : Nat)
  /-- `kvm_do_smp_call_function` runs on the CPU `me`. -/
  | running (kick : Nat) (me : Cpu)
  | compared (kick : Nat) (me : Cpu)
  | done (me : Cpu)

structure KickCall (Cpu : Type) where
  cpu : Cpu
  pc : KickPc Cpu
  /-- The CPUs that `vcpu_kick_intr` was sent to because of this call, and how often its object was freed. -/
  sent : List Cpu
  frees : Nat

structure KickState (Cpu : Type) where
  heap : Nat → Option (KvmKick Cpu)
  calls : List (KickCall Cpu)
  /-- A null pointer, or an object that is not allocated, was used. -/
  nullUsed : Bool
  deadUsed : Bool

section Code

variable [DecidableEq Cpu]

/-- `kvm_queue_smp_call_function`, with what `kmalloc` returns: an object and what it contains, or no memory. -/
def kvmQueueSmpCallFunction (s : KickState Cpu) (cpu : Cpu) : Option (Nat × KvmKick Cpu) → KickState Cpu
  -- `INIT_WORK` writes to the object
  | none => { s with calls := s.calls ++ [⟨cpu, .noMemory, [], 0⟩], nullUsed := true }
  | some (p, kick) =>
    { s with heap := Function.update s.heap p (some kick), calls := s.calls ++ [⟨cpu, .queued p, [], 0⟩] }

def kvmSmpSendReschedule (s : KickState Cpu) (irqsDisabled : Bool) (cpu : Cpu) (kmalloc : Option (Nat × KvmKick Cpu)) :
    KickState Cpu :=
  if irqsDisabled then kvmQueueSmpCallFunction s cpu kmalloc
  else { s with calls := s.calls ++ [⟨cpu, .direct, [cpu], 0⟩] }

/-- `if (kvm_kick->cpu != me) smp_call_function_single(kvm_kick->cpu, ...)`. -/
def KickCall.compare (call : KickCall Cpu) (p : Nat) (me : Cpu) (kick : KvmKick Cpu) : KickCall Cpu :=
  { call with pc := .compared p me, sent := if kick.cpu ≠ me then call.sent ++ [kick.cpu] else call.sent }

/-- The steps of the system, where `ok` says which calls are made. -/
inductive KickStep (ok : Bool → Cpu → Option (Nat × KvmKick Cpu) → Prop) : KickState Cpu → KickState Cpu → Prop
  | call {s} (irqsDisabled : Bool) (cpu : Cpu) (kmalloc : Option (Nat × KvmKick Cpu))
      (hok : ok irqsDisabled cpu kmalloc) (hfresh : ∀ p kick, kmalloc = some (p, kick) → s.heap p = none) :
      KickStep ok s (kvmSmpSendReschedule s irqsDisabled cpu kmalloc)
  | getCpu {s calls call p} (me : Cpu) (hpc : call.pc = .queued p)
      (h : Replaces call { call with pc := .running p me } s.calls calls) : KickStep ok s { s with calls := calls }
  | compare {s calls call p me kick} (hpc : call.pc = .running p me) (hkick : s.heap p = some kick)
      (h : Replaces call (call.compare p me kick) s.calls calls) : KickStep ok s { s with calls := calls }
  | compareDead {s call p me} (hpc : call.pc = .running p me) (hmem : call ∈ s.calls) (hkick : s.heap p = none) :
      KickStep ok s { s with deadUsed := true }
  | kfree {s calls call p me} (hpc : call.pc = .compared p me) (hlive : s.heap p ≠ none)
      (h : Replaces call { call with pc := .done me, frees := call.frees + 1 } s.calls calls) :
      KickStep ok s { s with heap := Function.update s.heap p none, calls := calls }
  | kfreeDead {s call p me} (hpc : call.pc = .compared p me) (hmem : call ∈ s.calls) (hdead : s.heap p = none) :
      KickStep ok s { s with deadUsed := true }

/-- Nothing has been called yet. -/
structure KickStart (s : KickState Cpu) : Prop where
  calls : s.calls = []
  nullUsed : s.nullUsed = false
  deadUsed : s.deadUsed = false

def KickReachable (ok : Bool → Cpu → Option (Nat × KvmKick Cpu) → Prop) (s : KickState Cpu) : Prop :=
  ∃ s₀, KickStart s₀ ∧ Relation.ReflTransGen (KickStep ok) s₀ s

/-! ### What a call leads to -/

/-- The kicks that a call should have led to: one of the CPU that was asked for, unless its work item has not looked yet, it
runs on that CPU or there was no memory. -/
def KickCall.expected (call : KickCall Cpu) : List Cpu :=
  match call.pc with
  | .direct => [call.cpu]
  | .noMemory | .queued _ | .running _ _ => []
  | .compared _ me | .done me => if call.cpu ≠ me then [call.cpu] else []

/-- The object of a call is freed when its work item is done. -/
def KickCall.expectedFrees (call : KickCall Cpu) : Nat :=
  match call.pc with
  | .done _ => 1
  | _ => 0

structure KickState.Right (s : KickState Cpu) : Prop where
  sent : ∀ call ∈ s.calls, call.sent = call.expected
  frees : ∀ call ∈ s.calls, call.frees = call.expectedFrees
  nullUsed : s.nullUsed = false
  deadUsed : s.deadUsed = false

/-- The object that a call has in the heap. -/
def KickCall.object (call : KickCall Cpu) : Option Nat :=
  match call.pc with
  | .queued p | .running p _ | .compared p _ => some p
  | _ => none

/-- The objects are there and hold the CPUs that were asked for. -/
structure KickInv (s : KickState Cpu) : Prop where
  right : s.Right
  objects : ∀ call ∈ s.calls, ∀ p, call.object = some p → s.heap p = some ⟨call.cpu⟩
  distinct : (s.calls.filterMap KickCall.object).Nodup

/-- A deferred call that gets an object whose `cpu` is already the one that was asked for. -/
def LuckyKmalloc (irqsDisabled : Bool) (cpu : Cpu) (kmalloc : Option (Nat × KvmKick Cpu)) : Prop :=
  irqsDisabled = true → ∃ p, kmalloc = some (p, ⟨cpu⟩)

theorem KickInv.object_ne {s : KickState Cpu} (h : KickInv s) {call : KickCall Cpu} (hmem : call ∈ s.calls) {p q : Nat}
    (hp : s.heap p = none) (hq : call.object = some q) : q ≠ p := by
  rintro rfl
  rw [h.objects call hmem q hq] at hp
  cases hp

end Code

section Run

variable [DecidableEq Cpu] {s : KickState Cpu}

theorem KickStart.inv (h : KickStart s) : KickInv s := by
  obtain ⟨hcalls, hnull, hdead⟩ := h
  have hright : s.Right := ⟨by simp [hcalls], by simp [hcalls], hnull, hdead⟩
  exact ⟨hright, by simp [hcalls], by simp [hcalls]⟩

/-- One more call that has done all it should so far. -/
theorem KickState.Right.add (h : s.Right) {call : KickCall Cpu} (hsent : call.sent = call.expected)
    (hfrees : call.frees = call.expectedFrees) (heap : Nat → Option (KvmKick Cpu)) :
    KickState.Right { s with heap := heap, calls := s.calls ++ [call] } where
  sent := List.forall_mem_append.2 ⟨h.sent, List.forall_mem_singleton.2 hsent⟩
  frees := List.forall_mem_append.2 ⟨h.frees, List.forall_mem_singleton.2 hfrees⟩
  nullUsed := h.nullUsed
  deadUsed := h.deadUsed

theorem KickInv.add_direct (h : KickInv s) (cpu : Cpu) :
    KickInv { s with calls := s.calls ++ [⟨cpu, .direct, [cpu], 0⟩] } where
  right := h.right.add rfl rfl s.heap
  objects := List.forall_mem_append.2 ⟨h.objects, List.forall_mem_singleton.2 fun _ hp => by cases hp⟩
  distinct := by
    have hobjects : List.filterMap KickCall.object (s.calls ++ [⟨cpu, .direct, [cpu], 0⟩]) =
        s.calls.filterMap KickCall.object := by rw [List.filterMap_append]; exact List.append_nil _
    rw [hobjects]
    exact h.distinct

/-- The new object holds the right CPU. -/
theorem KickInv.add_queued (h : KickInv s) (cpu : Cpu) {p : Nat} (hfresh : s.heap p = none) :
    KickInv { s with
      heap := Function.update s.heap p (some ⟨cpu⟩)
      calls := s.calls ++ [⟨cpu, .queued p, [], 0⟩] } where
  right := h.right.add rfl rfl _
  objects := by
    refine List.forall_mem_append.2 ⟨fun call hcall q hq => ?_, List.forall_mem_singleton.2 fun q hq => ?_⟩
    · exact (Function.update_of_ne (h.object_ne hcall hfresh hq) _ _).trans (h.objects call hcall q hq)
    · cases hq
      exact Function.update_self ..
  distinct := by
    have hnew : p ∉ s.calls.filterMap KickCall.object := by
      intro hmem
      obtain ⟨call, hcall, hp⟩ := List.mem_filterMap.1 hmem
      exact h.object_ne hcall hfresh hp rfl
    have hobjects : List.filterMap KickCall.object (s.calls ++ [⟨cpu, .queued p, [], 0⟩]) =
        s.calls.filterMap KickCall.object ++ [p] := by rw [List.filterMap_append]; rfl
    rw [hobjects]
    exact h.distinct.append (List.nodup_singleton p) (by simpa using hnew)

/-- A work item goes on with the same object. -/
theorem KickInv.move (h : KickInv s) {call call' : KickCall Cpu} {calls : List (KickCall Cpu)}
    (hR : Replaces call call' s.calls calls) (hobject : call'.object = call.object) (hcpu : call'.cpu = call.cpu)
    (hsent : call'.sent = call'.expected) (hfrees : call'.frees = call'.expectedFrees) :
    KickInv { s with calls := calls } where
  right := ⟨hR.forall_mem h.right.sent hsent, hR.forall_mem h.right.frees hfrees, h.right.nullUsed, h.right.deadUsed⟩
  objects := hR.forall_mem h.objects fun p hp => hcpu ▸ h.objects call hR.mem p (hobject ▸ hp)
  distinct := hR.filterMap_eq hobject ▸ h.distinct

theorem KickInv.free (h : KickInv s) {call : KickCall Cpu} {calls : List (KickCall Cpu)} {p : Nat} {me : Cpu}
    (hpc : call.pc = .compared p me)
    (hR : Replaces call { call with pc := .done me, frees := call.frees + 1 } s.calls calls) :
    KickInv { s with heap := Function.update s.heap p none, calls := calls } := by
  have hobject : call.object = some p := by simp [KickCall.object, hpc]
  have hperm := hR.symm.filterMap_perm (f := KickCall.object) rfl hobject
  have hdistinct : (calls.filterMap KickCall.object ++ [p]).Nodup := hperm.nodup_iff.2 h.distinct
  have hothers : ∀ c ∈ calls, c.object ≠ some p := by
    intro c hc hp
    exact (List.nodup_append.1 hdistinct).2.2 p (List.mem_filterMap.2 ⟨c, hc, hp⟩) p (by simp) rfl
  have hsent := h.right.sent call hR.mem
  have hfrees := h.right.frees call hR.mem
  simp only [KickCall.expected, KickCall.expectedFrees, hpc] at hsent hfrees
  have hkept : ∀ c ∈ calls, ∀ q, c.object = some q → s.heap q = some ⟨c.cpu⟩ :=
    hR.forall_mem h.objects fun q hq => by cases hq
  constructor
  · refine ⟨hR.forall_mem h.right.sent ?_, hR.forall_mem h.right.frees ?_, h.right.nullUsed, h.right.deadUsed⟩
    · exact hsent
    · exact congrArg Nat.succ hfrees
  · intro c hc q hq
    have hne : q ≠ p := by
      rintro rfl
      exact hothers c hc hq
    exact (Function.update_of_ne hne _ _).trans (hkept c hc q hq)
  · exact (List.nodup_append.1 hdistinct).1

theorem KickInv.step {s' : KickState Cpu} (h : KickInv s) (hstep : KickStep LuckyKmalloc s s') : KickInv s' := by
  cases hstep with
  | call irqsDisabled cpu kmalloc hok hfresh =>
    cases irqsDisabled with
    | false => exact h.add_direct cpu
    | true =>
      obtain ⟨p, rfl⟩ := hok rfl
      exact h.add_queued cpu (hfresh p _ rfl)
  | getCpu me hpc hR =>
    have hsent := h.right.sent _ hR.mem
    have hfrees := h.right.frees _ hR.mem
    simp only [KickCall.expected, KickCall.expectedFrees, hpc] at hsent hfrees
    exact h.move hR (by simp [KickCall.object, hpc]) rfl hsent hfrees
  | @compare calls call p me kick hpc hkick hR =>
    have hobject : call.object = some p := by simp [KickCall.object, hpc]
    have hsent := h.right.sent _ hR.mem
    have hfrees := h.right.frees _ hR.mem
    simp only [KickCall.expected, KickCall.expectedFrees, hpc] at hsent hfrees
    -- the object holds the CPU that was asked for
    have hcpu : kick = ⟨call.cpu⟩ := by
      rw [h.objects call hR.mem p hobject] at hkick
      exact (Option.some.inj hkick).symm
    subst hcpu
    refine h.move hR hobject.symm rfl ?_ hfrees
    simp only [KickCall.compare, KickCall.expected, hsent, List.nil_append]
  | compareDead hpc hmem hkick =>
    exact absurd rfl (h.object_ne hmem hkick (by simp [KickCall.object, hpc]))
  | kfree hpc hlive hR => exact h.free hpc hR
  | kfreeDead hpc hmem hdead =>
    exact absurd rfl (h.object_ne hmem hdead (by simp [KickCall.object, hpc]))

theorem KickInv.run (h : KickReachable LuckyKmalloc s) : KickInv s := by
  obtain ⟨s₀, hstart, hrun⟩ := h
  induction hrun with
  | refl => exact hstart.inv
  | tail _ hstep ih => exact ih.step hstep

/-- Every call does what it should if each deferred one gets an object whose `cpu` is already the right one. -/
theorem kickRun_right (h : KickReachable LuckyKmalloc s) : s.Right := (KickInv.run h).right

/-- A work item whose object holds another CPU sends a kick too many, too few or to the wrong CPU. -/
theorem KickCall.compare_wrong {call : KickCall Cpu} {p : Nat} {me : Cpu} {kick : KvmKick Cpu} (hcpu : kick.cpu ≠ call.cpu)
    (hsent : call.sent = []) : (call.compare p me kick).sent ≠ (call.compare p me kick).expected := by
  simp only [KickCall.compare, KickCall.expected, hsent, List.nil_append]
  by_cases hkick : kick.cpu = me
  · subst hkick
    simp [Ne.symm hcpu]
  · by_cases hcall : call.cpu = me <;> simp [hkick, hcall, hcpu]

end Run

/-- CPU 1 is kicked at once, and again by a work item that runs on CPU 2. -/
def luckyKick : KickState Nat :=
  ⟨Function.update (Function.update (fun _ => none) 5 (some ⟨1⟩)) 5 none,
    [⟨1, .direct, [1], 0⟩, ⟨1, .done 2, [1], 1⟩], false, false⟩

theorem kickRun_right_luckyKick : luckyKick.Right := by
  refine kickRun_right ⟨⟨fun _ => none, [], false, false⟩, ⟨rfl, rfl, rfl⟩, ?_⟩
  refine .head (.call false 1 none (fun h => by cases h) fun _ _ h => by cases h) ?_
  refine .head (.call true 1 (some (5, ⟨1⟩)) (fun _ => ⟨5, rfl⟩) fun _ _ _ => rfl) ?_
  refine .head (.getCpu 2 rfl ⟨[⟨1, .direct, [1], 0⟩], [], rfl, rfl⟩) ?_
  refine .head (.compare rfl (Function.update_self ..) ⟨[⟨1, .direct, [1], 0⟩], [], rfl, rfl⟩) ?_
  exact .single (.kfree rfl (by simp [kvmSmpSendReschedule, kvmQueueSmpCallFunction])
    ⟨[⟨1, .direct, [1], 0⟩], [], rfl, rfl⟩)

/-! ### Runs without luck -/

/-- The state after CPU 1 was to be kicked with interrupts disabled and the work item has run on CPU 2: the object held 0. -/
def wrongKick : KickState Nat :=
  ⟨Function.update (fun _ => none) 5 (some ⟨0⟩), [⟨1, .compared 5 2, [0], 0⟩], false, false⟩

theorem wrongKick_reachable : KickReachable (fun _ _ _ => True) wrongKick := by
  refine ⟨⟨fun _ => none, [], false, false⟩, ⟨rfl, rfl, rfl⟩, ?_⟩
  refine .head (.call true 1 (some (5, ⟨0⟩)) trivial fun _ _ _ => rfl) ?_
  refine .head (.getCpu 2 rfl ⟨[], [], rfl, rfl⟩) ?_
  exact .single (.compare rfl (Function.update_self ..) ⟨[], [], rfl, rfl⟩)

/-- With arbitrary allocations the kick may go to another CPU. -/
theorem kickRun_wrong : ¬ ∀ s : KickState Nat, KickReachable (fun _ _ _ => True) s → s.Right := by
  intro hall
  have hsent := (hall wrongKick wrongKick_reachable).sent ⟨1, .compared 5 2, [0], 0⟩ (by simp [wrongKick])
  exact absurd hsent (by decide)

end LearnKvm
