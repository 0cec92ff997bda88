import Mathlib.Logic.Function.Basic
import Mathlib.Logic.Relation

/-!
# Who has the VMCS

A VMCS may be active on one processor only.  `__vcpu_load` moves it: when the vcpu was on another processor, it makes
all other processors run `__vcpu_clear` before it loads the VMCS.  `per_cpu(current_vmcs)` remembers what is loaded, and
`vcpu->launched` whether the next entry is a VMRESUME.  The processors are `VmxHw`; a call of a vcpu, or
`kvm_free_vmcs`, takes a step (`VmcsStep`) between any two steps of the others, and each `__vcpu_clear` is a step of its
own.

The three agree (`VmcsSafe`) in every run in which the entry by VMLAUNCH does not fail on the state of the guest, and no
vcpu is loaded while its VMCS is being freed (`vmcs_owned`).  A failed entry looks like an exit, so it sets
`vcpu->launched`, but the processor has not launched the VMCS (`vmresume_not_launched`).
-/

namespace LearnKvm

open Relation

/-! ### The processors -/

/-- The VMCS that is current on each processor, those that are active there, and the launch states. -/
structure VmxHw (Cpu : Type) where
  current : Cpu → Option Nat
  active : Cpu → Nat → Bool
  launched : Nat → Bool

/-- How a VM entry that gets past its first checks goes on. -/
inductive EntryOutcome where
  /-- The checks of the controls or of the host state fail, and the flags say so. -/
  | failValid
  /-- The checks of the guest state fail, and the processor loads the host state as in an exit. -/
  | failedEntry
  /-- The guest runs until an exit. -/
  | exited
  deriving DecidableEq

section Hardware

variable {Cpu : Type} [DecidableEq Cpu]

namespace VmxHw

def vmclear (hw : VmxHw Cpu) (c : Cpu) (p : Nat) : VmxHw Cpu where
  current := if hw.current c = some p then Function.update hw.current c none else hw.current
  active := fun d q => if d = c ∧ q = p then false else hw.active d q
  launched := Function.update hw.launched p false

def vmptrld (hw : VmxHw Cpu) (c : Cpu) (p : Nat) : VmxHw Cpu where
  current := Function.update hw.current c (some p)
  active := fun d q => if d = c ∧ q = p then true else hw.active d q
  launched := hw.launched

/-- VMLAUNCH, or VMRESUME, with the flags that `setbe` tests. -/
def enter (hw : VmxHw Cpu) (c : Cpu) (resume : Bool) (outcome : EntryOutcome) : VmxHw Cpu × Bool :=
  match hw.current c with
  | none => (hw, true)
  | some p =>
    if hw.launched p != resume then (hw, true)
    else
      match outcome with
      | .failValid => (hw, true)
      | .failedEntry => (hw, false)
      | .exited => ({ hw with launched := Function.update hw.launched p true }, false)

variable {hw : VmxHw Cpu} {c d : Cpu} {p q : Nat}

@[simp] theorem vmclear_active : (hw.vmclear c p).active d q = true ↔ hw.active d q = true ∧ ¬(d = c ∧ q = p) := by
  unfold vmclear
  dsimp only
  split
  · rename_i h
    simp [h]
  · rename_i h
    simp [h]

@[simp] theorem vmclear_current : (hw.vmclear c p).current d = some q ↔ hw.current d = some q ∧ ¬(d = c ∧ q = p) := by
  unfold vmclear
  dsimp only
  split
  · rename_i h
    by_cases hd : d = c
    · subst hd
      simp [h, eq_comm]
    · simp [hd]
  · rename_i h
    refine ⟨fun hq => ⟨hq, ?_⟩, And.left⟩
    rintro ⟨rfl, rfl⟩
    exact h hq

@[simp] theorem vmclear_launched : (hw.vmclear c p).launched q = true ↔ q ≠ p ∧ hw.launched q = true := by
  unfold vmclear
  by_cases h : q = p
  · subst h
    simp
  · simp [h]

@[simp] theorem vmptrld_active : (hw.vmptrld c p).active d q = true ↔ (d = c ∧ q = p) ∨ hw.active d q = true := by
  unfold vmptrld
  dsimp only
  split
  · rename_i h
    simp [h]
  · rename_i h
    simp [h]

theorem vmptrld_current_self : (hw.vmptrld c p).current c = some p := Function.update_self ..

theorem vmptrld_current_of_ne (h : d ≠ c) : (hw.vmptrld c p).current d = hw.current d := Function.update_of_ne h ..

@[simp] theorem vmptrld_launched : (hw.vmptrld c p).launched = hw.launched := rfl

omit [DecidableEq Cpu] in
/-- An entry changes launch states only, to "launched". -/
theorem enter_cases (hw : VmxHw Cpu) (c : Cpu) (resume : Bool) (outcome : EntryOutcome) :
    (hw.enter c resume outcome).1 = hw ∧ ((hw.enter c resume outcome).2 = true ∨
      outcome = .failedEntry ∧ ∃ p, hw.current c = some p ∧ hw.launched p = resume) ∨
    ∃ p, hw.current c = some p ∧
      (hw.enter c resume outcome).1 = { hw with launched := Function.update hw.launched p true } := by
  unfold enter
  cases hc : hw.current c with
  | none => exact Or.inl ⟨rfl, Or.inl rfl⟩
  | some p =>
    dsimp only
    cases hl : hw.launched p != resume with
    | true => exact Or.inl ⟨rfl, Or.inl rfl⟩
    | false =>
      cases outcome with
      | failValid => exact Or.inl ⟨rfl, Or.inl rfl⟩
      | failedEntry => exact Or.inl ⟨rfl, Or.inr ⟨rfl, p, rfl, by simpa using hl⟩⟩
      | exited => exact Or.inr ⟨p, rfl, rfl⟩

end VmxHw

end Hardware

/-! ### The state of the module -/

/-- The fields of `struct kvm_vcpu`; `cpu` is `none` for -1. -/
structure VmcsVcpu (Cpu : Type) where
  vmcs : Option Nat
  cpu : Option Cpu
  launched : Bool

/-- The thread that holds the mutex of a vcpu. -/
inductive VcpuUse (Cpu : Type) where
  | idle
  /-- KVM_CREATE_VCPU before it loads the vcpu. -/
  | created
  /-- In `__vcpu_load` on the processor `c`; the `pending` ones have not run `__vcpu_clear` yet. -/
  | loading (c : Cpu) (pending : Cpu → Bool)
  | loaded (c : Cpu)

structure VmcsState (Cpu V : Type) where
  hw : VmxHw Cpu
  /-- `per_cpu(current_vmcs)`. -/
  currentVmcs : Cpu → Option Nat
  vcpus : V → VmcsVcpu Cpu
  use : V → VcpuUse Cpu
  /-- The processors that `kvm_free_vmcs` waits for. -/
  freeing : V → Option (Cpu → Bool)
  allocated : Nat → Bool

section Steps

variable {Cpu V : Type} [DecidableEq Cpu] [DecidableEq V]

/-- Before the first vcpu is created. -/
def VmcsState.init (Cpu V : Type) : VmcsState Cpu V where
  hw := { current := fun _ => none, active := fun _ _ => false, launched := fun _ => false }
  currentVmcs := fun _ => none
  vcpus := fun _ => { vmcs := none, cpu := none, launched := false }
  use := fun _ => .idle
  freeing := fun _ => none
  allocated := fun _ => false

/-- The thread runs on the processor, with preemption disabled. -/
def VcpuUse.On : VcpuUse Cpu → Cpu → Prop
  | loading c _, d => c = d
  | loaded c, d => c = d
  | _, _ => False

namespace VmcsState

/-- `__vcpu_clear` on the processor `c`. -/
def vcpuClear (s : VmcsState Cpu V) (v : V) (c : Cpu) : VmcsState Cpu V :=
  match (s.vcpus v).vmcs with
  | none => s
  | some p =>
    { s with
      hw := if (s.vcpus v).cpu = some c then s.hw.vmclear c p else s.hw
      currentVmcs := if s.currentVmcs c = some p then Function.update s.currentVmcs c none else s.currentVmcs }

/-- KVM_CREATE_VCPU up to `__vcpu_load`, with the mutex taken: `alloc_vmcs` returns `p`, and `vmcs_clear` runs on `c`. -/
def createVcpu (s : VmcsState Cpu V) (v : V) (c : Cpu) (p : Nat) (garbage : Bool) : VmcsState Cpu V :=
  { s with
    hw := { s.hw with launched := Function.update s.hw.launched p garbage }.vmclear c p
    vcpus := Function.update s.vcpus v { vmcs := some p, cpu := none, launched := false }
    use := Function.update s.use v .created
    allocated := Function.update s.allocated p true }

/-- `__vcpu_load` on `c` up to `smp_call_function`. -/
def vcpuLoad (s : VmcsState Cpu V) (v : V) (c : Cpu) : VmcsState Cpu V :=
  { s with use := Function.update s.use v (.loading c fun d => decide ((s.vcpus v).cpu ≠ some c ∧ d ≠ c)) }

/-- The rest of it. -/
def vcpuLoaded (s : VmcsState Cpu V) (v : V) (c : Cpu) (p : Nat) : VmcsState Cpu V :=
  let vcpu := s.vcpus v
  { s with
    hw := if s.currentVmcs c ≠ some p then s.hw.vmptrld c p else s.hw
    currentVmcs := Function.update s.currentVmcs c (some p)
    vcpus := Function.update s.vcpus v
      { vcpu with cpu := some c, launched := if vcpu.cpu ≠ some c then false else vcpu.launched }
    use := Function.update s.use v (.loaded c) }

/-- The entry in `kvm_dev_ioctl_run`. -/
def enter (s : VmcsState Cpu V) (v : V) (c : Cpu) (outcome : EntryOutcome) : VmcsState Cpu V :=
  let vcpu := s.vcpus v
  let (hw, fail) := s.hw.enter c vcpu.launched outcome
  { s with hw := hw, vcpus := if fail then s.vcpus else Function.update s.vcpus v { vcpu with launched := true } }

/-- The end of `kvm_free_vmcs`. -/
def freeVmcs (s : VmcsState Cpu V) (v : V) (p : Nat) : VmcsState Cpu V :=
  { s with
    vcpus := Function.update s.vcpus v { s.vcpus v with vmcs := none }
    freeing := Function.update s.freeing v none
    allocated := Function.update s.allocated p false }

end VmcsState

/-! ### Steps -/

inductive VmcsEvent (Cpu V : Type) where
  | create (v : V)
  | load (v : V)
  | clear (v : V) (c : Cpu)
  | loaded (v : V)
  | enter (v : V) (outcome : EntryOutcome)
  | put (v : V)
  | free (v : V)
  | freeClear (v : V) (c : Cpu)
  | freed (v : V)

/-- The steps.  `kvm_free_vmcs` does not take the mutex: it runs when the machine is released, and when
KVM_CREATE_VCPU fails after `vcpu_put`. -/
inductive VmcsStep : VmcsState Cpu V → VmcsEvent Cpu V → VmcsState Cpu V → Prop
  | create {s : VmcsState Cpu V} {v : V} (c : Cpu) (p : Nat) (garbage : Bool) (hidle : s.use v = .idle)
      (hnone : (s.vcpus v).vmcs = none) (hfresh : s.allocated p = false) :
      VmcsStep s (.create v) (s.createVcpu v c p garbage)
  | load {s : VmcsState Cpu V} {v : V} (c : Cpu) (huse : s.use v = .idle ∨ s.use v = .created)
      (hvmcs : (s.vcpus v).vmcs ≠ none) (hcpu : ∀ w, ¬(s.use w).On c) : VmcsStep s (.load v) (s.vcpuLoad v c)
  | clear {s : VmcsState Cpu V} {v : V} {c : Cpu} {pending : Cpu → Bool} (d : Cpu) (huse : s.use v = .loading c pending)
      (hd : pending d = true) : VmcsStep s (.clear v d)
        { s.vcpuClear v d with use := Function.update s.use v (.loading c (Function.update pending d false)) }
  | loaded {s : VmcsState Cpu V} {v : V} {c : Cpu} {pending : Cpu → Bool} {p : Nat} (huse : s.use v = .loading c pending)
      (hdone : ∀ d, pending d = false) (hvmcs : (s.vcpus v).vmcs = some p) : VmcsStep s (.loaded v) (s.vcpuLoaded v c p)
  | enter {s : VmcsState Cpu V} {v : V} {c : Cpu} (outcome : EntryOutcome) (huse : s.use v = .loaded c) :
      VmcsStep s (.enter v outcome) (s.enter v c outcome)
  | put {s : VmcsState Cpu V} {v : V} {c : Cpu} (huse : s.use v = .loaded c) :
      VmcsStep s (.put v) { s with use := Function.update s.use v .idle }
  | free {s : VmcsState Cpu V} {v : V} (hvmcs : (s.vcpus v).vmcs ≠ none) (hnone : s.freeing v = none) :
      VmcsStep s (.free v) { s with freeing := Function.update s.freeing v (some fun _ => true) }
  | freeClear {s : VmcsState Cpu V} {v : V} {pending : Cpu → Bool} (d : Cpu) (hfreeing : s.freeing v = some pending)
      (hd : pending d = true) : VmcsStep s (.freeClear v d)
        { s.vcpuClear v d with freeing := Function.update s.freeing v (some (Function.update pending d false)) }
  | freed {s : VmcsState Cpu V} {v : V} {pending : Cpu → Bool} {p : Nat} (hfreeing : s.freeing v = some pending)
      (hdone : ∀ d, pending d = false) (hvmcs : (s.vcpus v).vmcs = some p) : VmcsStep s (.freed v) (s.freeVmcs v p)

/-- A run whose steps satisfy `ok`. -/
def VmcsRun (ok : VmcsState Cpu V → VmcsEvent Cpu V → Prop) : VmcsState Cpu V → VmcsState Cpu V → Prop :=
  ReflTransGen fun s s' => ∃ e, VmcsStep s e s' ∧ ok s e

/-- No VMLAUNCH fails on the state of the guest, and no vcpu is in use while its VMCS is freed. -/
def VmcsEvent.Ok (s : VmcsState Cpu V) : VmcsEvent Cpu V → Prop
  | enter v outcome => outcome = .failedEntry → (s.vcpus v).launched = true
  | load v => s.freeing v = none
  | free v => s.use v = .idle
  | _ => True

end Steps

variable {Cpu V : Type} {s s' : VmcsState Cpu V} {v w : V} {c d : Cpu} {p : Nat}

/-- The processors and the records of the module agree. -/
structure VmcsSafe (s : VmcsState Cpu V) : Prop where
  /-- A VMCS is active on one processor at most. -/
  active : ∀ p c d, s.hw.active c p = true → s.hw.active d p = true → c = d
  /-- `per_cpu(current_vmcs)` is the VMCS that is current on the processor, or 0. -/
  current : ∀ c p, s.currentVmcs c = some p → s.hw.current c = some p
  /-- The next entry is a VMRESUME only if the VMCS is current there and has been launched. -/
  resume : ∀ v c, s.use v = .loaded c → (s.vcpus v).launched = true →
    ∃ p, (s.vcpus v).vmcs = some p ∧ s.hw.current c = some p ∧ s.hw.launched p = true

/-! ### The invariant -/

/-- `__vcpu_clear` for the vcpu has still to run on the processor, if it is to run there at all. -/
structure Waiting (s : VmcsState Cpu V) (v : V) (d : Cpu) : Prop where
  loading : ∀ c pending, s.use v = .loading c pending → d = c ∨ pending d = true
  freeing : ∀ pending, s.freeing v = some pending → pending d = true

structure VmcsInv (s : VmcsState Cpu V) : Prop where
  distinct : ∀ v w p, (s.vcpus v).vmcs = some p → (s.vcpus w).vmcs = some p → v = w
  allocated : ∀ v p, (s.vcpus v).vmcs = some p → s.allocated p = true
  active : ∀ c p, s.hw.active c p = true →
    ∃ v, (s.vcpus v).vmcs = some p ∧ (s.vcpus v).cpu = some c ∧ Waiting s v c
  hwCurrent : ∀ c p, s.hw.current c = some p → s.hw.active c p = true
  current : ∀ c p, s.currentVmcs c = some p → s.hw.current c = some p
  launched : ∀ v p, (s.vcpus v).vmcs = some p → (s.vcpus v).launched = true → s.hw.launched p = true ∨
    (∃ c pending, s.use v = .loading c pending ∧ (s.vcpus v).cpu ≠ some c) ∨ s.freeing v ≠ none
  loaded : ∀ v c, s.use v = .loaded c → (s.vcpus v).cpu = some c ∧
    ∃ p, (s.vcpus v).vmcs = some p ∧ s.currentVmcs c = some p
  exclusive : ∀ v, s.freeing v ≠ none → s.use v = .idle ∧ (s.vcpus v).vmcs ≠ none
  onCpu : ∀ v w c, (s.use v).On c → (s.use w).On c → v = w
  pending : ∀ v c pending, s.use v = .loading c pending → pending c = false

/-- On the processor of a VMCS that is current, the vcpu is the one that has it. -/
theorem VmcsInv.cpu_of_current (hi : VmcsInv s) (hcur : s.currentVmcs c = some p) (hv : (s.vcpus v).vmcs = some p) :
    (s.vcpus v).cpu = some c ∧ Waiting s v c := by
  obtain ⟨w, hw, hcpu, hwait⟩ := hi.active c p (hi.hwCurrent c p (hi.current c p hcur))
  obtain rfl := hi.distinct w v p hw hv
  exact ⟨hcpu, hwait⟩

theorem VmcsInv.safe (hi : VmcsInv s) : VmcsSafe s := by
  refine ⟨fun p c d hc hd => ?_, hi.current, fun v c huse hl => ?_⟩
  · obtain ⟨v, hv, hcpu, -⟩ := hi.active c p hc
    obtain ⟨w, hw, hcpu', -⟩ := hi.active d p hd
    obtain rfl := hi.distinct v w p hv hw
    exact Option.some.inj (hcpu.symm.trans hcpu')
  · obtain ⟨hcpu, p, hp, hcur⟩ := hi.loaded v c huse
    refine ⟨p, hp, hi.current c p hcur, ?_⟩
    rcases hi.launched v p hp hl with h | ⟨c', pending, h, -⟩ | h
    · exact h
    · rw [huse] at h
      cases h
    · obtain ⟨hidle, -⟩ := hi.exclusive v h
      rw [huse] at hidle
      cases hidle

theorem vmcsInv_init : VmcsInv (.init Cpu V) where
  distinct _ _ _ h := nomatch h
  allocated _ _ h := nomatch h
  active _ _ h := nomatch h
  hwCurrent _ _ h := nomatch h
  current _ _ h := nomatch h
  launched _ _ h := nomatch h
  loaded _ _ h := nomatch h
  exclusive _ h := absurd rfl h
  onCpu _ _ _ h := h.elim
  pending _ _ _ h := nomatch h

theorem Waiting.congr (h : Waiting s v c) (huse : s'.use v = s.use v) (hfreeing : s'.freeing v = s.freeing v) :
    Waiting s' v c := by
  constructor
  · rw [huse]
    exact h.loading
  · rw [hfreeing]
    exact h.freeing

/-! ### One lemma for each step -/

variable [DecidableEq Cpu] [DecidableEq V]

theorem VmcsInv.create (hi : VmcsInv s) (c : Cpu) (garbage : Bool) (hidle : s.use v = .idle)
    (hnone : (s.vcpus v).vmcs = none) (hfresh : s.allocated p = false) : VmcsInv (s.createVcpu v c p garbage) := by
  have hother : ∀ w, (s.vcpus w).vmcs ≠ some p := fun w hw => by
    have := hi.allocated w p hw
    rw [hfresh] at this
    cases this
  have hinactive : ∀ d, ¬s.hw.active d p = true := fun d h => by
    obtain ⟨w, hw, -⟩ := hi.active d p h
    exact hother w hw
  have hfree : s.freeing v = none := by
    by_contra h
    exact (hi.exclusive v h).2 hnone
  have hvcpu : (s.createVcpu v c p garbage).vcpus v = { vmcs := some p, cpu := none, launched := false } :=
    Function.update_self ..
  have hvcpus : ∀ w, w ≠ v → (s.createVcpu v c p garbage).vcpus w = s.vcpus w := fun w hw => Function.update_of_ne hw ..
  have huse : (s.createVcpu v c p garbage).use v = .created := Function.update_self ..
  have huses : ∀ w, w ≠ v → (s.createVcpu v c p garbage).use w = s.use w := fun w hw => Function.update_of_ne hw ..
  have hvmcs : ∀ w q, (((s.createVcpu v c p garbage).vcpus w).vmcs = some q ↔ w = v ∧ q = p ∨ w ≠ v ∧
      (s.vcpus w).vmcs = some q) := by
    intro w q
    by_cases hw : w = v
    · subst hw
      rw [hvcpu]
      simp [eq_comm]
    · rw [hvcpus w hw]
      simp [hw]
  have hon : ∀ w d, ((s.createVcpu v c p garbage).use w).On d → w ≠ v ∧ (s.use w).On d := by
    intro w d h
    by_cases hw : w = v
    · subst hw
      rw [huse] at h
      exact h.elim
    · rw [huses w hw] at h
      exact ⟨hw, h⟩
  refine ⟨fun w w' q h h' => ?_, fun w q h => ?_, fun d q h => ?_, fun d q h => ?_, fun d q h => ?_, fun w q h hl => ?_,
    fun w d h => ?_, fun w h => ?_, fun w w' d h h' => hi.onCpu w w' d (hon w d h).2 (hon w' d h').2, fun w d pending h => ?_⟩
  · rcases (hvmcs w q).1 h with ⟨rfl, rfl⟩ | ⟨hw, hq⟩ <;> rcases (hvmcs w' q).1 h' with ⟨rfl, hq'⟩ | ⟨hw', hq'⟩
    · rfl
    · exact absurd hq' (hother w')
    · exact absurd (hq' ▸ hq) (hother w)
    · exact hi.distinct w w' q hq hq'
  · rcases (hvmcs w q).1 h with ⟨rfl, rfl⟩ | ⟨hw, hq⟩
    · exact Function.update_self ..
    · have hne : q ≠ p := by
        rintro rfl
        exact hother w hq
      exact (Function.update_of_ne hne ..).trans (hi.allocated w q hq)
  · obtain ⟨w, hw, hcpu, hwait⟩ := hi.active d q (VmxHw.vmclear_active.1 h).1
    have hne : w ≠ v := by
      rintro rfl
      rw [hnone] at hw
      cases hw
    refine ⟨w, (hvmcs w q).2 (Or.inr ⟨hne, hw⟩), ?_, hwait.congr (huses w hne) rfl⟩
    rw [hvcpus w hne]
    exact hcpu
  · have h := VmxHw.vmclear_current.1 h
    exact VmxHw.vmclear_active.2 ⟨hi.hwCurrent d q h.1, h.2⟩
  · have hcur := hi.current d q h
    refine VmxHw.vmclear_current.2 ⟨hcur, ?_⟩
    rintro ⟨-, rfl⟩
    exact hinactive d (hi.hwCurrent d q hcur)
  · rcases (hvmcs w q).1 h with ⟨rfl, rfl⟩ | ⟨hw, hq⟩
    · rw [hvcpu] at hl
      cases hl
    · rw [hvcpus w hw] at hl
      have hne : q ≠ p := by
        rintro rfl
        exact hother w hq
      rcases hi.launched w q hq hl with h | ⟨c', pending, h, hcpu⟩ | h
      · refine Or.inl (VmxHw.vmclear_launched.2 ⟨hne, ?_⟩)
        show Function.update s.hw.launched p garbage q = true
        rw [Function.update_of_ne hne]
        exact h
      · refine Or.inr (Or.inl ⟨c', pending, (huses w hw).trans h, ?_⟩)
        rw [hvcpus w hw]
        exact hcpu
      · exact Or.inr (Or.inr h)
  · by_cases hw : w = v
    · subst hw
      rw [huse] at h
      cases h
    · rw [huses w hw] at h
      obtain ⟨hcpu, q, hq, hcur⟩ := hi.loaded w d h
      rw [hvcpus w hw]
      exact ⟨hcpu, q, hq, hcur⟩
  · have hw : w ≠ v := by
      rintro rfl
      exact h hfree
    rw [huses w hw, hvcpus w hw]
    exact hi.exclusive w h
  · by_cases hw : w = v
    · subst hw
      rw [huse] at h
      cases h
    · rw [huses w hw] at h
      exact hi.pending w d pending h

omit [DecidableEq Cpu] in
/-- A step that changes only who uses the vcpu, and what its VMCS is waiting for. -/
theorem VmcsInv.setUse (hi : VmcsInv s) (v : V) (use' : VcpuUse Cpu) (freeing' : Option (Cpu → Bool))
    (hwait : ∀ d p, (s.vcpus v).vmcs = some p → (s.vcpus v).cpu = some d → s.hw.active d p = true → Waiting s v d →
      (∀ c pending, use' = .loading c pending → d = c ∨ pending d = true) ∧
        ∀ pending, freeing' = some pending → pending d = true)
    (hlaunched : (∃ c pending, s.use v = .loading c pending ∧ (s.vcpus v).cpu ≠ some c) ∨ s.freeing v ≠ none →
      (∃ c pending, use' = .loading c pending ∧ (s.vcpus v).cpu ≠ some c) ∨ freeing' ≠ none)
    (hloaded : ∀ c, use' ≠ .loaded c) (hexclusive : freeing' ≠ none → use' = .idle ∧ (s.vcpus v).vmcs ≠ none)
    (hon : ∀ c, use'.On c → ∀ w, w ≠ v → ¬(s.use w).On c)
    (hpending : ∀ c pending, use' = .loading c pending → pending c = false) :
    VmcsInv { s with use := Function.update s.use v use', freeing := Function.update s.freeing v freeing' } := by
  generalize hs' : ({ s with use := Function.update s.use v use', freeing := Function.update s.freeing v freeing' } :
    VmcsState Cpu V) = s'
  have huse : s'.use v = use' := by subst hs'; exact Function.update_self ..
  have hfreeing : s'.freeing v = freeing' := by subst hs'; exact Function.update_self ..
  have huses : ∀ w, w ≠ v → s'.use w = s.use w := fun w hw => by subst hs'; exact Function.update_of_ne hw ..
  have hfreeings : ∀ w, w ≠ v → s'.freeing w = s.freeing w := fun w hw => by subst hs'; exact Function.update_of_ne hw ..
  have hkeep : s'.hw = s.hw ∧ s'.currentVmcs = s.currentVmcs ∧ s'.vcpus = s.vcpus ∧ s'.allocated = s.allocated := by
    subst hs'
    exact ⟨rfl, rfl, rfl, rfl⟩
  obtain ⟨hhw, hcur, hvcpus, hall⟩ := hkeep
  refine ⟨by rw [hvcpus]; exact hi.distinct, by rw [hvcpus, hall]; exact hi.allocated, fun c p h => ?_,
    by rw [hhw]; exact hi.hwCurrent, by rw [hhw, hcur]; exact hi.current, fun w p h hl => ?_, fun w c h => ?_, fun w h => ?_,
    fun w w' c h h' => ?_, fun w c pending h => ?_⟩
  · rw [hhw] at h
    obtain ⟨w, hw, hcpu, hw'⟩ := hi.active c p h
    rw [hvcpus]
    refine ⟨w, hw, hcpu, ?_⟩
    by_cases hwv : w = v
    · subst hwv
      obtain ⟨h1, h2⟩ := hwait c p hw hcpu h hw'
      exact ⟨by rw [huse]; exact h1, by rw [hfreeing]; exact h2⟩
    · exact hw'.congr (huses w hwv) (hfreeings w hwv)
  · rw [hvcpus] at h hl ⊢
    rw [hhw]
    by_cases hwv : w = v
    · subst hwv
      rw [huse, hfreeing]
      rcases hi.launched w p h hl with h | h
      · exact Or.inl h
      · exact Or.inr (hlaunched h)
    · rw [huses w hwv, hfreeings w hwv]
      exact hi.launched w p h hl
  · rw [hvcpus, hcur]
    by_cases hwv : w = v
    · subst hwv
      rw [huse] at h
      exact absurd h (hloaded c)
    · rw [huses w hwv] at h
      exact hi.loaded w c h
  · rw [hvcpus]
    by_cases hwv : w = v
    · subst hwv
      rw [hfreeing] at h
      rw [huse]
      exact hexclusive h
    · rw [hfreeings w hwv] at h
      rw [huses w hwv]
      exact hi.exclusive w h
  · by_cases hwv : w = v <;> by_cases hwv' : w' = v
    · rw [hwv, hwv']
    · subst hwv
      rw [huse] at h
      rw [huses w' hwv'] at h'
      exact absurd h' (hon c h w' hwv')
    · subst hwv'
      rw [huse] at h'
      rw [huses w hwv] at h
      exact absurd h (hon c h' w hwv)
    · rw [huses w hwv] at h
      rw [huses w' hwv'] at h'
      exact hi.onCpu w w' c h h'
  · by_cases hwv : w = v
    · subst hwv
      rw [huse] at h
      exact hpending c pending h
    · rw [huses w hwv] at h
      exact hi.pending w c pending h

omit [DecidableEq Cpu] in
theorem VmcsInv.setIdle (hi : VmcsInv s) (huse : s.use v = .loaded c) :
    VmcsInv { s with use := Function.update s.use v .idle } := by
  have hfree : s.freeing v = none := by
    by_contra h
    obtain ⟨hidle, -⟩ := hi.exclusive v h
    rw [huse] at hidle
    cases hidle
  have h := hi.setUse v .idle none
    (fun d p _ _ _ _ => ⟨fun c pending h => (by cases h), fun pending h => (by cases h)⟩)
    (fun h => by
      rcases h with ⟨c', pending, h, -⟩ | h
      · rw [huse] at h
        cases h
      · exact absurd hfree h)
    (fun c h => by cases h) (fun h => absurd rfl h) (fun c h => h.elim) (fun c pending h => by cases h)
  have hsame : Function.update s.freeing v none = s.freeing := Function.update_eq_self_iff.2 hfree.symm
  rwa [hsame] at h

theorem VmcsInv.load (hi : VmcsInv s) (c : Cpu) (huse : s.use v = .idle ∨ s.use v = .created) (hfree : s.freeing v = none)
    (hcpu : ∀ w, ¬(s.use w).On c) : VmcsInv (s.vcpuLoad v c) := by
  have h := hi.setUse v (.loading c fun d => decide ((s.vcpus v).cpu ≠ some c ∧ d ≠ c)) none
    (fun d p _ hd _ _ => ⟨fun c' pending h => ?_, fun pending h => (by cases h)⟩)
    (fun h => by
      rcases h with ⟨c', pending, h, -⟩ | h
      · rcases huse with h' | h' <;> rw [h'] at h <;> cases h
      · exact absurd hfree h)
    (fun c h => by cases h) (fun h => absurd rfl h)
    (fun c' h w _ => by
      obtain rfl : c = c' := h
      exact hcpu w)
    (fun c' pending h => by
      cases h
      simp)
  · have hsame : Function.update s.freeing v none = s.freeing := Function.update_eq_self_iff.2 hfree.symm
    rwa [hsame] at h
  · cases h
    by_cases hdc : d = c
    · exact Or.inl hdc
    · refine Or.inr ?_
      rw [hd]
      simpa using hdc

/-- A VMCS can be taken from the processor of its vcpu while the vcpu moves or is freed. -/
theorem VmcsInv.vcpuClear (hi : VmcsInv s) (d : Cpu) (hloaded : ∀ c, s.use v ≠ .loaded c)
    (hmoves : (s.vcpus v).cpu = some d →
      (∃ c pending, s.use v = .loading c pending ∧ (s.vcpus v).cpu ≠ some c) ∨ s.freeing v ≠ none) :
    VmcsInv (s.vcpuClear v d) := by
  unfold VmcsState.vcpuClear
  cases hp : (s.vcpus v).vmcs with
  | none => exact hi
  | some p =>
    dsimp only
    by_cases hcpu : (s.vcpus v).cpu = some d
    · have hcur : ∀ c q, (if s.currentVmcs d = some p then Function.update s.currentVmcs d none else s.currentVmcs) c = some q ↔
          s.currentVmcs c = some q ∧ ¬(c = d ∧ q = p) := by
        intro c q
        split
        · rename_i h
          by_cases hcd : c = d
          · subst hcd
            simp [h, eq_comm]
          · simp [hcd]
        · rename_i h
          refine ⟨fun hq => ⟨hq, ?_⟩, And.left⟩
          rintro ⟨rfl, rfl⟩
          exact h hq
      rw [if_pos hcpu]
      refine ⟨hi.distinct, hi.allocated, fun c q h => ?_, fun c q h => ?_, fun c q h => ?_, fun w q h hl => ?_,
        fun w c h => ?_, hi.exclusive, hi.onCpu, hi.pending⟩
      · obtain ⟨w, hw, hwcpu, hwait⟩ := hi.active c q (VmxHw.vmclear_active.1 h).1
        exact ⟨w, hw, hwcpu, hwait.congr rfl rfl⟩
      · have h := VmxHw.vmclear_current.1 h
        exact VmxHw.vmclear_active.2 ⟨hi.hwCurrent c q h.1, h.2⟩
      · have h := (hcur c q).1 h
        exact VmxHw.vmclear_current.2 ⟨hi.current c q h.1, h.2⟩
      · by_cases hwv : w = v
        · subst hwv
          exact Or.inr (hmoves hcpu)
        · have hne : q ≠ p := by
            rintro rfl
            exact hwv (hi.distinct w v q h hp)
          rcases hi.launched w q h hl with h | h
          · exact Or.inl (VmxHw.vmclear_launched.2 ⟨hne, h⟩)
          · exact Or.inr h
      · obtain ⟨hwcpu, q, hq, hqcur⟩ := hi.loaded w c h
        refine ⟨hwcpu, q, hq, (hcur c q).2 ⟨hqcur, ?_⟩⟩
        rintro ⟨-, rfl⟩
        obtain rfl := hi.distinct w v q hq hp
        exact hloaded c h
    · -- the record of the processor does not name the VMCS
      have hno : s.currentVmcs d ≠ some p := fun h => hcpu (hi.cpu_of_current h hp).1
      rw [if_neg hcpu, if_neg hno]
      exact hi

omit [DecidableEq V] in
theorem vcpuClear_vcpus (s : VmcsState Cpu V) (v : V) (d : Cpu) : (s.vcpuClear v d).vcpus = s.vcpus ∧
    (s.vcpuClear v d).use = s.use ∧ (s.vcpuClear v d).freeing = s.freeing := by
  unfold VmcsState.vcpuClear
  split <;> exact ⟨rfl, rfl, rfl⟩

omit [DecidableEq V] in
/-- After `__vcpu_clear` has run on the processor of the vcpu, the VMCS is not active there. -/
theorem vcpuClear_active (hp : (s.vcpus v).vmcs = some p) (hcpu : (s.vcpus v).cpu = some d) :
    ¬(s.vcpuClear v d).hw.active d p = true := by
  unfold VmcsState.vcpuClear
  rw [hp]
  dsimp only
  rw [if_pos hcpu]
  simp

theorem VmcsInv.clear (hi : VmcsInv s) {pending : Cpu → Bool} (huse : s.use v = .loading c pending) (hd : pending d = true) :
    VmcsInv { s.vcpuClear v d with
      use := Function.update s.use v (.loading c (Function.update pending d false)) } := by
  have hdc : d ≠ c := by
    rintro rfl
    rw [hi.pending v d pending huse] at hd
    cases hd
  have hfree : s.freeing v = none := by
    by_contra h
    obtain ⟨hidle, -⟩ := hi.exclusive v h
    rw [huse] at hidle
    cases hidle
  obtain ⟨hvcpus, huses, hfreeing⟩ := vcpuClear_vcpus s v d
  have hclear := hi.vcpuClear d (v := v) (fun c h => by rw [huse] at h; cases h) fun hcpu =>
    Or.inl ⟨c, pending, huse, fun h => hdc (Option.some.inj (hcpu.symm.trans h))⟩
  have h := hclear.setUse v (.loading c (Function.update pending d false)) none
    (fun e p hp he hact hwait => ⟨fun c' pending' h => ?_, fun _ h => (by cases h)⟩)
    (fun h => by
      rw [huses, hfreeing, huse, hfree] at h
      rcases h with ⟨c', pending', h, hne⟩ | h
      · cases h
        exact Or.inl ⟨c, _, rfl, hne⟩
      · exact absurd rfl h)
    (fun c h => by cases h) (fun h => absurd rfl h)
    (fun c' h w hw hon => by
      obtain rfl : c = c' := h
      rw [huses] at hon
      exact hw (hi.onCpu w v c hon (by rw [huse]; rfl)))
    (fun c' pending' h => by
      cases h
      rw [Function.update_of_ne hdc.symm]
      exact hi.pending v c pending huse)
  · have hsame : Function.update (s.vcpuClear v d).freeing v none = (s.vcpuClear v d).freeing := by
      rw [hfreeing]
      exact Function.update_eq_self_iff.2 hfree.symm
    rw [hsame, huses] at h
    exact h
  · cases h
    have hed : e ≠ d := by
      rintro rfl
      rw [hvcpus] at hp he
      exact vcpuClear_active hp he hact
    rcases hwait.loading c pending (by rw [huses]; exact huse) with h | h
    · exact Or.inl h
    · refine Or.inr ?_
      rwa [Function.update_of_ne hed]

omit [DecidableEq Cpu] in
theorem VmcsInv.free (hi : VmcsInv s) (hvmcs : (s.vcpus v).vmcs ≠ none) (hidle : s.use v = .idle) :
    VmcsInv { s with freeing := Function.update s.freeing v (some fun _ => true) } := by
  have h := hi.setUse v .idle (some fun _ => true)
    (fun d p _ _ _ _ => ⟨fun c pending h => (by cases h), fun pending h => (by cases h; rfl)⟩)
    (fun _ => Or.inr (by simp)) (fun c h => by cases h) (fun _ => ⟨rfl, hvmcs⟩) (fun c h => h.elim)
    (fun c pending h => by cases h)
  have hsame : Function.update s.use v .idle = s.use := Function.update_eq_self_iff.2 hidle.symm
  rwa [hsame] at h

theorem VmcsInv.freeClear (hi : VmcsInv s) {pending : Cpu → Bool} (hfreeing : s.freeing v = some pending) (d : Cpu) :
    VmcsInv { s.vcpuClear v d with
      freeing := Function.update s.freeing v (some (Function.update pending d false)) } := by
  have hne : s.freeing v ≠ none := by rw [hfreeing]; simp
  obtain ⟨hidle, hvmcs⟩ := hi.exclusive v hne
  obtain ⟨hvcpus, huses, hfreeings⟩ := vcpuClear_vcpus s v d
  have hclear := hi.vcpuClear d (v := v) (fun c h => by rw [hidle] at h; cases h) fun _ => Or.inr hne
  have h := hclear.setUse v .idle (some (Function.update pending d false))
    (fun e p hp he hact hwait => ⟨fun c' pending' h => (by cases h), fun pending' h => ?_⟩)
    (fun _ => Or.inr (by simp)) (fun c h => by cases h) (fun _ => ⟨rfl, by rw [hvcpus]; exact hvmcs⟩) (fun c h => h.elim)
    (fun c pending h => by cases h)
  · have hsame : Function.update (s.vcpuClear v d).use v .idle = (s.vcpuClear v d).use := by
      rw [huses]
      exact Function.update_eq_self_iff.2 hidle.symm
    rw [hsame, hfreeings] at h
    exact h
  · cases h
    have hed : e ≠ d := by
      rintro rfl
      rw [hvcpus] at hp he
      exact vcpuClear_active hp he hact
    rw [Function.update_of_ne hed]
    exact hwait.freeing pending (by rw [hfreeings]; exact hfreeing)

/-- The end of `__vcpu_load`: the VMCS is active nowhere else. -/
theorem VmcsInv.vcpuLoaded (hi : VmcsInv s) {pending : Cpu → Bool} (huse : s.use v = .loading c pending)
    (hdone : ∀ d, pending d = false) (hp : (s.vcpus v).vmcs = some p) : VmcsInv (s.vcpuLoaded v c p) := by
  have hfree : s.freeing v = none := by
    by_contra h
    obtain ⟨hidle, -⟩ := hi.exclusive v h
    rw [huse] at hidle
    cases hidle
  have hhere : ∀ d, s.hw.active d p = true → d = c := by
    intro d h
    obtain ⟨w, hw, -, hwait⟩ := hi.active d p h
    obtain rfl := hi.distinct w v p hw hp
    rcases hwait.loading c pending huse with h | h
    · exact h
    · rw [hdone d] at h
      cases h
  have hnobody : ∀ w, w ≠ v → ¬(s.use w).On c := fun w hw h => hw (hi.onCpu w v c h (by rw [huse]; rfl))
  generalize hs' : s.vcpuLoaded v c p = s'
  have hactive : ∀ d q, s'.hw.active d q = true ↔ (d = c ∧ q = p) ∧ s.currentVmcs c ≠ some p ∨ s.hw.active d q = true := by
    intro d q
    subst hs'
    show (if s.currentVmcs c ≠ some p then s.hw.vmptrld c p else s.hw).active d q = true ↔ _
    split
    · rename_i h
      simp [h]
    · rename_i h
      simp [h]
  have hcurC : s'.hw.current c = some p := by
    subst hs'
    show (if s.currentVmcs c ≠ some p then s.hw.vmptrld c p else s.hw).current c = some p
    split
    · exact VmxHw.vmptrld_current_self
    · rename_i h
      exact hi.current c p (not_not.1 h)
  have hcur : ∀ d, d ≠ c → s'.hw.current d = s.hw.current d := by
    intro d hd
    subst hs'
    show (if s.currentVmcs c ≠ some p then s.hw.vmptrld c p else s.hw).current d = _
    split
    · exact VmxHw.vmptrld_current_of_ne hd
    · rfl
  have hlaunch : s'.hw.launched = s.hw.launched := by
    subst hs'
    show (if s.currentVmcs c ≠ some p then s.hw.vmptrld c p else s.hw).launched = _
    split <;> rfl
  have hvcpu : s'.vcpus v = { s.vcpus v with
      cpu := some c, launched := if (s.vcpus v).cpu ≠ some c then false else (s.vcpus v).launched } := by
    subst hs'
    exact Function.update_self ..
  have hvcpus : ∀ w, w ≠ v → s'.vcpus w = s.vcpus w := fun w hw => by subst hs'; exact Function.update_of_ne hw ..
  have husev : s'.use v = .loaded c := by subst hs'; exact Function.update_self ..
  have huses : ∀ w, w ≠ v → s'.use w = s.use w := fun w hw => by subst hs'; exact Function.update_of_ne hw ..
  have hrec : ∀ d, d ≠ c → s'.currentVmcs d = s.currentVmcs d := fun d hd => by subst hs'; exact Function.update_of_ne hd ..
  have hrecC : s'.currentVmcs c = some p := by subst hs'; exact Function.update_self ..
  have hkeep : s'.freeing = s.freeing ∧ s'.allocated = s.allocated := by subst hs'; exact ⟨rfl, rfl⟩
  obtain ⟨hfreeing, hall⟩ := hkeep
  have hvmcs : ∀ w, (s'.vcpus w).vmcs = (s.vcpus w).vmcs := by
    intro w
    by_cases hw : w = v
    · rw [hw, hvcpu]
    · rw [hvcpus w hw]
  have hon : ∀ w d, (s'.use w).On d → (s.use w).On d := by
    intro w d h
    by_cases hw : w = v
    · rw [hw] at h ⊢
      rw [husev] at h
      rw [huse]
      exact h
    · rwa [huses w hw] at h
  have hwaitv : Waiting s' v c := by
    refine ⟨fun c' pending' h => ?_, fun pending' h => ?_⟩
    · rw [husev] at h
      cases h
    · rw [hfreeing, hfree] at h
      cases h
  refine ⟨by simpa only [hvmcs] using hi.distinct, by simpa only [hvmcs, hall] using hi.allocated, fun d q h => ?_,
    fun d q h => ?_, fun d q h => ?_, fun w q h hl => ?_, fun w d h => ?_, fun w h => ?_,
    fun w w' d h h' => hi.onCpu w w' d (hon w d h) (hon w' d h'), fun w d pending' h => ?_⟩
  · have hv : (s'.vcpus v).vmcs = some p ∧ (s'.vcpus v).cpu = some c := ⟨(hvmcs v).trans hp, by rw [hvcpu]⟩
    rcases (hactive d q).1 h with ⟨⟨rfl, rfl⟩, -⟩ | h
    · exact ⟨v, hv.1, hv.2, hwaitv⟩
    · obtain ⟨w, hw, hcpu, hwait⟩ := hi.active d q h
      by_cases hwv : w = v
      · rw [hwv, hp] at hw
        obtain rfl := Option.some.inj hw
        obtain rfl := hhere d h
        exact ⟨v, hv.1, hv.2, hwaitv⟩
      · refine ⟨w, (hvmcs w).trans hw, ?_, hwait.congr (huses w hwv) (congrFun hfreeing w)⟩
        rw [hvcpus w hwv]
        exact hcpu
  · rw [hactive]
    by_cases hd : d = c
    · subst hd
      rw [hcurC] at h
      obtain rfl := Option.some.inj h
      by_cases hno : s.currentVmcs d = some p
      · exact Or.inr (hi.hwCurrent d p (hi.current d p hno))
      · exact Or.inl ⟨⟨rfl, rfl⟩, hno⟩
    · rw [hcur d hd] at h
      exact Or.inr (hi.hwCurrent d q h)
  · by_cases hd : d = c
    · subst hd
      rw [hrecC] at h
      obtain rfl := Option.some.inj h
      exact hcurC
    · rw [hrec d hd] at h
      rw [hcur d hd]
      exact hi.current d q h
  · rw [hvmcs] at h
    rw [hlaunch]
    by_cases hwv : w = v
    · subst hwv
      rw [hvcpu] at hl
      dsimp only at hl
      split at hl
      · cases hl
      · rename_i hcpu
        rcases hi.launched w q h hl with h | ⟨c', pending', h, hne⟩ | h
        · exact Or.inl h
        · rw [huse] at h
          cases h
          exact absurd hne hcpu
        · exact absurd hfree h
    · rw [hvcpus w hwv] at hl ⊢
      rw [huses w hwv, hfreeing]
      exact hi.launched w q h hl
  · by_cases hwv : w = v
    · subst hwv
      rw [husev] at h
      cases h
      rw [hvcpu]
      exact ⟨rfl, p, hp, hrecC⟩
    · rw [huses w hwv] at h
      have hd : d ≠ c := by
        rintro rfl
        exact hnobody w hwv (by rw [h]; rfl)
      rw [hvcpus w hwv, hrec d hd]
      exact hi.loaded w d h
  · rw [hfreeing] at h
    have hwv : w ≠ v := by
      rintro rfl
      exact h hfree
    rw [huses w hwv, hvmcs]
    exact hi.exclusive w h
  · by_cases hwv : w = v
    · subst hwv
      rw [husev] at h
      cases h
    · rw [huses w hwv] at h
      exact hi.pending w d pending' h

omit [DecidableEq Cpu] in
/-- An entry launches the VMCS of the vcpu. -/
theorem VmcsInv.launch (hi : VmcsInv s) (huse : s.use v = .loaded c) (hp : s.hw.current c = some p) (b : Bool) :
    VmcsInv { s with
      hw := { s.hw with launched := Function.update s.hw.launched p true }
      vcpus := Function.update s.vcpus v { s.vcpus v with launched := b } } := by
  obtain ⟨-, q, hq, hcur⟩ := hi.loaded v c huse
  have hqp : q = p := Option.some.inj ((hi.current c q hcur).symm.trans hp)
  subst hqp
  generalize hv' : Function.update s.vcpus v { s.vcpus v with launched := b } = vcpus'
  have hvcpus : ∀ w, (vcpus' w).vmcs = (s.vcpus w).vmcs ∧ (vcpus' w).cpu = (s.vcpus w).cpu := by
    intro w
    subst hv'
    by_cases hw : w = v
    · rw [hw, Function.update_self]
      exact ⟨rfl, rfl⟩
    · rw [Function.update_of_ne hw]
      exact ⟨rfl, rfl⟩
  have hvmcs : ∀ w, (vcpus' w).vmcs = (s.vcpus w).vmcs := fun w => (hvcpus w).1
  have hcpu : ∀ w, (vcpus' w).cpu = (s.vcpus w).cpu := fun w => (hvcpus w).2
  have hkeep : ∀ w, w ≠ v → vcpus' w = s.vcpus w := fun w hw => by subst hv'; exact Function.update_of_ne hw ..
  refine ⟨by simpa only [hvmcs] using hi.distinct, by simpa only [hvmcs] using hi.allocated, fun d q h => ?_, hi.hwCurrent,
    hi.current, fun w q' h hl => ?_, fun w d h => ?_, fun w h => ?_, hi.onCpu, hi.pending⟩
  · obtain ⟨w, hw, hd, hwait⟩ := hi.active d q h
    exact ⟨w, (hvmcs w).trans hw, (hcpu w).trans hd, hwait.congr rfl rfl⟩
  · have h0 : (s.vcpus w).vmcs = some q' := (hvmcs w).symm.trans h
    by_cases hw : w = v
    · rw [hw, hq] at h0
      obtain rfl := Option.some.inj h0
      exact Or.inl (Function.update_self ..)
    · have hl : (vcpus' w).launched = true := hl
      rw [hkeep w hw] at hl
      have hne : q' ≠ q := by
        rintro rfl
        exact hw (hi.distinct w v q' h0 hq)
      show Function.update s.hw.launched q true q' = true ∨ (∃ c pending, s.use w = .loading c pending ∧ (vcpus' w).cpu ≠ some c) ∨ _
      rw [Function.update_of_ne hne, hcpu w]
      exact hi.launched w q' h0 hl
  · show (vcpus' w).cpu = some d ∧ ∃ p, (vcpus' w).vmcs = some p ∧ _
    rw [hcpu w, hvmcs w]
    exact hi.loaded w d h
  · show s.use w = .idle ∧ (vcpus' w).vmcs ≠ none
    rw [hvmcs w]
    exact hi.exclusive w h

omit [DecidableEq Cpu] in
theorem VmcsInv.enter (hi : VmcsInv s) (outcome : EntryOutcome) (huse : s.use v = .loaded c)
    (hok : outcome = .failedEntry → (s.vcpus v).launched = true) : VmcsInv (s.enter v c outcome) := by
  unfold VmcsState.enter
  dsimp only
  rcases VmxHw.enter_cases s.hw c (s.vcpus v).launched outcome with ⟨heq, hfail | ⟨hfailed, p, hp, hl⟩⟩ | ⟨p, hp, heq⟩
  · rw [heq, if_pos hfail]
    exact hi
  · -- a VMRESUME that fails changes nothing
    have hlaunched := hok hfailed
    have hsame : Function.update s.vcpus v { s.vcpus v with launched := true } = s.vcpus := by
      refine Function.update_eq_self_iff.2 ?_
      rw [← hlaunched]
    rw [heq, hsame, ite_self]
    exact hi
  · have hsame : (if (s.hw.enter c (s.vcpus v).launched outcome).2 = true then s.vcpus else
        Function.update s.vcpus v { s.vcpus v with launched := true }) =
        Function.update s.vcpus v { s.vcpus v with
          launched := if (s.hw.enter c (s.vcpus v).launched outcome).2 = true then (s.vcpus v).launched else true } := by
      split
      · exact (Function.update_eq_self ..).symm
      · rfl
    rw [heq, hsame]
    exact hi.launch huse hp _

omit [DecidableEq Cpu] in
theorem VmcsInv.freeVmcs (hi : VmcsInv s) {pending : Cpu → Bool} (hfreeing : s.freeing v = some pending)
    (hdone : ∀ d, pending d = false) (hp : (s.vcpus v).vmcs = some p) : VmcsInv (s.freeVmcs v p) := by
  obtain ⟨hidle, -⟩ := hi.exclusive v (by rw [hfreeing]; simp)
  generalize hs' : s.freeVmcs v p = s'
  have hvcpu : (s'.vcpus v).vmcs = none := by
    subst hs'
    show (Function.update s.vcpus v { s.vcpus v with vmcs := none } v).vmcs = none
    rw [Function.update_self]
  have hvcpus : ∀ w, w ≠ v → s'.vcpus w = s.vcpus w := fun w hw => by subst hs'; exact Function.update_of_ne hw ..
  have hfree : s'.freeing v = none := by subst hs'; exact Function.update_self ..
  have hfrees : ∀ w, w ≠ v → s'.freeing w = s.freeing w := fun w hw => by subst hs'; exact Function.update_of_ne hw ..
  have hkeep : s'.hw = s.hw ∧ s'.currentVmcs = s.currentVmcs ∧ s'.use = s.use := by subst hs'; exact ⟨rfl, rfl, rfl⟩
  obtain ⟨hhw, hrec, huse⟩ := hkeep
  have hvmcs : ∀ w q, (s'.vcpus w).vmcs = some q → w ≠ v ∧ (s.vcpus w).vmcs = some q := by
    intro w q h
    have hw : w ≠ v := by
      rintro rfl
      rw [hvcpu] at h
      cases h
    rw [hvcpus w hw] at h
    exact ⟨hw, h⟩
  refine ⟨fun w w' q h h' => hi.distinct w w' q (hvmcs w q h).2 (hvmcs w' q h').2, fun w q h => ?_, fun d q h => ?_,
    by rw [hhw]; exact hi.hwCurrent, by rw [hhw, hrec]; exact hi.current, fun w q h hl => ?_, fun w d h => ?_, fun w h => ?_,
    by rw [huse]; exact hi.onCpu, by rw [huse]; exact hi.pending⟩
  · obtain ⟨hw, h0⟩ := hvmcs w q h
    have hne : q ≠ p := by
      rintro rfl
      exact hw (hi.distinct w v q h0 hp)
    subst hs'
    exact (Function.update_of_ne hne ..).trans (hi.allocated w q h0)
  · -- the VMCS that is freed is not active anywhere
    rw [hhw] at h
    obtain ⟨w, hw, hcpu, hwait⟩ := hi.active d q h
    have hne : w ≠ v := by
      rintro rfl
      have := hwait.freeing pending hfreeing
      rw [hdone d] at this
      cases this
    refine ⟨w, ?_, ?_, hwait.congr (congrFun huse w) (hfrees w hne)⟩
    · rw [hvcpus w hne]
      exact hw
    · rw [hvcpus w hne]
      exact hcpu
  · obtain ⟨hw, h⟩ := hvmcs w q h
    rw [hvcpus w hw] at hl ⊢
    rw [hhw, huse, hfrees w hw]
    exact hi.launched w q h hl
  · rw [huse] at h
    have hw : w ≠ v := by
      rintro rfl
      rw [hidle] at h
      cases h
    rw [hvcpus w hw, hrec]
    exact hi.loaded w d h
  · have hw : w ≠ v := by
      rintro rfl
      exact h hfree
    rw [hfrees w hw] at h
    rw [huse, hvcpus w hw]
    exact hi.exclusive w h

/-! ### Runs -/

theorem VmcsInv.step {e : VmcsEvent Cpu V} (hi : VmcsInv s) (h : VmcsStep s e s') (hok : e.Ok s) : VmcsInv s' := by
  cases h with
  | create c p garbage hidle hnone hfresh => exact hi.create c garbage hidle hnone hfresh
  | load c huse hvmcs hcpu => exact hi.load c huse hok hcpu
  | clear d huse hd => exact hi.clear huse hd
  | loaded huse hdone hvmcs => exact hi.vcpuLoaded huse hdone hvmcs
  | enter outcome huse => exact hi.enter outcome huse hok
  | put huse => exact hi.setIdle huse
  | free hvmcs hnone => exact hi.free hvmcs hok
  | freeClear d hfreeing hd => exact hi.freeClear hfreeing d
  | freed hfreeing hdone hvmcs => exact hi.freeVmcs hfreeing hdone hvmcs

theorem VmcsInv.run (h : VmcsRun (fun s e => e.Ok s) (.init Cpu V) s) : VmcsInv s := by
  induction h with
  | refl => exact vmcsInv_init
  | tail _ hstep ih =>
    obtain ⟨e, hstep, hok⟩ := hstep
    exact ih.step hstep hok

/-- **VMCS ownership**: for any number of processors and vcpus, the processors and the records of the module agree in
every run in which no VMLAUNCH fails on the state of the guest, and no vcpu is in use while its VMCS is freed. -/
theorem vmcs_owned (h : VmcsRun (fun s e => e.Ok s) (.init Cpu V) s) : VmcsSafe s :=
  (VmcsInv.run h).safe

/-! ### A vcpu on one of two processors -/

/-- The vcpu is created, and loaded on the processor 0. -/
def vcpuCreated : VmcsState (Fin 2) (Fin 1) := (VmcsState.init (Fin 2) (Fin 1)).createVcpu 0 0 1 false
def vcpuLoading : VmcsState (Fin 2) (Fin 1) := vcpuCreated.vcpuLoad 0 0
def vcpuCleared : VmcsState (Fin 2) (Fin 1) :=
  { vcpuLoading.vcpuClear 0 1 with use := Function.update vcpuLoading.use 0 (.loading 0 fun _ => false) }
def vcpuReady : VmcsState (Fin 2) (Fin 1) := vcpuCleared.vcpuLoaded 0 0 1

theorem vmcsRun_vcpuReady : VmcsRun (fun s e => e.Ok s) (.init (Fin 2) (Fin 1)) vcpuReady := by
  have hcreate : VmcsStep (.init (Fin 2) (Fin 1)) (.create 0) vcpuCreated := .create 0 1 false rfl rfl rfl
  have hload : VmcsStep vcpuCreated (.load 0) vcpuLoading := .load 0 (Or.inr rfl) (by decide) fun w h => by
    rw [Subsingleton.elim w 0] at h
    exact h
  have hclear : VmcsStep vcpuLoading (.clear 0 1) vcpuCleared := by
    have h := VmcsStep.clear (s := vcpuLoading) (v := 0) 1 rfl (by decide)
    have hpending : (Function.update (fun d : Fin 2 => decide ((vcpuCreated.vcpus 0).cpu ≠ some 0 ∧ d ≠ 0)) 1 false) =
        fun _ => false := by
      funext d
      revert d
      decide
    rw [hpending] at h
    exact h
  have hloaded : VmcsStep vcpuCleared (.loaded 0) vcpuReady := .loaded rfl (fun _ => rfl) rfl
  exact (((ReflTransGen.refl.tail ⟨_, hcreate, trivial⟩).tail ⟨_, hload, rfl⟩).tail ⟨_, hclear, trivial⟩).tail
    ⟨_, hloaded, trivial⟩

/-- After an exit the vcpu is to be resumed. -/
theorem vmcs_owned_exited : VmcsRun (fun s e => e.Ok s) (.init (Fin 2) (Fin 1)) (vcpuReady.enter 0 0 .exited) ∧
    VmcsSafe (vcpuReady.enter 0 0 .exited) := by
  have hstep : VmcsStep vcpuReady (.enter 0 .exited) (vcpuReady.enter 0 0 .exited) := .enter .exited rfl
  have hrun : VmcsRun (fun s e => e.Ok s) (.init (Fin 2) (Fin 1)) (vcpuReady.enter 0 0 .exited) :=
    vmcsRun_vcpuReady.tail ⟨_, hstep, fun h => by cases h⟩
  exact ⟨hrun, vmcs_owned hrun⟩

/-- After an entry that has failed on the state of the guest, the next one is a VMRESUME of a VMCS that is not launched. -/
theorem vmresume_not_launched : ¬∀ s : VmcsState (Fin 2) (Fin 1),
    VmcsRun (fun _ _ => True) (.init (Fin 2) (Fin 1)) s → VmcsSafe s := by
  intro hall
  have hrun : VmcsRun (fun _ _ => True) (.init (Fin 2) (Fin 1)) vcpuReady := by
    refine ReflTransGen.mono (fun _ _ h => ?_) _ _ vmcsRun_vcpuReady
    obtain ⟨e, he, -⟩ := h
    exact ⟨e, he, trivial⟩
  have hfail : VmcsStep vcpuReady (.enter 0 .failedEntry) (vcpuReady.enter 0 0 .failedEntry) := .enter .failedEntry rfl
  generalize hs : vcpuReady.enter 0 0 .failedEntry = s at hfail
  have huse : s.use 0 = .loaded 0 := by subst hs; rfl
  have hvcpu : s.vcpus 0 = { vmcs := some 1, cpu := some 0, launched := true } := by subst hs; rfl
  have hput : VmcsStep s (.put 0) { s with use := Function.update s.use 0 .idle } := .put huse
  -- the next KVM_RUN loads the vcpu on the same processor
  generalize hidle : ({ s with use := Function.update s.use 0 .idle } : VmcsState (Fin 2) (Fin 1)) = s1 at hput
  have huse1 : s1.use 0 = .idle := by subst hidle; rfl
  have hload : VmcsStep s1 (.load 0) (s1.vcpuLoad 0 0) := by
    refine .load 0 (Or.inl huse1) ?_ fun w h => ?_
    · subst hidle
      rw [hvcpu]
      simp
    · rw [Subsingleton.elim w 0, huse1] at h
      exact h
  have hvcpu1 : s1.vcpus 0 = { vmcs := some 1, cpu := some 0, launched := true } := by subst hidle; exact hvcpu
  have hloaded : VmcsStep (s1.vcpuLoad 0 0) (.loaded 0) ((s1.vcpuLoad 0 0).vcpuLoaded 0 0 1) := by
    have huse2 : (s1.vcpuLoad 0 0).use 0 = .loading 0 fun d => decide ((s1.vcpus 0).cpu ≠ some 0 ∧ d ≠ 0) := by
      unfold VmcsState.vcpuLoad
      dsimp only
      rw [Function.update_self]
    refine .loaded huse2 (fun d => ?_) ?_
    · rw [hvcpu1]
      simp
    · show (s1.vcpus 0).vmcs = some 1
      rw [hvcpu1]
  have hsafe := hall _ ((((hrun.tail ⟨_, hfail, trivial⟩).tail ⟨_, hput, trivial⟩).tail ⟨_, hload, trivial⟩).tail
    ⟨_, hloaded, trivial⟩)
  obtain ⟨p, hp, -, hl⟩ := hsafe.resume 0 0 rfl (by subst hidle hs; rfl)
  subst hidle hs
  cases hp
  cases hl

end LearnKvm
