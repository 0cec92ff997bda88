import LearnKvm.Lib.EventRun
import LearnKvm.Lib.TwoLevelSet
import LearnKvm.RealMode

/-!
# Pending interrupts (`kvm_main.c`)

The interrupts that wait for their delivery are a set of vectors, kept in two levels: `irq_pending` has a bit for each
vector, `irq_summary` one for each word of `irq_pending`.  KVM_INTERRUPT and `handle_exception` add to the set,
`kvm_do_inject_irq` removes the smallest vector.  The summary is exact in every state (`irqSummary_exact`), so the search
in `kvm_do_inject_irq` is always defined and finds the smallest vector.
-/

namespace LearnKvm

open EventRun TwoLevelSet

/-- The hosts, which differ in the size of a word. -/
inductive Arch where
  | i386 | x86_64
  deriving DecidableEq

def Arch.bitsPerLong : Arch → Nat
  | i386 => 32
  | x86_64 => 64

def Arch.nrIrqWords (arch : Arch) : Nat := 256 / arch.bitsPerLong

variable {arch : Arch}

theorem nrIrqWords_mul : arch.nrIrqWords * arch.bitsPerLong = 256 := by
  cases arch <;> rfl

theorem nrIrqWords_le : arch.nrIrqWords ≤ arch.bitsPerLong := by
  cases arch <;> decide

/-- A vcpu with the interrupts that wait for it. -/
structure IrqVcpu (arch : Arch) extends KvmVcpu where
  irqSummary : BitVec arch.bitsPerLong
  irqPending : Nat → BitVec arch.bitsPerLong

/-! ### The code -/

def vectoringInfoVectorMask : BitVec 32 := intrInfoVectorMask

def isExternalInterrupt (intrInfo : BitVec 32) : Bool :=
  intrInfo &&& (intrInfoIntrTypeMask ||| intrInfoValidMask) == (intrTypeExtIntr ||| intrInfoValidMask)

def cpuBasedVirtualIntrPending : BitVec 32 := 0x00000004

namespace IrqVcpu

/-- `set_bit(irq, vcpu->irq_pending)` and `set_bit(irq / BITS_PER_LONG, &vcpu->irq_summary)`. -/
def setIrq (s : IrqVcpu arch) (irq : Nat) : IrqVcpu arch :=
  let word := irq / arch.bitsPerLong
  { s with
    irqPending := Function.update s.irqPending word (s.irqPending word ||| 1#_ <<< (irq % arch.bitsPerLong))
    irqSummary := s.irqSummary ||| 1#_ <<< word }

/-- The interrupt at `bit_index` of a word is taken out of the set. -/
def clearIrq (s : IrqVcpu arch) (wordIndex bitIndex : Nat) : IrqVcpu arch :=
  let word := s.irqPending wordIndex &&& ~~~(1#_ <<< bitIndex)
  { s with
    irqPending := Function.update s.irqPending wordIndex word
    irqSummary := if word = 0#_ then s.irqSummary &&& ~~~(1#_ <<< wordIndex) else s.irqSummary }

def setVcpu (s : IrqVcpu arch) (v : KvmVcpu) : IrqVcpu arch := { s with toKvmVcpu := v }

end IrqVcpu

/-- Returns -EINVAL, or 0. -/
def kvmDevIoctlInterrupt (s : IrqVcpu arch) (irq : BitVec 32) : Int × IrqVcpu arch :=
  if 256 ≤ irq.toNat then (-22, s) else (0, s.setIrq irq.toNat)

/-- The first part of `handle_exception`: the exception has interrupted the delivery of an external interrupt, which is
queued again. -/
def requeueVectored (s : IrqVcpu arch) : IrqVcpu arch :=
  let vectInfo := vmcsRead32 s.vmcs .idtVectoringInfoField
  if isExternalInterrupt vectInfo then s.setIrq (vectInfo &&& vectoringInfoVectorMask).toNat else s

/-- The words and bits that `kvm_do_inject_irq` finds.  There are none where `__ffs` is undefined. -/
def nextIrq (s : IrqVcpu arch) : Option (Nat × Nat) :=
  match ffs s.irqSummary with
  | none => none
  | some wordIndex => (ffs (s.irqPending wordIndex)).map fun bitIndex => (wordIndex, bitIndex)

/-- The interruption information for an external interrupt. -/
def externalInfo (irq : Nat) : BitVec 32 := BitVec.ofNat 32 irq ||| intrTypeExtIntr ||| intrInfoValidMask

/-- The end of `kvm_do_inject_irq`. -/
def deliverIrq (s : KvmVcpu) (irq : Nat) : KvmVcpu :=
  if s.rmode.active then injectRmodeIrq s irq
  else s.setVmcs (vmcsWrite32 s.vmcs .vmEntryIntrInfoField (externalInfo irq))

def kvmDoInjectIrq (s : IrqVcpu arch) : Option (IrqVcpu arch) :=
  (nextIrq s).map fun (wordIndex, bitIndex) =>
    (s.clearIrq wordIndex bitIndex).setVcpu (deliverIrq s.toKvmVcpu (wordIndex * arch.bitsPerLong + bitIndex))

/-- Interrupts are enabled, and not blocked by sti or mov ss. -/
def interruptsOpen (v : Vmcs) : Bool :=
  vmcsReadl v .guestRflags &&& x86EflagsIf != 0 && vmcsRead32 v .guestInterruptibilityInfo &&& 3 == 0

def kvmTryInjectIrq (s : IrqVcpu arch) : Option (IrqVcpu arch) :=
  if interruptsOpen s.vmcs then kvmDoInjectIrq s
  else some (s.setVcpu (s.setVmcs (vmcsWrite32 s.vmcs .cpuBasedVmExecControl
    (vmcsRead32 s.vmcs .cpuBasedVmExecControl ||| cpuBasedVirtualIntrPending))))

/-- `kvm_dev_ioctl_run` calls `kvm_try_inject_irq` before it enters the guest. -/
def IrqVcpu.TriesInject (s : IrqVcpu arch) : Prop :=
  s.irqSummary ≠ 0#_ ∧ vmcsRead32 s.vmcs .vmEntryIntrInfoField &&& intrInfoValidMask = 0

/-! ### What a delivery is -/

/-- The guest address of the `n`-th word that is pushed in real mode: the stack pointer has 16 bits. -/
def stackWord (v : Vmcs) (n : Nat) : BitVec 64 :=
  vmcsReadl v .guestSsBase + ((vmcsReadl v .guestRsp).setWidth 16 - BitVec.ofNat 16 (2 * n)).setWidth 64

/-- The low word of `x` is stored in guest memory. -/
def Stores (s : Vcpu) (addr x : BitVec 64) (t : Vcpu) : Prop := kvmWriteGuest s addr (bytesOf 2 x) = (t, 2)

/-- The real mode segment of CS. -/
def rmodeCs (v : Vmcs) : BitVec 64 := ((vmcsReadl v .guestCsBase >>> 4).setWidth 16).setWidth 64

/-- The delivery of an interrupt in real mode. -/
structure RmodeDelivers (s : KvmVcpu) (irq : Nat) (t : KvmVcpu) : Prop where
  /-- FLAGS, CS and IP are pushed. -/
  pushed : ∃ m1 m2, Stores s.toVcpu (stackWord s.vmcs 1) (vmcsReadl s.vmcs .guestRflags) m1 ∧
    Stores m1 (stackWord s.vmcs 2) (rmodeCs s.vmcs) m2 ∧
    Stores m2 (stackWord s.vmcs 3) (vmcsReadl s.vmcs .guestRip) { m2 with mem := t.mem }
  sp : vmcsReadl t.vmcs .guestRsp =
    (vmcsReadl s.vmcs .guestRsp &&& ~~~0xffff) ||| ((vmcsReadl s.vmcs .guestRsp).setWidth 16 - 6#16).setWidth 64
  /-- CS and IP are loaded from the vector. -/
  vector : ∃ e0 e1 e2 e3, kvmReadGuest s.toVcpu (BitVec.ofNat 64 (irq * 4)) 4 = [e0, e1, e2, e3] ∧
    vmcsReadl t.vmcs .guestRip = (e1 ++ e0).setWidth 64 ∧ vmcsRead16 t.vmcs .guestCsSelector = e3 ++ e2 ∧
    vmcsReadl t.vmcs .guestCsBase = (e3 ++ e2).setWidth 64 <<< 4
  flags : vmcsReadl t.vmcs .guestRflags =
    vmcsReadl s.vmcs .guestRflags &&& ~~~(x86EflagsIf ||| x86EflagsAc ||| x86EflagsTf)

/-- The interrupt is delivered: by the processor at the next entry, or at once in real mode. -/
def Delivers (s : KvmVcpu) (irq : Nat) (t : KvmVcpu) : Prop :=
  if s.rmode.active then RmodeDelivers s irq t
  else vmcsRead32 t.vmcs .vmEntryIntrInfoField = externalInfo irq

/-! ### Steps -/

inductive IrqEvent where
  /-- The interrupt is put into the set. -/
  | raised (irq : Nat)
  /-- The interrupt is taken out of the set and delivered. -/
  | delivered (irq : Nat)
  /-- The interrupt is taken out of the set and not delivered. -/
  | lost (irq : Nat)
  | quiet
  deriving DecidableEq

/-- The steps that the set takes part in, and everything else that happens to the vcpu: the guest is entered and exits,
other exits are handled, other ioctls are called. -/
inductive IrqStep : IrqVcpu arch → IrqEvent → IrqVcpu arch → Prop
  | interrupt (s : IrqVcpu arch) {irq : BitVec 32} (h : irq.toNat < 256) :
      IrqStep s (.raised irq.toNat) (kvmDevIoctlInterrupt s irq).2
  | vectored (s : IrqVcpu arch) (h : isExternalInterrupt (vmcsRead32 s.vmcs .idtVectoringInfoField) = true) :
      IrqStep s (.raised (vmcsRead32 s.vmcs .idtVectoringInfoField &&& vectoringInfoVectorMask).toNat) (requeueVectored s)
  | inject {s t : IrqVcpu arch} {word bit : Nat} (hruns : s.TriesInject) (hopen : interruptsOpen s.vmcs = true)
      (hnext : nextIrq s = some (word, bit)) (ht : kvmTryInjectIrq s = some t)
      (hd : Delivers s.toKvmVcpu (word * arch.bitsPerLong + bit) t.toKvmVcpu) :
      IrqStep s (.delivered (word * arch.bitsPerLong + bit)) t
  | lose {s t : IrqVcpu arch} {word bit : Nat} (hruns : s.TriesInject) (hopen : interruptsOpen s.vmcs = true)
      (hnext : nextIrq s = some (word, bit)) (ht : kvmTryInjectIrq s = some t)
      (hd : ¬Delivers s.toKvmVcpu (word * arch.bitsPerLong + bit) t.toKvmVcpu) :
      IrqStep s (.lost (word * arch.bitsPerLong + bit)) t
  | wait {s t : IrqVcpu arch} (hruns : s.TriesInject) (hopen : interruptsOpen s.vmcs = false)
      (ht : kvmTryInjectIrq s = some t) : IrqStep s .quiet t
  | other (s : IrqVcpu arch) (v : KvmVcpu) : IrqStep s .quiet (s.setVcpu v)

/-- The vcpu as it is created. -/
def IrqVcpu.NoIrqs (s : IrqVcpu arch) : Prop := s.irqSummary = 0#_ ∧ s.irqPending = fun _ => 0#_

/-! ### The set -/

namespace IrqVcpu

/-- The two levels. -/
def irqs (s : IrqVcpu arch) : TwoLevel arch.bitsPerLong := ⟨s.irqSummary, s.irqPending⟩

/-- The vectors that wait. -/
def pending (s : IrqVcpu arch) : Set Nat := s.irqs.toSet arch.nrIrqWords

/-- Each bit of `irq_summary` stands for a word of `irq_pending` that is not zero. -/
def SummaryExact (s : IrqVcpu arch) : Prop := s.irqs.Summarised arch.nrIrqWords

theorem irqs_setIrq (s : IrqVcpu arch) (irq : Nat) : (s.setIrq irq).irqs = s.irqs.insert irq := rfl

theorem irqs_clearIrq (s : IrqVcpu arch) (word bit : Nat) : (s.clearIrq word bit).irqs = s.irqs.remove word bit := rfl

variable {s : IrqVcpu arch}

theorem mem_pending {irq : Nat} : irq ∈ s.pending ↔
    irq < 256 ∧ (s.irqPending (irq / arch.bitsPerLong)).hasBit (irq % arch.bitsPerLong) = true := by
  unfold pending TwoLevel.toSet
  rw [nrIrqWords_mul]
  exact Iff.rfl

theorem NoIrqs.summaryExact (h : s.NoIrqs) : s.SummaryExact := by
  unfold SummaryExact irqs
  rw [h.1, h.2]
  exact TwoLevel.summarised_empty

theorem NoIrqs.pending_eq (h : s.NoIrqs) : s.pending = ∅ := by
  unfold pending irqs
  rw [h.1, h.2]
  exact TwoLevel.toSet_empty

theorem SummaryExact.setIrq {irq : Nat} (h : s.SummaryExact) (hirq : irq < 256) :
    (s.setIrq irq).SummaryExact ∧ (s.setIrq irq).pending = insert irq s.pending := by
  rw [← @nrIrqWords_mul arch] at hirq
  unfold SummaryExact pending
  rw [irqs_setIrq]
  exact ⟨TwoLevel.Summarised.insert h nrIrqWords_le hirq, TwoLevel.toSet_insert hirq⟩

/-- Where the summary is not zero, both searches succeed and find the smallest vector. -/
theorem SummaryExact.nextIrq (h : s.SummaryExact) (hne : s.irqSummary ≠ 0#_) :
    ∃ word bit, LearnKvm.nextIrq s = some (word, bit) ∧ word < arch.nrIrqWords ∧ s.irqPending word ≠ 0#_ ∧
      bit < arch.bitsPerLong ∧ IsLeast s.pending (word * arch.bitsPerLong + bit) := by
  obtain ⟨word, bit, hword, hlt, hpending, hbit, hbitlt, hleast⟩ := TwoLevel.Summarised.first_isLeast h hne
  refine ⟨word, bit, ?_, hlt, hpending, hbitlt, hleast⟩
  unfold LearnKvm.nextIrq
  have hword : ffs s.irqSummary = some word := hword
  have hbit : ffs (s.irqPending word) = some bit := hbit
  rw [hword]
  simp [hbit]

theorem SummaryExact.clearIrq {word bit : Nat} (h : s.SummaryExact) (hword : word < arch.nrIrqWords)
    (hbit : bit < arch.bitsPerLong) : (s.clearIrq word bit).SummaryExact ∧
      (s.clearIrq word bit).pending = s.pending \ {word * arch.bitsPerLong + bit} := by
  unfold SummaryExact pending
  rw [irqs_clearIrq]
  exact ⟨TwoLevel.Summarised.remove h nrIrqWords_le hword, TwoLevel.toSet_remove hbit⟩

end IrqVcpu

variable {s t : IrqVcpu arch} {e : IrqEvent} {log : List IrqEvent}

theorem vector_lt (x : BitVec 32) : (x &&& vectoringInfoVectorMask).toNat < 256 := by
  have hle : (x &&& vectoringInfoVectorMask).toNat ≤ vectoringInfoVectorMask.toNat := by
    rw [BitVec.toNat_and]
    exact Nat.and_le_right
  have hmask : vectoringInfoVectorMask.toNat = 255 := rfl
  omega

/-- What `kvm_do_inject_irq` does to the set. -/
theorem kvmDoInjectIrq_spec (h : s.SummaryExact) {word bit : Nat} (hnext : nextIrq s = some (word, bit))
    (ht : kvmDoInjectIrq s = some t) : t.SummaryExact ∧ word * arch.bitsPerLong + bit ∈ s.pending ∧
      t.pending = s.pending \ {word * arch.bitsPerLong + bit} ∧
      t.toKvmVcpu = deliverIrq s.toKvmVcpu (word * arch.bitsPerLong + bit) := by
  have hne : s.irqSummary ≠ 0#_ := by
    intro h0
    unfold nextIrq at hnext
    rw [h0, ffs_eq_none_iff.2 rfl] at hnext
    cases hnext
  obtain ⟨word', bit', hnext', hword, -, hbit, hleast⟩ := h.nextIrq hne
  obtain ⟨rfl, rfl⟩ := Prod.mk.inj (Option.some.inj (hnext'.symm.trans hnext))
  unfold kvmDoInjectIrq at ht
  rw [hnext] at ht
  obtain rfl := Option.some.inj ht
  obtain ⟨h1, h2⟩ := h.clearIrq hword hbit
  exact ⟨h1, hleast.1, h2, rfl⟩

/-! ### The set of a machine that loses nothing -/

/-- Interrupts are raised, and delivered from the set. -/
inductive PendingStep : Set Nat → IrqEvent → Set Nat → Prop
  | raised (P : Set Nat) (irq : Nat) : PendingStep P (.raised irq) (insert irq P)
  | delivered {P : Set Nat} {irq : Nat} (h : irq ∈ P) : PendingStep P (.delivered irq) (P \ {irq})
  | quiet (P : Set Nat) : PendingStep P .quiet P

/-- A step of the code is such a step, except for the interrupts that are lost. -/
theorem IrqStep.pending (h : s.SummaryExact) (hstep : IrqStep s e t) : t.SummaryExact ∧
    (PendingStep s.pending e t.pending ∨ ∃ irq, e = .lost irq ∧ irq ∈ s.pending ∧ t.pending = s.pending \ {irq}) := by
  cases hstep with
  | @interrupt irq hirq =>
    have heq : (kvmDevIoctlInterrupt s irq).2 = s.setIrq irq.toNat := by
      unfold kvmDevIoctlInterrupt
      rw [if_neg (by omega)]
    obtain ⟨h1, h2⟩ := h.setIrq hirq
    rw [heq, h2]
    exact ⟨h1, Or.inl (.raised _ _)⟩
  | vectored hext =>
    obtain ⟨h1, h2⟩ := h.setIrq (vector_lt (vmcsRead32 s.vmcs .idtVectoringInfoField))
    have heq : requeueVectored s =
        s.setIrq (vmcsRead32 s.vmcs .idtVectoringInfoField &&& vectoringInfoVectorMask).toNat := if_pos hext
    rw [heq, h2]
    exact ⟨h1, Or.inl (.raised _ _)⟩
  | inject hruns hopen hnext ht hd =>
    unfold kvmTryInjectIrq at ht
    rw [if_pos hopen] at ht
    obtain ⟨h1, hmem, h2, -⟩ := kvmDoInjectIrq_spec h hnext ht
    rw [h2]
    exact ⟨h1, Or.inl (.delivered hmem)⟩
  | lose hruns hopen hnext ht hd =>
    unfold kvmTryInjectIrq at ht
    rw [if_pos hopen] at ht
    obtain ⟨h1, hmem, h2, -⟩ := kvmDoInjectIrq_spec h hnext ht
    exact ⟨h1, Or.inr ⟨_, rfl, hmem, h2⟩⟩
  | wait hruns hopen ht =>
    unfold kvmTryInjectIrq at ht
    rw [if_neg (by simp [hopen])] at ht
    obtain rfl := Option.some.inj ht
    exact ⟨h, Or.inl (.quiet _)⟩
  | other v => exact ⟨h, Or.inl (.quiet _)⟩

theorem summaryExact_run {s0 : IrqVcpu arch} (hopen : s0.NoIrqs) (h : Run IrqStep s0 log s) : s.SummaryExact :=
  h.invariant (fun _ _ _ hs hstep => (hstep.pending hs).1) hopen.summaryExact

/-- **The two levels agree** in every state: bit `w` of `irq_summary` is set exactly when `irq_pending[w]` is not zero.
So when `kvm_dev_ioctl_run` calls `kvm_try_inject_irq`, both searches have a bit to find, they choose the smallest vector
that waits, and this vector alone leaves the set. -/
theorem irqSummary_exact {s0 : IrqVcpu arch} (hopen : s0.NoIrqs) (h : Run IrqStep s0 log s) :
    (∀ w < arch.nrIrqWords, s.irqSummary.hasBit w = true ↔ s.irqPending w ≠ 0#_) ∧
      (s.TriesInject → ∃ word bit, word < arch.nrIrqWords ∧ ffs s.irqSummary = some word ∧ s.irqPending word ≠ 0#_ ∧
        ffs (s.irqPending word) = some bit ∧ IsLeast s.pending (word * arch.bitsPerLong + bit) ∧
        ∃ t, kvmDoInjectIrq s = some t ∧ t.pending = s.pending \ {word * arch.bitsPerLong + bit} ∧
          t.toKvmVcpu = deliverIrq s.toKvmVcpu (word * arch.bitsPerLong + bit)) := by
  have hi := summaryExact_run hopen h
  refine ⟨fun w hw => ?_, fun hruns => ?_⟩
  · have := hi w
    constructor
    · intro hbit
      exact (this.1 hbit).2
    · intro hne
      exact this.2 ⟨hw, hne⟩
  · obtain ⟨word, bit, hnext, hword, hpending, -, hleast⟩ := hi.nextIrq hruns.1
    have ht : ∃ t, kvmDoInjectIrq s = some t := by
      unfold kvmDoInjectIrq
      rw [hnext]
      exact ⟨_, rfl⟩
    obtain ⟨t, ht⟩ := ht
    obtain ⟨-, -, hremoved, hdelivered⟩ := kvmDoInjectIrq_spec hi hnext ht
    unfold nextIrq at hnext
    cases hffs : ffs s.irqSummary with
    | none => simp [hffs] at hnext
    | some word' =>
      rw [hffs] at hnext
      obtain ⟨bit', hbit', heq⟩ := Option.map_eq_some_iff.1 hnext
      obtain ⟨rfl, rfl⟩ := Prod.mk.inj heq
      exact ⟨word', bit', hword, rfl, hpending, hbit', hleast, t, ht, hremoved, hdelivered⟩

/-- A vcpu as it is created. -/
def idleVcpu (arch : Arch) : IrqVcpu arch := { (default : KvmVcpu) with irqSummary := 0#_, irqPending := fun _ => 0#_ }

theorem idleVcpu_noIrqs : (idleVcpu arch).NoIrqs := ⟨rfl, rfl⟩

/-- Two interrupts in different words. -/
def twoIrqs : IrqVcpu .i386 := (kvmDevIoctlInterrupt (kvmDevIoctlInterrupt (idleVcpu .i386) 200).2 33).2

theorem run_twoIrqs : Run IrqStep (idleVcpu .i386) [.raised 200, .raised 33] twoIrqs :=
  .tail (.tail .refl (@IrqStep.interrupt .i386 _ 200 (by decide))) (@IrqStep.interrupt .i386 _ 33 (by decide))

theorem irqSummary_exact_twoIrqs : twoIrqs.irqSummary = 0b1000010#32 ∧
    (∀ w < 8, twoIrqs.irqSummary.hasBit w = true ↔ twoIrqs.irqPending w ≠ 0#32) ∧
    ∃ word bit, word < 8 ∧ ffs twoIrqs.irqSummary = some word ∧ twoIrqs.irqPending word ≠ 0#32 ∧
      ffs (twoIrqs.irqPending word) = some bit ∧ IsLeast twoIrqs.pending (word * 32 + bit) ∧
      ∃ t, kvmDoInjectIrq twoIrqs = some t ∧ t.pending = twoIrqs.pending \ {word * 32 + bit} ∧
        t.toKvmVcpu = deliverIrq twoIrqs.toKvmVcpu (word * 32 + bit) := by
  obtain ⟨hexact, hfirst⟩ := irqSummary_exact idleVcpu_noIrqs run_twoIrqs
  exact ⟨rfl, hexact, hfirst ⟨by decide, by decide⟩⟩

end LearnKvm
