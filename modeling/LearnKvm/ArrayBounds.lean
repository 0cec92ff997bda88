import LearnKvm.Lib.AccessLog
import LearnKvm.MemoryRegion

/-!
# The indices of the ioctls (`kvm_dev_ioctl`)

Each ioctl as far as it uses the arrays `kvm->vcpus`, `kvm->memslots` and `vcpu->irq_pending`, with numbers for indices,
so that an index can be out of range; `Access` records every use.  Everything else that an ioctl does only decides which
guest frames it looks up, which interrupts it injects, and whether its calls fail: `RunEvent` and the other arguments say
so.

The pending interrupts keep the indices of `kvm_do_inject_irq` in range (`IrqPending`), and the slots that are in use those
of `gfn_to_memslot`.  Every ioctl checks the numbers that it is given, except KVM_TRANSLATE (`ioctl_inBounds`).
-/

namespace LearnKvm.Arrays

open AccessLog Relation

/-! ### The arrays -/

/-- The part of `struct kvm_vcpu`; the words of `irq_pending` from `NR_IRQ_WORDS` on are what lies behind it. -/
structure IrqVcpu where
  created : Bool
  irqSummary : BitVec 64
  irqPending : Nat → BitVec 64

/-- The part of `struct kvm`; the slots from `KVM_MEMORY_SLOTS` on and the other vcpus are what lies around them. -/
structure KvmArrays where
  nmemslots : Nat
  memslots : Nat → KvmMemorySlot
  vcpus : Int → IrqVcpu

/-- As `kvm_dev_open` leaves them: `struct kvm` is filled with zeros. -/
structure KvmArrays.Opened (kvm : KvmArrays) : Prop where
  nmemslots : kvm.nmemslots = 0
  created : (kvm.vcpus 0).created = false
  irqs : (kvm.vcpus 0).irqSummary = 0

inductive Access where
  | vcpu (i : Int)
  | memslot (i : Nat)
  | irqPending (word : Nat)
  deriving DecidableEq

def bitsPerLong : Nat := 64
def nrIrqWords : Nat := 256 / bitsPerLong

/-- The element is in its array. -/
def Access.InBounds : Access → Prop
  | vcpu i => 0 ≤ i ∧ i < kvmMaxVcpus
  | memslot i => i < kvmMemorySlots
  | irqPending word => word < nrIrqWords

/-- What an ioctl does with the arrays. -/
abbrev Ioctl (β : Type) := Traced KvmArrays Access β

/-! ### Lookups -/

/-- The slots that `gfn_to_memslot` looks at, and `mark_page_dirty` in the same way. -/
def slotsSearched (memslots : Nat → KvmMemorySlot) (gfn : Nat) : List Nat → List Nat
  | [] => []
  | i :: rest => if (memslots i).contains gfn then [i] else i :: slotsSearched memslots gfn rest

def searchMemslots (gfn : Nat) : Ioctl Unit := do
  let kvm ← Traced.get
  Traced.forEach (slotsSearched kvm.memslots gfn (List.range kvm.nmemslots)) fun i => Traced.touch (.memslot i)

def vcpuLoad (vcpuSlot : Int) : Ioctl (Option Int) := do
  Traced.touch (.vcpu vcpuSlot)
  let kvm ← Traced.get
  pure (if (kvm.vcpus vcpuSlot).created then some vcpuSlot else none)

/-- `vcpu_load` of every vcpu. -/
def loadAllVcpus : Ioctl Unit :=
  Traced.forEach (List.range kvmMaxVcpus) fun i => do
    let _ ← vcpuLoad i

def KvmArrays.setVcpu (kvm : KvmArrays) (v : Int) (vcpu : IrqVcpu) : KvmArrays :=
  { kvm with vcpus := Function.update kvm.vcpus v vcpu }

/-! ### Interrupts -/

/-- `set_bit(irq, vcpu->irq_pending)` and the bit of its word in `irq_summary`. -/
def IrqVcpu.setIrq (vcpu : IrqVcpu) (irq : Nat) : IrqVcpu :=
  { vcpu with
    irqPending := Function.update vcpu.irqPending (irq / bitsPerLong)
      (vcpu.irqPending (irq / bitsPerLong) ||| 1#64 <<< (irq % bitsPerLong))
    irqSummary := vcpu.irqSummary ||| 1#64 <<< (irq / bitsPerLong) }

def setIrq (v : Int) (irq : Nat) : Ioctl Unit := do
  Traced.touch (.irqPending (irq / bitsPerLong))
  Traced.modify fun kvm => kvm.setVcpu v ((kvm.vcpus v).setIrq irq)

/-- `__ffs`: the lowest bit that is set. -/
def ffs (w : BitVec 64) : Nat := (List.range 64).findIdx fun i => w.getLsbD i

/-- The two `clear_bit` of `kvm_do_inject_irq`. -/
def IrqVcpu.takeIrq (vcpu : IrqVcpu) : IrqVcpu :=
  let wordIndex := ffs vcpu.irqSummary
  let bitIndex := ffs (vcpu.irqPending wordIndex)
  let word := wordIndex + bitIndex / bitsPerLong
  let pending := Function.update vcpu.irqPending word (vcpu.irqPending word &&& ~~~(1#64 <<< (bitIndex % bitsPerLong)))
  { vcpu with
    irqPending := pending
    irqSummary := if pending wordIndex = 0 then vcpu.irqSummary &&& ~~~(1#64 <<< wordIndex) else vcpu.irqSummary }

def kvmDoInjectIrq (v : Int) : Ioctl Unit := do
  let kvm ← Traced.get
  let vcpu := kvm.vcpus v
  let wordIndex := ffs vcpu.irqSummary
  Traced.touch (.irqPending wordIndex)
  Traced.touch (.irqPending (wordIndex + ffs (vcpu.irqPending wordIndex) / bitsPerLong))
  Traced.modify fun kvm => kvm.setVcpu v (kvm.vcpus v).takeIrq

/-! ### The ioctls -/

/-- What happens in KVM_RUN. -/
inductive RunEvent where
  /-- The guest is entered, when it can take an interrupt. -/
  | inject
  /-- An exit in which an external interrupt has not been delivered. -/
  | vectored (irq : BitVec 8)
  /-- A guest frame is looked up, or marked dirty. -/
  | lookup (gfn : Nat)
  /-- `rmode_tss_base`. -/
  | rmodeTssBase

def RunEvent.run (v : Int) : RunEvent → Ioctl Unit
  | inject => do
    let kvm ← Traced.get
    if (kvm.vcpus v).irqSummary = 0 then pure () else kvmDoInjectIrq v
  | vectored irq => setIrq v irq.toNat
  | lookup gfn => searchMemslots gfn
  | rmodeTssBase => Traced.touch (.memslot 0)

/-- The ioctls that check the vcpu number and load the vcpu. -/
def withVcpu (vcpu : BitVec 32) (body : Int → Ioctl Int) : Ioctl Int :=
  if kvmMaxVcpus ≤ vcpu.toNat then pure (-einval)
  else do
    match ← vcpuLoad vcpu.toInt with
    | none => pure (-enoent)
    | some v => body v

/-- `result` is what the call returns when it gets that far. -/
def kvmDevIoctlRun (vcpu : BitVec 32) (events : List RunEvent) (result : Int) : Ioctl Int :=
  withVcpu vcpu fun v => do
    Traced.forEach events (RunEvent.run v)
    pure result

def kvmDevIoctlGetRegs (vcpu : BitVec 32) : Ioctl Int := withVcpu vcpu fun _ => pure 0

def kvmDevIoctlSetRegs (vcpu : BitVec 32) : Ioctl Int := withVcpu vcpu fun _ => pure 0

def kvmDevIoctlGetSregs (vcpu : BitVec 32) : Ioctl Int := withVcpu vcpu fun _ => pure 0

def kvmDevIoctlSetSregs (vcpu : BitVec 32) : Ioctl Int := withVcpu vcpu fun _ => pure 0

def kvmDevIoctlDebugGuest (vcpu : BitVec 32) : Ioctl Int := withVcpu vcpu fun _ => pure 0

/-- It does not check the vcpu number; `gfns` are the frames that `gva_to_gpa` looks up. -/
def kvmDevIoctlTranslate (vcpu : BitVec 32) (gfns : List Nat) : Ioctl Int := do
  match ← vcpuLoad vcpu.toInt with
  | none => pure (-enoent)
  | some _ =>
    Traced.forEach gfns searchMemslots
    pure 0

def kvmDevIoctlInterrupt (vcpu irq : BitVec 32) : Ioctl Int :=
  if kvmMaxVcpus ≤ vcpu.toNat then pure (-einval)
  else if 256 ≤ irq.toNat then pure (-einval)
  else do
    match ← vcpuLoad vcpu.toInt with
    | none => pure (-enoent)
    | some v =>
      setIrq v irq.toNat
      pure 0

/-- `setup` is what `kvm_vcpu_setup` returns, if the VMCS can be allocated; it looks for the frames of the TSS. -/
def kvmDevIoctlCreateVcpu (n : BitVec 32) (setup : Option Int) : Ioctl Int :=
  if n.toInt < 0 ∨ (kvmMaxVcpus : Int) ≤ n.toInt then pure (-einval)
  else do
    Traced.touch (.vcpu n.toInt)
    let kvm ← Traced.get
    if (kvm.vcpus n.toInt).created then pure (-eexist)
    else
      match setup with
      | none => pure (-einval)
      | some r =>
        Traced.touch (.memslot 0)
        let base := (kvm.memslots 0).baseGfn + (kvm.memslots 0).npages - 3
        Traced.forEach [base, base + 1, base + 2] searchMemslots
        if r < 0 then pure r
        else
          Traced.modify fun kvm => kvm.setVcpu n.toInt { kvm.vcpus n.toInt with created := true }
          pure 0

/-- How the allocations and the second section under the lock end. -/
inductive MemPass where
  | failed (r : Int)
  | raced
  | committed (new : KvmMemorySlot)

/-- The slots that the check for overlaps looks at. -/
def overlapsSearched (mem : KvmMemoryRegion) (slot : Nat) (memslots : Nat → KvmMemorySlot) : List Nat → List Nat × Bool
  | [] => ([], false)
  | i :: rest =>
    if i ≠ slot ∧ regionOverlaps mem (memslots i) then ([i], true)
    else
      let (searched, overlap) := overlapsSearched mem slot memslots rest
      (i :: searched, overlap)

/-- The call from the label `raced` on, when its passes end so; after the last of `passes` it has not returned. -/
def setMemoryRegionPasses (mem : KvmMemoryRegion) (slot : Nat) : List MemPass → Ioctl Int
  | [] => pure 0
  | pass :: rest => do
    Traced.touch (.memslot slot)
    let kvm ← Traced.get
    let old := kvm.memslots slot
    if mem.npages ≠ 0 ∧ old.npages ≠ 0 ∧ mem.npages ≠ old.npages then pure (-einval)
    else
      let (searched, overlap) := overlapsSearched mem slot kvm.memslots (List.range kvmMemorySlots)
      Traced.forEach searched fun i => Traced.touch (.memslot i)
      if overlap then pure (-eexist)
      else
        match pass with
        | .failed r => pure r
        | .raced => setMemoryRegionPasses mem slot rest
        | .committed new =>
          Traced.touch (.memslot slot)
          Traced.modify fun kvm => { kvm with
            nmemslots := if kvm.nmemslots ≤ slot then slot + 1 else kvm.nmemslots
            memslots := Function.update kvm.memslots slot new }
          loadAllVcpus
          pure 0

def kvmDevIoctlSetMemoryRegion (mem : KvmMemoryRegion) (passes : List MemPass) : Ioctl Int :=
  match mem.sanityChecks with
  | none => pure (-einval)
  | some slot => setMemoryRegionPasses mem slot.val passes

/-- `any` says whether a bit is set, `copied` whether `copy_to_user` succeeds. -/
def kvmDevIoctlGetDirtyLog (slot : BitVec 32) (any copied : Bool) : Ioctl Int :=
  if kvmMemorySlots ≤ slot.toNat then pure (-einval)
  else do
    Traced.touch (.memslot slot.toNat)
    let kvm ← Traced.get
    if (kvm.memslots slot.toNat).dirtyBitmap = 0 then pure (-enoent)
    else if !copied then pure (-efault)
    else if any then do
      loadAllVcpus
      pure 0
    else pure 0

/-- A call of `kvm_dev_ioctl`: the number and the structure behind the pointer. -/
inductive Request where
  | createVcpu (n : BitVec 32) (setup : Option Int)
  | run (vcpu : BitVec 32) (events : List RunEvent) (result : Int)
  | getRegs (vcpu : BitVec 32)
  | setRegs (vcpu : BitVec 32)
  | getSregs (vcpu : BitVec 32)
  | setSregs (vcpu : BitVec 32)
  | translate (vcpu : BitVec 32) (gfns : List Nat)
  | interrupt (vcpu irq : BitVec 32)
  | debugGuest (vcpu : BitVec 32)
  | setMemoryRegion (mem : KvmMemoryRegion) (passes : List MemPass)
  | getDirtyLog (slot : BitVec 32) (any copied : Bool)
  /-- Any other number. -/
  | other

/-- `copy_from_user` before a call. -/
def fetched (copyIn : Bool) (call : Ioctl Int) : Ioctl Int := if copyIn then call else pure (-efault)

/-- `copy_to_user` after a call that has returned `r`, unless that is an error. -/
def stored (copyOut : Bool) (failed : Int → Bool) (call : Ioctl Int) : Ioctl Int := do
  let r ← call
  pure (if failed r then r else if copyOut then 0 else -efault)

/-- `copyIn` and `copyOut` say whether the copies from and to user space succeed. -/
def kvmDevIoctl (copyIn copyOut : Bool) : Request → Ioctl Int
  | .createVcpu n setup => kvmDevIoctlCreateVcpu n setup
  | .run vcpu events result => fetched copyIn (stored copyOut (· < 0) (kvmDevIoctlRun vcpu events result))
  | .getRegs vcpu => fetched copyIn (stored copyOut (· ≠ 0) (kvmDevIoctlGetRegs vcpu))
  | .setRegs vcpu => fetched copyIn (kvmDevIoctlSetRegs vcpu)
  | .getSregs vcpu => fetched copyIn (stored copyOut (· ≠ 0) (kvmDevIoctlGetSregs vcpu))
  | .setSregs vcpu => fetched copyIn (kvmDevIoctlSetSregs vcpu)
  | .translate vcpu gfns => fetched copyIn (stored copyOut (· ≠ 0) (kvmDevIoctlTranslate vcpu gfns))
  | .interrupt vcpu irq => fetched copyIn (kvmDevIoctlInterrupt vcpu irq)
  | .debugGuest vcpu => fetched copyIn (kvmDevIoctlDebugGuest vcpu)
  | .setMemoryRegion mem passes => fetched copyIn (kvmDevIoctlSetMemoryRegion mem passes)
  | .getDirtyLog slot any copied => fetched copyIn (kvmDevIoctlGetDirtyLog slot any copied)
  | .other => pure (-einval)

/-- The vcpu or slot number is one of the machine. -/
def Request.InRange : Request → Prop
  | createVcpu n _ => 0 ≤ n.toInt ∧ n.toInt < kvmMaxVcpus
  | run vcpu _ _ => vcpu.toNat < kvmMaxVcpus
  | getRegs vcpu => vcpu.toNat < kvmMaxVcpus
  | setRegs vcpu => vcpu.toNat < kvmMaxVcpus
  | getSregs vcpu => vcpu.toNat < kvmMaxVcpus
  | setSregs vcpu => vcpu.toNat < kvmMaxVcpus
  | translate vcpu _ => vcpu.toNat < kvmMaxVcpus
  | interrupt vcpu _ => vcpu.toNat < kvmMaxVcpus
  | debugGuest vcpu => vcpu.toNat < kvmMaxVcpus
  | setMemoryRegion mem _ => mem.slot.toNat < kvmMemorySlots
  | getDirtyLog slot _ _ => slot.toNat < kvmMemorySlots
  | other => True

/-- All indices are in range, and a number that is not is rejected before an array is used. -/
structure IndicesChecked (copyIn copyOut : Bool) (request : Request) (kvm : KvmArrays) : Prop where
  bounds : ∀ a ∈ ((kvmDevIoctl copyIn copyOut request).run kvm).log, a.InBounds
  rejects : ¬request.InRange →
    ((kvmDevIoctl copyIn copyOut request).run kvm).value < 0 ∧ ((kvmDevIoctl copyIn copyOut request).run kvm).log = []

/-- Calls that stay within the arrays, in any order. -/
def IoctlRun : KvmArrays → KvmArrays → Prop :=
  ReflTransGen fun kvm kvm' => ∃ copyIn copyOut request,
    (∀ a ∈ ((kvmDevIoctl copyIn copyOut request).run kvm).log, a.InBounds) ∧ kvm' = ((kvmDevIoctl copyIn copyOut request).run kvm).state

/-! ### The invariant -/

/-- A word whose bit is set in `irq_summary` is in the array, and has a bit set. -/
def IrqPending (vcpu : IrqVcpu) : Prop :=
  ∀ w, vcpu.irqSummary.getLsbD w = true → w < nrIrqWords ∧ vcpu.irqPending w ≠ 0

structure ArraysInv (kvm : KvmArrays) : Prop where
  nmemslots : kvm.nmemslots ≤ kvmMemorySlots
  irqs : IrqPending (kvm.vcpus 0)

theorem arraysInv_opened {kvm : KvmArrays} (h : kvm.Opened) : ArraysInv kvm := by
  refine ⟨by rw [h.nmemslots]; decide, fun w hw => ?_⟩
  rw [h.irqs] at hw
  simp at hw

/-- The lowest bit of a word that is not zero. -/
theorem ffs_spec {w : BitVec 64} (h : w ≠ 0) : ffs w < 64 ∧ w.getLsbD (ffs w) = true := by
  obtain ⟨i, hi, hbit⟩ : ∃ i, i < 64 ∧ w.getLsbD i = true := by
    by_contra hno
    refine h (BitVec.eq_of_getLsbD_eq fun i hi => ?_)
    have hfalse : w.getLsbD i = false := Bool.eq_false_iff.2 fun hbit => hno ⟨i, hi, hbit⟩
    rw [hfalse]
    simp
  have hlt : ffs w < (List.range 64).length := List.findIdx_lt_length_of_exists ⟨i, List.mem_range.2 hi, hbit⟩
  have hget : w.getLsbD (List.range 64)[ffs w] = true := List.findIdx_getElem (w := hlt)
  rw [List.getElem_range] at hget
  rw [List.length_range] at hlt
  exact ⟨hlt, hget⟩

theorem getLsbD_one_shift {i k : Nat} (hk : k < 64) : (1#64 <<< k).getLsbD i = decide (i = k) := by
  rw [BitVec.getLsbD_shiftLeft, BitVec.getLsbD_one]
  by_cases h : i = k
  · subst h
    simp [hk]
  · simp only [h, decide_false]
    by_cases hi : i < k
    · simp [hi]
    · simp [show i - k ≠ 0 by omega]

theorem IrqPending.setIrq {vcpu : IrqVcpu} (h : IrqPending vcpu) {irq : Nat} (hirq : irq < 256) :
    IrqPending (vcpu.setIrq irq) := by
  have hword : irq / bitsPerLong < nrIrqWords := by
    unfold nrIrqWords bitsPerLong
    omega
  have hbit : irq % bitsPerLong < 64 := Nat.mod_lt _ (by decide)
  intro w hw
  have hw : (vcpu.irqSummary ||| 1#64 <<< (irq / bitsPerLong)).getLsbD w = true := hw
  rw [BitVec.getLsbD_or, getLsbD_one_shift (Nat.lt_trans hword (by decide)), Bool.or_eq_true, decide_eq_true_eq] at hw
  show w < nrIrqWords ∧ Function.update _ _ _ w ≠ 0
  by_cases hwi : w = irq / bitsPerLong
  · refine ⟨hwi ▸ hword, fun h0 => ?_⟩
    rw [hwi, Function.update_self] at h0
    have := congrArg (fun x => x.getLsbD (irq % bitsPerLong)) h0
    simp [getLsbD_one_shift hbit] at this
  · obtain ⟨h1, h2⟩ := h w (hw.resolve_right hwi)
    rw [Function.update_of_ne hwi]
    exact ⟨h1, h2⟩

theorem IrqPending.takeIrq {vcpu : IrqVcpu} (h : IrqPending vcpu) (hne : vcpu.irqSummary ≠ 0) :
    IrqPending vcpu.takeIrq := by
  obtain ⟨hlt, hbit⟩ := ffs_spec hne
  obtain ⟨hword, hpending⟩ := h _ hbit
  obtain ⟨hbitlt, -⟩ := ffs_spec hpending
  have hsame : ffs vcpu.irqSummary + ffs (vcpu.irqPending (ffs vcpu.irqSummary)) / bitsPerLong = ffs vcpu.irqSummary := by
    rw [Nat.div_eq_of_lt (show _ < bitsPerLong from hbitlt), Nat.add_zero]
  intro w hw
  unfold IrqVcpu.takeIrq at hw ⊢
  dsimp only at hw ⊢
  rw [hsame] at hw ⊢
  generalize hp : Function.update vcpu.irqPending (ffs vcpu.irqSummary) _ = pending at hw ⊢
  have hkeep : ∀ w, w ≠ ffs vcpu.irqSummary → pending w = vcpu.irqPending w := fun w hw => by
    rw [← hp]
    exact Function.update_of_ne hw ..
  by_cases hwi : w = ffs vcpu.irqSummary
  · subst hwi
    refine ⟨hword, fun h0 => ?_⟩
    -- the bit of an empty word has been cleared
    rw [if_pos h0, BitVec.getLsbD_and, BitVec.getLsbD_not, getLsbD_one_shift hlt] at hw
    simp at hw
  · rw [hkeep w hwi]
    refine h w ?_
    split at hw
    · rw [BitVec.getLsbD_and, Bool.and_eq_true] at hw
      exact hw.1
    · exact hw

/-! ### One contract for each function -/

/-- It uses the arrays within their bounds. -/
def Safe {β : Type} (m : Ioctl β) : Prop := Within ArraysInv Access.InBounds (fun _ => True) m

theorem safe_pure {β : Type} (b : β) : Safe (pure b : Ioctl β) := within_pure trivial

theorem safe_touch (a : Access) (h : a.InBounds) : Safe (Traced.touch a) := within_touch h

theorem Safe.andThen {β γ : Type} {m : Ioctl β} {f : β → Ioctl γ} (hm : Safe m) (hf : ∀ b, Safe (f b)) : Safe (m >>= f) :=
  hm.bind fun b _ => hf b

theorem mem_slotsSearched {memslots : Nat → KvmMemorySlot} {gfn : Nat} {l : List Nat} {i : Nat}
    (h : i ∈ slotsSearched memslots gfn l) : i ∈ l := by
  induction l with
  | nil => cases h
  | cons j l ih =>
    unfold slotsSearched at h
    split at h
    · exact List.mem_cons.2 (Or.inl (List.mem_singleton.1 h))
    · rcases List.mem_cons.1 h with rfl | h
      · exact List.mem_cons_self
      · exact List.mem_cons_of_mem _ (ih h)

theorem safe_searchMemslots (gfn : Nat) : Safe (searchMemslots gfn) := by
  refine within_get.bind fun kvm hkvm => within_forEach fun i hi => within_touch ?_
  have hlt := List.mem_range.1 (mem_slotsSearched hi)
  exact Nat.lt_of_lt_of_le hlt hkvm.nmemslots

/-- The only vcpu. -/
theorem within_vcpuLoad : Within ArraysInv Access.InBounds (fun o => ∀ v, o = some v → v = 0) (vcpuLoad 0) := by
  refine (safe_touch (.vcpu 0) ⟨by decide, by decide⟩).bind fun _ _ => within_get.bind fun kvm _ => ?_
  refine within_pure fun v hv => ?_
  split at hv
  · exact (Option.some.inj hv).symm
  · cases hv

theorem safe_loadAllVcpus : Safe loadAllVcpus := by
  refine within_forEach fun i hi => ?_
  have hi0 : i = 0 := by
    have := List.mem_range.1 hi
    unfold kvmMaxVcpus at this
    omega
  rw [hi0]
  exact within_vcpuLoad.bind fun _ _ => within_pure trivial

theorem ArraysInv.setVcpu {kvm : KvmArrays} (h : ArraysInv kvm) {vcpu : IrqVcpu} (hv : IrqPending vcpu) :
    ArraysInv (kvm.setVcpu 0 vcpu) := by
  refine ⟨h.nmemslots, ?_⟩
  show IrqPending (Function.update kvm.vcpus 0 vcpu 0)
  rw [Function.update_self]
  exact hv

theorem safe_setIrq {irq : Nat} (h : irq < 256) : Safe (setIrq 0 irq) := by
  have hword : irq / bitsPerLong < nrIrqWords := by
    unfold nrIrqWords bitsPerLong
    omega
  refine (safe_touch (.irqPending _) hword).bind fun _ _ => within_modify fun kvm hkvm => ?_
  exact hkvm.setVcpu (hkvm.irqs.setIrq h)

/-- The injection is only tried when a bit is set. -/
theorem safe_inject : Safe (RunEvent.run 0 .inject) := by
  intro kvm hkvm
  unfold RunEvent.run
  rw [Traced.bind_run, Traced.get_run]
  dsimp only
  split
  · exact ⟨fun a ha => (nomatch ha), hkvm, trivial⟩
  · rename_i hne
    obtain ⟨hword, hpending⟩ := hkvm.irqs _ (ffs_spec hne).2
    have hbit := (ffs_spec hpending).1
    refine ⟨fun a ha => ?_, hkvm.setVcpu (hkvm.irqs.takeIrq hne), trivial⟩
    have ha : a ∈ [Access.irqPending (ffs (kvm.vcpus 0).irqSummary),
        .irqPending (ffs (kvm.vcpus 0).irqSummary + ffs ((kvm.vcpus 0).irqPending (ffs (kvm.vcpus 0).irqSummary)) / bitsPerLong)] :=
      ha
    rw [Nat.div_eq_of_lt (show _ < bitsPerLong from hbit), Nat.add_zero] at ha
    simp only [List.mem_cons, List.not_mem_nil, or_false, or_self] at ha
    rw [ha]
    exact hword

theorem safe_runEvent (e : RunEvent) : Safe (e.run 0) := by
  cases e with
  | inject => exact safe_inject
  | vectored irq => exact safe_setIrq irq.isLt
  | lookup gfn => exact safe_searchMemslots gfn
  | rmodeTssBase => exact within_touch (show 0 < kvmMemorySlots by decide)

theorem toInt_of_lt {vcpu : BitVec 32} (h : vcpu.toNat < kvmMaxVcpus) : vcpu.toInt = 0 := by
  have h0 : vcpu = 0 := BitVec.eq_of_toNat_eq (Nat.lt_one_iff.1 h)
  rw [h0]
  rfl

theorem safe_withVcpu (vcpu : BitVec 32) {body : Int → Ioctl Int} (hbody : Safe (body 0)) : Safe (withVcpu vcpu body) := by
  unfold withVcpu
  split
  · exact safe_pure _
  · rename_i h
    rw [toInt_of_lt (Nat.lt_of_not_le h)]
    refine within_vcpuLoad.bind fun o ho => ?_
    cases o with
    | none => exact safe_pure _
    | some v =>
      obtain rfl := ho v rfl
      exact hbody

theorem safe_interrupt (vcpu irq : BitVec 32) : Safe (kvmDevIoctlInterrupt vcpu irq) := by
  unfold kvmDevIoctlInterrupt
  split
  · exact safe_pure _
  · rename_i h
    split
    · exact safe_pure _
    · rename_i hirq
      rw [toInt_of_lt (Nat.lt_of_not_le h)]
      refine within_vcpuLoad.bind fun o ho => ?_
      cases o with
      | none => exact safe_pure _
      | some v =>
        obtain rfl := ho v rfl
        exact (safe_setIrq (Nat.lt_of_not_le hirq)).andThen fun _ => safe_pure _

theorem safe_translate {vcpu : BitVec 32} (h : vcpu.toNat < kvmMaxVcpus) (gfns : List Nat) :
    Safe (kvmDevIoctlTranslate vcpu gfns) := by
  unfold kvmDevIoctlTranslate
  rw [toInt_of_lt h]
  refine within_vcpuLoad.bind fun o _ => ?_
  cases o with
  | none => exact safe_pure _
  | some v => exact (within_forEach fun gfn _ => safe_searchMemslots gfn).bind fun _ _ => safe_pure _

theorem safe_createVcpu (n : BitVec 32) (setup : Option Int) : Safe (kvmDevIoctlCreateVcpu n setup) := by
  unfold kvmDevIoctlCreateVcpu
  split
  · exact safe_pure _
  · rename_i h
    have h0 : n.toInt = 0 := by
      unfold kvmMaxVcpus at h
      omega
    rw [h0]
    refine (safe_touch (.vcpu 0) ⟨by decide, by decide⟩).bind fun _ _ => within_get.bind fun kvm _ => ?_
    split
    · exact safe_pure _
    · cases setup with
      | none => exact safe_pure _
      | some r =>
        refine (safe_touch (.memslot 0) (show 0 < kvmMemorySlots by decide)).bind fun _ _ => ?_
        refine (within_forEach fun gfn _ => safe_searchMemslots gfn).bind fun _ _ => ?_
        split
        · exact safe_pure _
        · exact (within_modify fun kvm hkvm => hkvm.setVcpu hkvm.irqs).bind fun _ _ => safe_pure _

theorem mem_overlapsSearched {mem : KvmMemoryRegion} {slot : Nat} {memslots : Nat → KvmMemorySlot} {l : List Nat} {i : Nat}
    (h : i ∈ (overlapsSearched mem slot memslots l).1) : i ∈ l := by
  induction l with
  | nil => cases h
  | cons j l ih =>
    unfold overlapsSearched at h
    split at h
    · exact List.mem_cons.2 (Or.inl (List.mem_singleton.1 h))
    · rcases List.mem_cons.1 h with rfl | h
      · exact List.mem_cons_self
      · exact List.mem_cons_of_mem _ (ih h)

theorem safe_setMemoryRegionPasses (mem : KvmMemoryRegion) {slot : Nat} (hslot : slot < kvmMemorySlots)
    (passes : List MemPass) : Safe (setMemoryRegionPasses mem slot passes) := by
  induction passes with
  | nil => exact safe_pure _
  | cons pass rest ih =>
    unfold setMemoryRegionPasses
    refine (safe_touch (.memslot slot) hslot).bind fun _ _ => within_get.bind fun kvm _ => ?_
    dsimp only
    split
    · exact safe_pure _
    · refine (within_forEach fun i hi => within_touch ?_).bind fun _ _ => ?_
      · exact List.mem_range.1 (mem_overlapsSearched hi)
      · split
        · exact safe_pure _
        · cases pass with
          | failed r => exact safe_pure _
          | raced => exact ih
          | committed new =>
            refine (safe_touch (.memslot slot) hslot).bind fun _ _ => (within_modify fun kvm hkvm => ?_).bind fun _ _ =>
              safe_loadAllVcpus.andThen fun _ => safe_pure _
            refine ⟨?_, hkvm.irqs⟩
            show (if kvm.nmemslots ≤ slot then slot + 1 else kvm.nmemslots) ≤ kvmMemorySlots
            split
            · exact hslot
            · exact hkvm.nmemslots

theorem safe_setMemoryRegion (mem : KvmMemoryRegion) (passes : List MemPass) :
    Safe (kvmDevIoctlSetMemoryRegion mem passes) := by
  unfold kvmDevIoctlSetMemoryRegion
  cases mem.sanityChecks with
  | none => exact safe_pure _
  | some slot => exact safe_setMemoryRegionPasses mem slot.isLt passes

theorem safe_getDirtyLog (slot : BitVec 32) (any copied : Bool) : Safe (kvmDevIoctlGetDirtyLog slot any copied) := by
  unfold kvmDevIoctlGetDirtyLog
  split
  · exact safe_pure _
  · rename_i h
    refine (safe_touch (.memslot _) (Nat.lt_of_not_le h)).bind fun _ _ => within_get.bind fun kvm _ => ?_
    split
    · exact safe_pure _
    · split
      · exact safe_pure _
      · split
        · exact safe_loadAllVcpus.andThen fun _ => safe_pure _
        · exact safe_pure _

theorem safe_fetched (copyIn : Bool) {call : Ioctl Int} (h : Safe call) : Safe (fetched copyIn call) := by
  unfold fetched
  split
  · exact h
  · exact safe_pure _

theorem safe_stored (copyOut : Bool) (failed : Int → Bool) {call : Ioctl Int} (h : Safe call) :
    Safe (stored copyOut failed call) :=
  h.andThen fun _ => safe_pure _

/-- A call of KVM_TRANSLATE that is not rejected, with a number that is out of range. -/
def TranslateOutOfRange (copyIn : Bool) (request : Request) : Prop :=
  copyIn = true ∧ ∃ vcpu gfns, request = .translate vcpu gfns ∧ kvmMaxVcpus ≤ vcpu.toNat

theorem safe_kvmDevIoctl (copyIn copyOut : Bool) {request : Request} (h : ¬TranslateOutOfRange copyIn request) :
    Safe (kvmDevIoctl copyIn copyOut request) := by
  cases request with
  | createVcpu n setup => exact safe_createVcpu n setup
  | run vcpu events result =>
    refine safe_fetched _ (safe_stored _ _ (safe_withVcpu vcpu ?_))
    exact (within_forEach fun e _ => safe_runEvent e).bind fun _ _ => safe_pure _
  | getRegs vcpu => exact safe_fetched _ (safe_stored _ _ (safe_withVcpu vcpu (safe_pure _)))
  | setRegs vcpu => exact safe_fetched _ (safe_withVcpu vcpu (safe_pure _))
  | getSregs vcpu => exact safe_fetched _ (safe_stored _ _ (safe_withVcpu vcpu (safe_pure _)))
  | setSregs vcpu => exact safe_fetched _ (safe_withVcpu vcpu (safe_pure _))
  | translate vcpu gfns =>
    cases copyIn with
    | false => exact safe_pure _
    | true =>
      refine safe_stored _ _ (safe_translate ?_ gfns)
      by_contra hno
      exact h ⟨rfl, vcpu, gfns, rfl, Nat.le_of_not_lt hno⟩
  | interrupt vcpu irq => exact safe_fetched _ (safe_interrupt vcpu irq)
  | debugGuest vcpu => exact safe_fetched _ (safe_withVcpu vcpu (safe_pure _))
  | setMemoryRegion mem passes => exact safe_fetched _ (safe_setMemoryRegion mem passes)
  | getDirtyLog slot any copied => exact safe_fetched _ (safe_getDirtyLog slot any copied)
  | other => exact safe_pure _

/-! ### Numbers that are out of range -/

/-- The call fails and uses no array. -/
def Rejects (m : Ioctl Int) : Prop := ∀ kvm, (m.run kvm).value < 0 ∧ (m.run kvm).log = []

theorem rejects_pure {r : Int} (h : r < 0) : Rejects (pure r) := fun _ => ⟨h, rfl⟩

theorem rejects_withVcpu {vcpu : BitVec 32} {body : Int → Ioctl Int} (h : ¬vcpu.toNat < kvmMaxVcpus) :
    Rejects (withVcpu vcpu body) := by
  unfold withVcpu
  rw [if_pos (Nat.le_of_not_lt h)]
  exact rejects_pure (by decide)

theorem rejects_fetched (copyIn : Bool) {call : Ioctl Int} (h : Rejects call) : Rejects (fetched copyIn call) := by
  unfold fetched
  split
  · exact h
  · exact rejects_pure (by decide)

theorem rejects_stored (copyOut : Bool) {failed : Int → Bool} (hfailed : ∀ r < 0, failed r = true) {call : Ioctl Int}
    (h : Rejects call) : Rejects (stored copyOut failed call) := by
  intro kvm
  obtain ⟨hr, hlog⟩ := h kvm
  unfold stored
  rw [Traced.bind_run]
  dsimp only [Traced.pure_run]
  rw [if_pos (hfailed _ hr), hlog]
  exact ⟨hr, rfl⟩

theorem rejects_kvmDevIoctl (copyIn copyOut : Bool) {request : Request} (hrange : ¬request.InRange)
    (h : ¬TranslateOutOfRange copyIn request) : Rejects (kvmDevIoctl copyIn copyOut request) := by
  have hneg : ∀ r : Int, r < 0 → decide (r < 0) = true := fun r hr => decide_eq_true hr
  have hne : ∀ r : Int, r < 0 → decide (r ≠ 0) = true := fun r hr => decide_eq_true (Int.ne_of_lt hr)
  cases request with
  | createVcpu n setup =>
    have hrange : ¬(0 ≤ n.toInt ∧ n.toInt < kvmMaxVcpus) := hrange
    show Rejects (kvmDevIoctlCreateVcpu n setup)
    unfold kvmDevIoctlCreateVcpu
    rw [if_pos (by omega)]
    exact rejects_pure (by decide)
  | run vcpu events result => exact rejects_fetched _ (rejects_stored _ hneg (rejects_withVcpu hrange))
  | getRegs vcpu => exact rejects_fetched _ (rejects_stored _ hne (rejects_withVcpu hrange))
  | setRegs vcpu => exact rejects_fetched _ (rejects_withVcpu hrange)
  | getSregs vcpu => exact rejects_fetched _ (rejects_stored _ hne (rejects_withVcpu hrange))
  | setSregs vcpu => exact rejects_fetched _ (rejects_withVcpu hrange)
  | translate vcpu gfns =>
    cases copyIn with
    | false => exact rejects_pure (by decide)
    | true => exact absurd ⟨rfl, vcpu, gfns, rfl, Nat.le_of_not_lt hrange⟩ h
  | interrupt vcpu irq =>
    refine rejects_fetched _ ?_
    unfold kvmDevIoctlInterrupt
    rw [if_pos (Nat.le_of_not_lt hrange)]
    exact rejects_pure (by decide)
  | debugGuest vcpu => exact rejects_fetched _ (rejects_withVcpu hrange)
  | setMemoryRegion mem passes =>
    have hnone : mem.sanityChecks = none := by
      unfold KvmMemoryRegion.sanityChecks
      rw [dif_pos (Nat.le_of_not_lt hrange)]
      split
      · rfl
      · split <;> rfl
    refine rejects_fetched _ ?_
    unfold kvmDevIoctlSetMemoryRegion
    rw [hnone]
    exact rejects_pure (by decide)
  | getDirtyLog slot any copied =>
    refine rejects_fetched _ ?_
    unfold kvmDevIoctlGetDirtyLog
    rw [if_pos (Nat.le_of_not_lt hrange)]
    exact rejects_pure (by decide)
  | other => exact absurd trivial hrange

/-- KVM_TRANSLATE uses an element behind, or before, the array. -/
theorem translate_outOfBounds (vcpu : BitVec 32) (h : kvmMaxVcpus ≤ vcpu.toNat) (copyOut : Bool) (gfns : List Nat)
    (kvm : KvmArrays) :
    .vcpu vcpu.toInt ∈ ((kvmDevIoctl true copyOut (.translate vcpu gfns)).run kvm).log ∧ ¬(Access.vcpu vcpu.toInt).InBounds := by
  refine ⟨List.mem_append_left _ (List.mem_append_left _ List.mem_cons_self), ?_⟩
  show ¬(0 ≤ vcpu.toInt ∧ vcpu.toInt < kvmMaxVcpus)
  unfold kvmMaxVcpus at h ⊢
  rw [BitVec.toInt_eq_toNat_cond]
  have := vcpu.isLt
  split <;> omega

/-! ### Runs -/

theorem ArraysInv.run {kvm0 kvm : KvmArrays} (hi : ArraysInv kvm0) (h : IoctlRun kvm0 kvm) : ArraysInv kvm := by
  induction h with
  | refl => exact hi
  | tail _ hstep ih =>
    obtain ⟨copyIn, copyOut, request, hlog, rfl⟩ := hstep
    have hno : ¬TranslateOutOfRange copyIn request := by
      rintro ⟨rfl, vcpu, gfns, rfl, hvcpu⟩
      obtain ⟨hmem, hout⟩ := translate_outOfBounds vcpu hvcpu copyOut gfns _
      exact hout (hlog _ hmem)
    exact (safe_kvmDevIoctl copyIn copyOut hno _ ih).2.1

/-- **The indices of the ioctls**: after any calls that have stayed within the arrays, the next call does so, and rejects a
number that is out of range before it uses an array, unless it is KVM_TRANSLATE with such a number. -/
theorem ioctl_inBounds {kvm0 kvm : KvmArrays} (hopen : kvm0.Opened) (h : IoctlRun kvm0 kvm) (copyIn copyOut : Bool)
    (request : Request) :
    IndicesChecked copyIn copyOut request kvm ↔ ¬TranslateOutOfRange copyIn request := by
  have hi := (arraysInv_opened hopen).run h
  constructor
  · rintro ⟨hbounds, -⟩ ⟨rfl, vcpu, gfns, rfl, hvcpu⟩
    obtain ⟨hmem, hout⟩ := translate_outOfBounds vcpu hvcpu copyOut gfns kvm
    exact hout (hbounds _ hmem)
  · intro hno
    exact ⟨(safe_kvmDevIoctl copyIn copyOut hno kvm hi).1, fun hrange => rejects_kvmDevIoctl copyIn copyOut hrange hno kvm⟩

/-- A machine as `kvm_dev_open` leaves it. -/
def zeroArrays : KvmArrays where
  nmemslots := 0
  memslots := fun _ => { baseGfn := 0, npages := 0, flags := 0, physMem := 0, dirtyBitmap := 0 }
  vcpus := fun _ => { created := false, irqSummary := 0, irqPending := fun _ => 0 }

/-- The last interrupt vector, and a vcpu number that does not exist. -/
theorem ioctl_inBounds_interrupt : IndicesChecked true true (.interrupt 0 255) zeroArrays ∧
    IndicesChecked true true (.interrupt 5 255) zeroArrays := by
  have hopen : zeroArrays.Opened := ⟨rfl, rfl, rfl⟩
  have hno : ∀ vcpu irq, ¬TranslateOutOfRange true (.interrupt vcpu irq) := by
    rintro vcpu irq ⟨-, _, _, h, -⟩
    cases h
  exact ⟨(ioctl_inBounds hopen .refl true true _).2 (hno _ _), (ioctl_inBounds hopen .refl true true _).2 (hno _ _)⟩

/-- KVM_TRANSLATE takes the vcpu 1 for one of the machine. -/
theorem translate_unchecked : ¬∀ kvm0 kvm copyIn copyOut request, kvm0.Opened → IoctlRun kvm0 kvm →
    IndicesChecked copyIn copyOut request kvm := by
  intro hall
  have hchecked := hall zeroArrays zeroArrays true true (.translate 1 []) ⟨rfl, rfl, rfl⟩ .refl
  obtain ⟨hmem, hout⟩ := translate_outOfBounds 1 (by decide) true [] zeroArrays
  exact hout (hchecked.bounds _ hmem)

end LearnKvm.Arrays
