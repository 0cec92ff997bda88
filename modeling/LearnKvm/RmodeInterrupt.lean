import LearnKvm.IrqDelivery
import LearnKvm.GuestCopy
import LearnKvm.Lib.Overwrite

/-!
# Interrupts in real mode (`inject_rmode_irq`)

The three words of an interrupt frame are pushed one after the other, each only if the one before it could be written, and
the stack pointer is checked with a comparison that is never true.  So an interrupt is neither delivered nor left alone when
a later word has no memory below it, and with a stack pointer below 6 the frame lies under the stack segment instead of at
its top (`injectRmodeIrq_iff`).

What the function does to memory does not depend on the contents of memory, so the three writes together overwrite a fixed
set of bytes (`overwrites_pushWords`).
-/

namespace LearnKvm

variable {s : KvmVcpu} {irq : Nat}

/-- The stack pointer. -/
def rmodeSp (v : Vmcs) : BitVec 16 := (vmcsReadl v .guestRsp).setWidth 16

/-- The address `k` bytes below the stack pointer, as the code computes it. -/
def stackByte (v : Vmcs) (k : Nat) : BitVec 64 :=
  vmcsReadl v .guestSsBase + (rmodeSp v).setWidth 64 - BitVec.ofNat 64 k

/-- The fields that the delivery changes. -/
def rmodeIntFields : List VmcsField := [.guestRflags, .guestCsSelector, .guestCsBase, .guestRip, .guestRsp]

/-- The interrupt is delivered as by INT of real mode, or nothing happens; all that is written is in the stack segment. -/
structure IntOrNothing (s : KvmVcpu) (irq : Nat) : Prop where
  outcome : RmodeDelivers s irq (injectRmodeIrq s irq) ∧
      (∀ f ∉ rmodeIntFields, (injectRmodeIrq s irq).vmcs f = s.vmcs f) ∨
    (injectRmodeIrq s irq).mem = s.mem ∧ (injectRmodeIrq s irq).vmcs = s.vmcs
  stack : ∀ x, (injectRmodeIrq s irq).mem x ≠ s.mem x →
    ∃ off : BitVec 16, x = gvaToHpa s.toVcpu (vmcsReadl s.vmcs .guestSsBase + off.setWidth 64)

/-- No two frames of the guest are backed by one page. -/
def FramesDistinct (kvm : Kvm) : Prop :=
  ∀ a b f, gpaFrame kvm a = some f → gpaFrame kvm b = some f → gfnOf a = gfnOf b

/-! ### Copies without paging -/

theorem tablesApart_nonpaging {s : Vcpu} (hops : s.mmu.ops = .nonpaging) (addr : BitVec 64) (n : Nat) :
    TablesApart s addr n := fun _ _ _ _ _ _ _ hx => absurd hops hx.1

theorem gvaToHpa_nonpaging {s : Vcpu} (hops : s.mmu.ops = .nonpaging) (mem : ByteMem.Mem 64) (a : BitVec 64) :
    gvaToHpa { s with mem := mem } a = gvaToHpa s a := gvaToHpa_setMem fun _ hx => absurd hops hx.1

theorem kvmWriteGuest_nonpaging {s : Vcpu} (hops : s.mmu.ops = .nonpaging) (hlast : LastPageUnbacked s.kvm)
    (mem : ByteMem.Mem 64) (addr : BitVec 64) (data : List (BitVec 8)) : kvmWriteGuest { s with mem := mem } addr data =
      ({ s with mem := (writeBytes s mem addr data).1 }, (writeBytes s mem addr data).2) :=
  kvmWriteGuest_eq hlast (fun _ _ _ _ hx => absurd hops hx.1) (tablesApart_nonpaging hops addr _)

/-- Different addresses have different bytes. -/
theorem gvaToHpa_injective {s : Vcpu} (hops : s.mmu.ops = .nonpaging) (hdistinct : FramesDistinct s.kvm) {a b : BitVec 64}
    (ha : GvaMapped s a) (h : gvaToHpa s a = gvaToHpa s b) : a = b := by
  have hb : GvaMapped s b := by
    unfold GvaMapped
    rw [← h]
    exact ha
  obtain ⟨f, hf⟩ := gvaMapped_iff.1 ha
  obtain ⟨f', hf'⟩ := gvaMapped_iff.1 hb
  have hgpa : ∀ {x f}, gvaFrame s x = some f → gpaFrame s.kvm x = some f := fun {x f} hx => by
    unfold gvaFrame mmuGvaToGpa at hx
    rw [hops] at hx
    dsimp only at hx
    split at hx
    · cases hx
    · exact hx
  have hff : f = f' := by rw [← pfnOf_gvaToHpa hf, ← pfnOf_gvaToHpa hf', h]
  subst hff
  have hgfn := hdistinct a b f (hgpa hf) (hgpa hf')
  rw [gvaToHpa_of_some hf, gvaToHpa_of_some hf', hpaOf_or_offset, hpaOf_or_offset] at h
  have hoff := congrArg BitVec.toNat ((BitVec.add_right_inj _).1 h)
  rw [toNat_and_pageOffset, toNat_and_pageOffset] at hoff
  rw [gfnOf_eq, gfnOf_eq] at hgfn
  apply BitVec.eq_of_toNat_eq
  omega

/-- The bytes of the host that a copy writes. -/
def copyTargets (s : Vcpu) (addr : BitVec 64) (n : Nat) : Set (BitVec 64) :=
  { x | ∃ i < (readBytes s addr n).length, x = gvaToHpa s (addr + BitVec.ofNat 64 i) }

theorem copyTargets_of_nil {s : Vcpu} {addr : BitVec 64} {n : Nat} (h : readBytes s addr n = []) :
    copyTargets s addr n = ∅ := by
  unfold copyTargets
  rw [h]
  refine Set.eq_empty_of_forall_notMem ?_
  rintro x ⟨i, hi, -⟩
  exact absurd hi (Nat.not_lt_zero i)

theorem overwrites_writeBytes (s : Vcpu) (addr : BitVec 64) (data : List (BitVec 8)) :
    Overwrites (fun mem => (writeBytes s mem addr data).1) (copyTargets s addr data.length) := by
  induction data generalizing addr with
  | nil =>
    rw [List.length_nil, copyTargets_of_nil rfl]
    exact .refl
  | cons b data ih =>
    unfold writeBytes
    by_cases hmapped : GvaMapped s addr
    · have htargets : copyTargets s addr (data.length + 1) =
          insert (gvaToHpa s addr) (copyTargets s (addr + 1) data.length) := by
        unfold copyTargets
        rw [readBytes, if_pos hmapped]
        ext x
        simp only [List.length_cons, Set.mem_ofPred_eq, Set.mem_insert_iff]
        constructor
        · rintro ⟨i, hi, rfl⟩
          cases i with
          | zero => exact Or.inl (by rw [add_zero_addr])
          | succ i => exact Or.inr ⟨i, by omega, by rw [add_succ_addr]⟩
        · rintro (rfl | ⟨i, hi, rfl⟩)
          · exact ⟨0, Nat.succ_pos _, by rw [add_zero_addr]⟩
          · exact ⟨i + 1, by omega, by rw [add_succ_addr]⟩
      simp only [if_pos hmapped, List.length_cons, htargets]
      exact (ih (addr + 1)).update _ b
    · have hnone : copyTargets s addr (data.length + 1) = ∅ := copyTargets_of_nil (by rw [readBytes, if_neg hmapped])
      simp only [if_neg hmapped, List.length_cons, hnone]
      exact .refl

/-! ### The three pushes -/

/-- The frame of an interrupt is pushed word by word, up to the first word that cannot be written. -/
def pushWords (s : Vcpu) (v : Vmcs) (mem : ByteMem.Mem 64) : ByteMem.Mem 64 × Bool :=
  let w1 := writeBytes s mem (stackByte v 2) (bytesOf 2 (vmcsReadl v .guestRflags))
  if w1.2 != 2 then (w1.1, false)
  else
    let w2 := writeBytes s w1.1 (stackByte v 4) (bytesOf 2 (rmodeCs v))
    if w2.2 != 2 then (w2.1, false)
    else
      let w3 := writeBytes s w2.1 (stackByte v 6) (bytesOf 2 (vmcsReadl v .guestRip))
      (w3.1, w3.2 == 2)

theorem injectRmodeIrq_unread (hirq : irq < 256) (h : ¬GvaMapped s.toVcpu (BitVec.ofNat 64 (irq * 4))) :
    injectRmodeIrq s irq = s := by
  have hread : kvmReadGuest s.toVcpu (BitVec.ofNat 64 (irq * 4)) 4 = [] := by
    rw [kvmReadGuest_inPage (by decide) (restOfPage_vector hirq)]
    unfold GvaMapped at h
    simp [h]
  unfold injectRmodeIrq
  dsimp only
  rw [hread]
  split <;> rfl

/-- What is left of the vcpu after the pushes. -/
theorem injectRmodeIrq_pushes (hops : s.mmu.ops = .nonpaging) (hlast : LastPageUnbacked s.kvm) (hirq : irq < 256)
    (hlimit : vmcsRead32 s.vmcs .guestSsLimit = 0xffff) (h : GvaMapped s.toVcpu (BitVec.ofNat 64 (irq * 4))) :
    (injectRmodeIrq s irq).mem = (pushWords s.toVcpu s.vmcs s.mem).1 ∧
      ((pushWords s.toVcpu s.vmcs s.mem).2 = false → (injectRmodeIrq s irq).vmcs = s.vmcs) ∧
      ((pushWords s.toVcpu s.vmcs s.mem).2 = true →
        ∃ ent0 ent1, (injectRmodeIrq s irq).vmcs = loadRmodeVector s.vmcs ent0 ent1 (rmodeSp s.vmcs)) := by
  have hwrite := kvmWriteGuest_nonpaging (s := s.toVcpu) hops hlast
  have hsp : ¬vmcsRead32 s.vmcs .guestSsLimit < (rmodeSp s.vmcs).setWidth 32 := by
    have := (rmodeSp s.vmcs).isLt
    rw [hlimit, BitVec.lt_def, BitVec.toNat_setWidth, Nat.mod_eq_of_lt (by omega)]
    have hval : (0xffff : BitVec 32).toNat = 65535 := by decide
    omega
  obtain ⟨e0, e1, e2, e3, hread⟩ := (read_vector_iff hirq).2 h
  unfold rmodeSp at hsp
  unfold injectRmodeIrq
  dsimp only
  rw [if_neg hsp, hread]
  have h1 := hwrite s.mem (stackByte s.vmcs 2) (bytesOf 2 (vmcsReadl s.vmcs .guestRflags))
  unfold pushWords rmodeSp
  dsimp only
  change kvmWriteGuest s.toVcpu _ _ = _ at h1
  generalize writeBytes s.toVcpu s.mem (stackByte s.vmcs 2) (bytesOf 2 (vmcsReadl s.vmcs .guestRflags)) = w1 at *
  have h2 := hwrite w1.1 (stackByte s.vmcs 4) (bytesOf 2 (rmodeCs s.vmcs))
  generalize writeBytes s.toVcpu w1.1 (stackByte s.vmcs 4) (bytesOf 2 (rmodeCs s.vmcs)) = w2 at *
  have h3 := hwrite w2.1 (stackByte s.vmcs 6) (bytesOf 2 (vmcsReadl s.vmcs .guestRip))
  generalize writeBytes s.toVcpu w2.1 (stackByte s.vmcs 6) (bytesOf 2 (vmcsReadl s.vmcs .guestRip)) = w3 at *
  rw [← bytesOf_two] at h3
  have ha1 : stackByte s.vmcs 2 = vmcsReadl s.vmcs .guestSsBase +
      ((vmcsReadl s.vmcs .guestRsp).setWidth 16).setWidth 64 - 2 := rfl
  have ha2 : stackByte s.vmcs 4 = vmcsReadl s.vmcs .guestSsBase +
      ((vmcsReadl s.vmcs .guestRsp).setWidth 16).setWidth 64 - 4 := rfl
  have ha3 : stackByte s.vmcs 6 = vmcsReadl s.vmcs .guestSsBase +
      ((vmcsReadl s.vmcs .guestRsp).setWidth 16).setWidth 64 - 6 := rfl
  rw [ha1] at h1
  rw [ha2] at h2
  rw [ha3] at h3
  unfold rmodeCs at h2
  rw [h1]
  dsimp only
  by_cases hw1 : (w1.2 != 2) = true
  · rw [if_pos hw1, if_pos hw1]
    exact ⟨rfl, fun _ => rfl, fun hno => by cases hno⟩
  rw [if_neg hw1, if_neg hw1, h2]
  dsimp only
  by_cases hw2 : (w2.2 != 2) = true
  · rw [if_pos hw2, if_pos hw2]
    exact ⟨rfl, fun _ => rfl, fun hno => by cases hno⟩
  rw [if_neg hw2, if_neg hw2, h3]
  dsimp only
  by_cases hw3 : (w3.2 != 2) = true
  · have hw3' : (w3.2 == 2) = false := by simpa using hw3
    rw [if_pos hw3, hw3']
    exact ⟨rfl, fun _ => rfl, fun hno => by cases hno⟩
  · have hw3' : (w3.2 == 2) = true := by simpa using hw3
    rw [if_neg hw3, hw3']
    exact ⟨rfl, fun hno => (by cases hno), fun _ => ⟨e1 ++ e0, e3 ++ e2, rfl⟩⟩

/-! ### The bytes that are written -/

variable {s : Vcpu} {v : Vmcs}

/-- The word that starts `k` bytes below the stack pointer is mapped. -/
def StackWordMapped (s : Vcpu) (v : Vmcs) (k : Nat) : Prop := CopyReaches s (stackByte v k) 2

/-- The bytes of the host that the pushes write. -/
inductive PushTarget (s : Vcpu) (v : Vmcs) : BitVec 64 → Prop where
  | flags {x : BitVec 64} (h : x ∈ copyTargets s (stackByte v 2) 2) : PushTarget s v x
  | cs {x : BitVec 64} (h1 : StackWordMapped s v 2) (h : x ∈ copyTargets s (stackByte v 4) 2) : PushTarget s v x
  | ip {x : BitVec 64} (h1 : StackWordMapped s v 2) (h2 : StackWordMapped s v 4)
    (h : x ∈ copyTargets s (stackByte v 6) 2) : PushTarget s v x

theorem length_bytesOf (n : Nat) (x : BitVec 64) : (bytesOf n x).length = n := by
  unfold bytesOf
  rw [List.length_map, List.length_range]

theorem writeBytes_word (mem : ByteMem.Mem 64) (k : Nat) (x : BitVec 64) :
    ((writeBytes s mem (stackByte v k) (bytesOf 2 x)).2 != 2) = true ↔ ¬StackWordMapped s v k := by
  have hlast := @lt_length_readBytes s (stackByte v k) 2 1
  have hlen := @lt_length_readBytes s (stackByte v k) 2 2
  rw [writeBytes_count, length_bytesOf, bne_iff_ne, ne_eq, not_iff_not]
  unfold StackWordMapped
  constructor
  · intro h
    exact (hlast.1 (by omega)).2
  · intro h
    have := hlast.2 ⟨by decide, h⟩
    have : ¬2 < (readBytes s (stackByte v k) 2).length := fun hlt => absurd (hlen.1 hlt).1 (by decide)
    omega

theorem overwrites_pushWords (s : Vcpu) (v : Vmcs) :
    Overwrites (fun mem => (pushWords s v mem).1) { x | PushTarget s v x } := by
  have hword : ∀ k x, Overwrites (fun mem => (writeBytes s mem (stackByte v k) (bytesOf 2 x)).1)
      (copyTargets s (stackByte v k) 2) := fun k x => by
    have h := overwrites_writeBytes s (stackByte v k) (bytesOf 2 x)
    rwa [length_bytesOf] at h
  unfold pushWords
  by_cases h1 : StackWordMapped s v 2
  · have hn1 : ∀ mem x, ¬((writeBytes s mem (stackByte v 2) (bytesOf 2 x)).2 != 2) = true := fun mem x =>
      (writeBytes_word mem 2 x).not.2 (not_not.2 h1)
    simp only [if_neg (hn1 _ _)]
    by_cases h2 : StackWordMapped s v 4
    · have hn2 : ∀ mem x, ¬((writeBytes s mem (stackByte v 4) (bytesOf 2 x)).2 != 2) = true := fun mem x =>
        (writeBytes_word mem 4 x).not.2 (not_not.2 h2)
      simp only [if_neg (hn2 _ _)]
      have htargets : { x | PushTarget s v x } =
          copyTargets s (stackByte v 2) 2 ∪ copyTargets s (stackByte v 4) 2 ∪ copyTargets s (stackByte v 6) 2 := by
        ext x
        constructor
        · rintro (h | ⟨-, h⟩ | ⟨-, -, h⟩)
          · exact Or.inl (Or.inl h)
          · exact Or.inl (Or.inr h)
          · exact Or.inr h
        · rintro ((h | h) | h)
          · exact .flags h
          · exact .cs h1 h
          · exact .ip h1 h2 h
      rw [htargets]
      exact (hword 6 _).comp ((hword 4 _).comp (hword 2 _))
    · have hn2 : ∀ mem x, ((writeBytes s mem (stackByte v 4) (bytesOf 2 x)).2 != 2) = true := fun mem x =>
        (writeBytes_word mem 4 x).2 h2
      simp only [if_pos (hn2 _ _)]
      have htargets : { x | PushTarget s v x } = copyTargets s (stackByte v 2) 2 ∪ copyTargets s (stackByte v 4) 2 := by
        ext x
        constructor
        · rintro (h | ⟨-, h⟩ | ⟨-, h, -⟩)
          · exact Or.inl h
          · exact Or.inr h
          · exact absurd h h2
        · rintro (h | h)
          · exact .flags h
          · exact .cs h1 h
      rw [htargets]
      exact (hword 4 _).comp (hword 2 _)
  · have hn1 : ∀ mem x, ((writeBytes s mem (stackByte v 2) (bytesOf 2 x)).2 != 2) = true := fun mem x =>
      (writeBytes_word mem 2 x).2 h1
    simp only [if_pos (hn1 _ _)]
    have htargets : { x | PushTarget s v x } = copyTargets s (stackByte v 2) 2 := by
      ext x
      constructor
      · rintro (h | ⟨h, -⟩ | ⟨h, -, -⟩)
        · exact h
        · exact absurd h h1
        · exact absurd h h1
      · exact .flags
    rw [htargets]
    exact hword 2 _

theorem pushWords_all (s : Vcpu) (v : Vmcs) (mem : ByteMem.Mem 64) : (pushWords s v mem).2 = true ↔
    StackWordMapped s v 2 ∧ StackWordMapped s v 4 ∧ StackWordMapped s v 6 := by
  unfold pushWords
  dsimp only
  split
  · rename_i h
    exact iff_of_false Bool.false_ne_true fun hall => (writeBytes_word ..).1 h hall.1
  · rename_i h1
    split
    · rename_i h
      exact iff_of_false Bool.false_ne_true fun hall => (writeBytes_word ..).1 h hall.2.1
    · rename_i h2
      have hw1 := not_not.1 ((writeBytes_word ..).not.1 h1)
      have hw2 := not_not.1 ((writeBytes_word ..).not.1 h2)
      rw [and_iff_right hw1, and_iff_right hw2, ← not_iff_not]
      generalize (writeBytes s _ (stackByte v 4) (bytesOf 2 (rmodeCs v))).1 = m
      rw [← writeBytes_word m 6 (vmcsReadl v .guestRip)]
      simp

theorem stackByte_add_one (v : Vmcs) (k : Nat) : stackByte v (k + 1) + BitVec.ofNat 64 1 = stackByte v k := by
  have hk : BitVec.ofNat 64 (k + 1) = BitVec.ofNat 64 k + BitVec.ofNat 64 1 := BitVec.ofNat_add ..
  unfold stackByte
  rw [hk]
  generalize BitVec.ofNat 64 k = x
  generalize vmcsReadl v .guestSsBase + (rmodeSp v).setWidth 64 = y
  rw [BitVec.sub_eq_add_neg, BitVec.neg_add, BitVec.add_assoc, BitVec.sub_eq_add_neg, BitVec.sub_eq_add_neg,
    BitVec.add_assoc, BitVec.add_left_neg, BitVec.add_zero, ← BitVec.sub_eq_add_neg]

theorem stackWordMapped_iff (k : Nat) : StackWordMapped s v (k + 1) ↔
    GvaMapped s (stackByte v (k + 1)) ∧ GvaMapped s (stackByte v k) := by
  have hsucc := stackByte_add_one v k
  unfold StackWordMapped CopyReaches
  constructor
  · intro h
    have h0 := h 0 (by decide)
    have h1 := h 1 (by decide)
    rw [add_zero_addr] at h0
    rw [hsucc] at h1
    exact ⟨h0, h1⟩
  · rintro ⟨h0, h1⟩ j hj
    obtain rfl | rfl : j = 0 ∨ j = 1 := by omega
    · rwa [add_zero_addr]
    · rwa [hsucc]

/-- The six bytes below the stack pointer, one by one. -/
theorem stackWords_iff : (StackWordMapped s v 2 ∧ StackWordMapped s v 4 ∧ StackWordMapped s v 6) ↔
    ∀ k, 1 ≤ k → k ≤ 6 → GvaMapped s (stackByte v k) := by
  rw [stackWordMapped_iff, stackWordMapped_iff, stackWordMapped_iff]
  constructor
  · rintro ⟨⟨h2, h1⟩, ⟨h4, h3⟩, h6, h5⟩ k hk hk'
    interval_cases k
    · exact h1
    · exact h2
    · exact h3
    · exact h4
    · exact h5
    · exact h6
  · intro h
    exact ⟨⟨h 2 (by decide) (by decide), h 1 (by decide) (by decide)⟩,
      ⟨h 4 (by decide) (by decide), h 3 (by decide) (by decide)⟩, h 6 (by decide) (by decide), h 5 (by decide) (by decide)⟩

/-- A byte that is written is one of the six below the stack pointer. -/
theorem PushTarget.stackByte {x : BitVec 64} (h : PushTarget s v x) :
    ∃ k, 1 ≤ k ∧ k ≤ 6 ∧ x = gvaToHpa s (stackByte v k) := by
  have hword : ∀ k, x ∈ copyTargets s (LearnKvm.stackByte v (k + 1)) 2 →
      x = gvaToHpa s (LearnKvm.stackByte v (k + 1)) ∨ x = gvaToHpa s (LearnKvm.stackByte v k) := by
    rintro k ⟨i, hi, rfl⟩
    have hi2 := (lt_length_readBytes.1 hi).1
    obtain rfl | rfl : i = 0 ∨ i = 1 := by omega
    · exact Or.inl (by rw [add_zero_addr])
    · exact Or.inr (by rw [stackByte_add_one])
  rcases h with h | ⟨-, h⟩ | ⟨-, -, h⟩
  · exact (hword 1 h).elim (fun h => ⟨2, by decide, by decide, h⟩) fun h => ⟨1, by decide, by decide, h⟩
  · exact (hword 3 h).elim (fun h => ⟨4, by decide, by decide, h⟩) fun h => ⟨3, by decide, by decide, h⟩
  · exact (hword 5 h).elim (fun h => ⟨6, by decide, by decide, h⟩) fun h => ⟨5, by decide, by decide, h⟩

theorem PushTarget.of_words (h : ∀ k, 1 ≤ k → k ≤ 6 → GvaMapped s (LearnKvm.stackByte v k)) {k : Nat} (hk : 1 ≤ k)
    (hk' : k ≤ 6) : PushTarget s v (gvaToHpa s (LearnKvm.stackByte v k)) := by
  obtain ⟨h2, h4, h6⟩ := stackWords_iff.2 h
  have hlast : ∀ k, StackWordMapped s v (k + 1) →
      gvaToHpa s (LearnKvm.stackByte v k) ∈ copyTargets s (LearnKvm.stackByte v (k + 1)) 2 := fun k hw =>
    ⟨1, lt_length_readBytes.2 ⟨by decide, hw⟩, by rw [stackByte_add_one]⟩
  have hfirst : ∀ k, StackWordMapped s v k → gvaToHpa s (LearnKvm.stackByte v k) ∈ copyTargets s (LearnKvm.stackByte v k) 2 :=
    fun k hw => ⟨0, lt_length_readBytes.2 ⟨by decide, fun j hj => hw j (by omega)⟩, by rw [add_zero_addr]⟩
  interval_cases k
  · exact .flags (hlast 1 h2)
  · exact .flags (hfirst 2 h2)
  · exact .cs h2 (hlast 3 h4)
  · exact .cs h2 (hfirst 4 h4)
  · exact .ip h2 h4 (hlast 5 h6)
  · exact .ip h2 h4 (hfirst 6 h6)

/-! ### The outcomes -/

variable {s : KvmVcpu}

/-- Nothing has been written when the first byte is not mapped. -/
theorem pushWords_first {s : Vcpu} {v : Vmcs} (h : ¬GvaMapped s (stackByte v 2)) (mem : ByteMem.Mem 64) :
    pushWords s v mem = (mem, false) := by
  have hbytes : ∀ x, bytesOf 2 x = [Bits.field 0 8 x, Bits.field 8 8 x] := fun _ => rfl
  unfold pushWords
  rw [hbytes, writeBytes, if_neg h]
  rfl

theorem intOrNothing_kept (hmem : (injectRmodeIrq s irq).mem = s.mem) (hvmcs : (injectRmodeIrq s irq).vmcs = s.vmcs) :
    IntOrNothing s irq := ⟨Or.inr ⟨hmem, hvmcs⟩, fun x hx => absurd (congrFun hmem x) hx⟩

theorem intOrNothing_first (hops : s.mmu.ops = .nonpaging) (hlast : LastPageUnbacked s.kvm) (hirq : irq < 256)
    (hlimit : vmcsRead32 s.vmcs .guestSsLimit = 0xffff) (hvec : GvaMapped s.toVcpu (BitVec.ofNat 64 (irq * 4)))
    (h : ¬GvaMapped s.toVcpu (stackByte s.vmcs 2)) : IntOrNothing s irq := by
  obtain ⟨hmem, hkept, -⟩ := injectRmodeIrq_pushes hops hlast hirq hlimit hvec
  rw [pushWords_first h] at hmem hkept
  exact intOrNothing_kept hmem (hkept rfl)

theorem loadRmodeVector_others (v : Vmcs) (ent0 ent1 sp : BitVec 16) {f : VmcsField} (hf : f ∉ rmodeIntFields) :
    loadRmodeVector v ent0 ent1 sp f = v f := by
  simp only [rmodeIntFields, List.mem_cons, List.not_mem_nil, or_false, not_or] at hf
  obtain ⟨h1, h2, h3, h4, h5⟩ := hf
  exact (vmcsReadl_vmcsWritel_of_ne h5).trans ((vmcsReadl_vmcsWritel_of_ne h4).trans ((vmcsReadl_vmcsWritel_of_ne h3).trans
    ((vmcsReadl_vmcsWritel_of_ne h2).trans (vmcsReadl_vmcsWritel_of_ne h1))))

/-- The offset in the stack segment of a byte below the stack pointer. -/
theorem stackByte_offset {v : Vmcs} (hsp : 6 ≤ (rmodeSp v).toNat) {k : Nat} (hk : k ≤ 6) :
    stackByte v k = vmcsReadl v .guestSsBase + (rmodeSp v - BitVec.ofNat 16 k).setWidth 64 := by
  unfold stackByte
  rw [stackPointer_sub hsp hk]
  simp only [BitVec.sub_eq_add_neg, BitVec.add_assoc]

theorem intOrNothing_delivered (hops : s.mmu.ops = .nonpaging) (hlast : LastPageUnbacked s.kvm) (hirq : irq < 256)
    (hlimit : vmcsRead32 s.vmcs .guestSsLimit = 0xffff) (hvec : GvaMapped s.toVcpu (BitVec.ofNat 64 (irq * 4)))
    (hsp : 6 ≤ (rmodeSp s.vmcs).toNat) (h : ∀ k, 1 ≤ k → k ≤ 6 → GvaMapped s.toVcpu (stackByte s.vmcs k)) :
    IntOrNothing s irq := by
  obtain ⟨hmem, -, hloaded⟩ := injectRmodeIrq_pushes hops hlast hirq hlimit hvec
  obtain ⟨ent0, ent1, hvmcs⟩ := hloaded ((pushWords_all ..).2 (stackWords_iff.2 h))
  have hword : ∀ n, stackByte s.vmcs (2 * n) = vmcsReadl s.vmcs .guestSsBase +
      ((vmcsReadl s.vmcs .guestRsp).setWidth 16).setWidth 64 - BitVec.ofNat 64 (2 * n) := fun _ => rfl
  have hready : RmodeReady s irq := by
    refine ⟨hsp, ?_, hvec, (stackMapped_nonpaging hops).2 fun n hn => ?_⟩
    · have hsp16 := ((vmcsReadl s.vmcs .guestRsp).setWidth 16).isLt
      rw [hlimit]
      exact Nat.le_of_lt_succ hsp16
    · have hn3 : 1 ≤ n ∧ n ≤ 3 := by
        simp only [List.mem_cons, List.not_mem_nil, or_false] at hn
        omega
      have hnext := stackByte_add_one s.vmcs (2 * n - 1)
      rw [show 2 * n - 1 + 1 = 2 * n by omega] at hnext
      rw [stackWord_eq hsp hn3.2, ← hword]
      refine ⟨h (2 * n) (by omega) (by omega), fun _ => ?_⟩
      have := h (2 * n - 1) (by omega) (by omega)
      rwa [← hnext] at this
  refine ⟨Or.inl ⟨(injectRmodeIrq_delivers_iff hsp hirq).2 hready, fun f hf => ?_⟩, fun x hx => ?_⟩
  · rw [hvmcs]
    exact loadRmodeVector_others _ _ _ _ hf
  · have htarget : PushTarget s.toVcpu s.vmcs x := by
      by_contra hno
      rw [hmem] at hx
      exact hx ((overwrites_pushWords s.toVcpu s.vmcs).outside s.mem x hno)
    obtain ⟨k, -, hk, rfl⟩ := htarget.stackByte
    exact ⟨rmodeSp s.vmcs - BitVec.ofNat 16 k, by rw [stackByte_offset hsp hk]⟩

/-- The byte under the stack segment. -/
theorem stackByte_under (v : Vmcs) :
    stackByte v ((rmodeSp v).toNat + 1) = vmcsReadl v .guestSsBase - 1 := by
  have hval : (rmodeSp v).setWidth 64 = BitVec.ofNat 64 (rmodeSp v).toNat := (BitVec.ofNat_toNat 64 (rmodeSp v)).symm
  unfold stackByte
  rw [hval, BitVec.ofNat_add]
  generalize BitVec.ofNat 64 (rmodeSp v).toNat = x
  have h1 : BitVec.ofNat 64 1 = 1 := rfl
  rw [h1, BitVec.sub_eq_add_neg, BitVec.neg_add, BitVec.add_assoc, BitVec.sub_eq_add_neg (-x), ← BitVec.add_assoc x,
    BitVec.add_right_neg, BitVec.zero_add, ← BitVec.sub_eq_add_neg]

theorem under_not_in_segment (base : BitVec 64) (off : BitVec 16) : base - 1 ≠ base + off.setWidth 64 := by
  intro h
  rw [BitVec.sub_eq_add_neg] at h
  have heq := congrArg BitVec.toNat ((BitVec.add_right_inj _).1 h)
  have hoff := off.isLt
  have hneg : (-1 : BitVec 64).toNat = 2 ^ 64 - 1 := by decide
  rw [hneg, BitVec.toNat_setWidth] at heq
  omega

/-- The vector of the interrupt cannot be read, or its frame not be written from the first byte on, or all of the frame lies in
the stack segment and can be written. -/
def RmodeFrame (s : KvmVcpu) (irq : Nat) : Prop :=
  ¬GvaMapped s.toVcpu (BitVec.ofNat 64 (irq * 4)) ∨ ¬GvaMapped s.toVcpu (stackByte s.vmcs 2) ∨
    6 ≤ (rmodeSp s.vmcs).toNat ∧ ∀ k, 1 ≤ k → k ≤ 6 → GvaMapped s.toVcpu (stackByte s.vmcs k)

theorem RmodeFrame.intOrNothing (h : RmodeFrame s irq) (hops : s.mmu.ops = .nonpaging) (hlast : LastPageUnbacked s.kvm)
    (hlimit : vmcsRead32 s.vmcs .guestSsLimit = 0xffff) (hirq : irq < 256) : IntOrNothing s irq := by
  by_cases hvec : GvaMapped s.toVcpu (BitVec.ofNat 64 (irq * 4))
  · rcases h with h | h | ⟨hsp, h⟩
    · exact absurd hvec h
    · exact intOrNothing_first hops hlast hirq hlimit hvec h
    · exact intOrNothing_delivered hops hlast hirq hlimit hvec hsp h
  · have heq := injectRmodeIrq_unread hirq hvec
    exact intOrNothing_kept (by rw [heq]) (by rw [heq])

theorem gvaMapped_nonpaging (hops : s.mmu.ops = .nonpaging) (mem : ByteMem.Mem 64) (a : BitVec 64) :
    GvaMapped { s.toVcpu with mem := mem } a ↔ GvaMapped s.toVcpu a := by
  unfold GvaMapped
  rw [gvaToHpa_nonpaging (s := s.toVcpu) hops]

theorem pushWords_nonpaging (hops : s.mmu.ops = .nonpaging) (mem : ByteMem.Mem 64) :
    pushWords { s.toVcpu with mem := mem } s.vmcs = pushWords s.toVcpu s.vmcs := by
  have hwrite : ∀ m addr data, writeBytes { s.toVcpu with mem := mem } m addr data = writeBytes s.toVcpu m addr data :=
    writeBytes_congr (gvaToHpa_nonpaging (s := s.toVcpu) hops mem)
  funext m
  unfold pushWords
  simp only [hwrite]

/-- Some memory shows each byte that is written. -/
theorem rmodeFrame_of_all (hall : ∀ mem, IntOrNothing { s with mem := mem } irq) (hops : s.mmu.ops = .nonpaging)
    (hlast : LastPageUnbacked s.kvm) (hdistinct : FramesDistinct s.kvm)
    (hlimit : vmcsRead32 s.vmcs .guestSsLimit = 0xffff) (hirq : irq < 256) : RmodeFrame s irq := by
  by_contra hno
  simp only [RmodeFrame, not_or, not_not] at hno
  obtain ⟨hvec, hfirst, hno⟩ := hno
  have : Nontrivial (BitVec 8) := ⟨0, 1, by decide⟩
  obtain ⟨mem, hchanged⟩ := (overwrites_pushWords s.toVcpu s.vmcs).exists_changed
  obtain ⟨hmem, hkept, -⟩ := injectRmodeIrq_pushes (s := { s with mem := mem }) hops hlast hirq hlimit
    ((gvaMapped_nonpaging hops mem _).2 hvec)
  change (injectRmodeIrq { s with mem := mem } irq).mem = (pushWords { s.toVcpu with mem := mem } s.vmcs mem).1 at hmem
  change (pushWords { s.toVcpu with mem := mem } s.vmcs mem).2 = false → _ at hkept
  rw [pushWords_nonpaging hops] at hmem hkept
  have htarget : PushTarget s.toVcpu s.vmcs (gvaToHpa s.toVcpu (stackByte s.vmcs 2)) :=
    .flags ⟨0, lt_length_readBytes.2 ⟨by decide, fun j hj => by
      obtain rfl : j = 0 := by omega
      rwa [add_zero_addr]⟩, by rw [add_zero_addr]⟩
  -- the first byte has changed, so the interrupt must have been delivered
  have hdelivered : StackWordMapped s.toVcpu s.vmcs 2 ∧ StackWordMapped s.toVcpu s.vmcs 4 ∧
      StackWordMapped s.toVcpu s.vmcs 6 := by
    rw [← pushWords_all s.toVcpu s.vmcs mem, ← Bool.not_eq_false]
    intro hfalse
    rcases (hall mem).outcome with ⟨hd, -⟩ | ⟨hm, -⟩
    · exact hd.vmcs_ne (hkept hfalse)
    · rw [hmem] at hm
      exact hchanged _ htarget (congrFun hm _)
  have hwords := stackWords_iff.1 hdelivered
  have hsp : (rmodeSp s.vmcs).toNat < 6 := by
    by_contra hge
    exact hno ⟨by omega, hwords⟩
  -- and the byte under the segment has changed as well
  have hunder := PushTarget.of_words hwords (k := (rmodeSp s.vmcs).toNat + 1) (by omega) (by omega)
  have hmapped := hwords ((rmodeSp s.vmcs).toNat + 1) (by omega) (by omega)
  rw [stackByte_under] at hunder hmapped
  obtain ⟨off, hoff⟩ := (hall mem).stack _ (by rw [hmem]; exact hchanged _ hunder)
  have hoff' := hoff.trans (gvaToHpa_nonpaging (s := s.toVcpu) hops mem _)
  exact under_not_in_segment _ _ (gvaToHpa_injective hops hdistinct hmapped hoff')

/-- **An interrupt in real mode is delivered or left alone**, whatever the guest has in memory, exactly when its vector
cannot be read, the first byte of the frame cannot be written, or the stack pointer is at least 6 and all of the frame
can be written. -/
theorem injectRmodeIrq_iff (hops : s.mmu.ops = .nonpaging) (hlast : LastPageUnbacked s.kvm)
    (hdistinct : FramesDistinct s.kvm) (hlimit : vmcsRead32 s.vmcs .guestSsLimit = 0xffff) (hirq : irq < 256) :
    (∀ mem, IntOrNothing { s with mem := mem } irq) ↔ ¬GvaMapped s.toVcpu (BitVec.ofNat 64 (irq * 4)) ∨
      ¬GvaMapped s.toVcpu (stackByte s.vmcs 2) ∨
      6 ≤ (rmodeSp s.vmcs).toNat ∧ ∀ k, 1 ≤ k → k ≤ 6 → GvaMapped s.toVcpu (stackByte s.vmcs k) := by
  constructor
  · exact fun hall => rmodeFrame_of_all hall hops hlast hdistinct hlimit hirq
  · intro h mem
    have hframe : RmodeFrame { s with mem := mem } irq := by
      have hmapped := gvaMapped_nonpaging hops mem
      rcases h with h | h | ⟨hsp, h⟩
      · exact Or.inl ((hmapped _).not.2 h)
      · exact Or.inr (Or.inl ((hmapped _).not.2 h))
      · exact Or.inr (Or.inr ⟨hsp, fun k hk hk' => (hmapped _).2 (h k hk hk')⟩)
    exact hframe.intOrNothing hops hlast hlimit hirq

/-! ### A small machine -/

/-- A machine with 64K of memory. -/
def rmodeKvm : Kvm :=
  { (default : Kvm) with
    nmemslots := 1
    memslots := Function.update (default : Kvm).memslots 0
      { baseGfn := 0, npages := 16, flags := 0, physMem := 1, dirtyBitmap := 0 }
    pageArray := fun _ n => BitVec.ofNat 40 (n + 1) }

/-- Its vcpu in real mode. -/
def rmodeGuest (ssBase sp : BitVec 64) : KvmVcpu :=
  { (default : KvmVcpu) with
    kvm := rmodeKvm
    vmcs := fun f => if f = .guestSsLimit then 0xffff else if f = .guestRsp then sp else
      if f = .guestSsBase then ssBase else 0
    rmode := ⟨true, 0, 0, 0, 0⟩ }

theorem rmodeKvm_lastPage : LastPageUnbacked rmodeKvm := by
  unfold LastPageUnbacked
  decide

theorem rmodeKvm_distinct : FramesDistinct rmodeKvm := by
  have hframe : ∀ a f, gpaFrame rmodeKvm a = some f → gfnOf a < 16 ∧ f = BitVec.ofNat 40 (gfnOf a + 1) := by
    intro a f hf
    obtain ⟨i, hi, rfl⟩ := Option.map_eq_some_iff.1 hf
    have hin := List.find?_some hi
    simp only [Bool.and_eq_true, decide_eq_true_eq] at hin
    obtain rfl : i = 0 := Fin.ext (Nat.lt_one_iff.1 hin.1)
    have hc := hin.2
    unfold KvmMemorySlot.contains at hc
    simp only [Bool.and_eq_true, decide_eq_true_eq] at hc
    exact ⟨hc.2, rfl⟩
  intro a b f ha hb
  obtain ⟨ha1, ha2⟩ := hframe a f ha
  obtain ⟨hb1, hb2⟩ := hframe b f hb
  have heq := congrArg BitVec.toNat (ha2.symm.trans hb2)
  rw [BitVec.toNat_ofNat, BitVec.toNat_ofNat] at heq
  omega

theorem injectRmodeIrq_iff_timer : 6 ≤ (rmodeSp (rmodeGuest 0x1000 0x100).vmcs).toNat ∧
    ∀ mem, IntOrNothing { rmodeGuest 0x1000 0x100 with mem := mem } 8 := by
  have hsp : 6 ≤ (rmodeSp (rmodeGuest 0x1000 0x100).vmcs).toNat := by decide
  have hiff := @injectRmodeIrq_iff 8 (rmodeGuest 0x1000 0x100) rfl rmodeKvm_lastPage rmodeKvm_distinct rfl (by decide)
  exact ⟨hsp, hiff.2 (Or.inr (Or.inr ⟨hsp, by decide⟩))⟩

/-- With a stack pointer of 4, the return address lands under the stack segment. -/
theorem frame_under_segment : ¬∀ mem, IntOrNothing { rmodeGuest 0x1000 4 with mem := mem } 8 := by
  intro hall
  rcases rmodeFrame_of_all hall rfl rmodeKvm_lastPage rmodeKvm_distinct rfl (by decide) with h | h | ⟨h, -⟩
  · exact h (by decide)
  · exact h (by decide)
  · exact absurd h (by decide)

end LearnKvm
