import LearnKvm.Mmu.Bounds
import LearnKvm.Mmu.Leaf

/-!
# Guest-physical memory

The guest sees one memory with 64-bit physical addresses: behind an address of a slot lies a byte of the page that backs
its frame, and everywhere else it reads zero (`guestPhys`).  The module never sees this memory.  It maps one page of the
host at a time, the bad page for an address outside of the slots, and reads at an offset; as long as an access stays in
the page, it reads what the guest has there (`load_kmapAtomic`).
-/

namespace LearnKvm

variable {s : Vcpu} {base : BitVec 64} {off n : Nat}

/-- The memory of the guest. -/
def guestPhys (s : Vcpu) : ByteMem.Mem 64 := fun gpa =>
  match gpaFrame s.kvm gpa with
  | some f => s.mem (hpaOf f + (gpa &&& (pageSize - 1#64)))
  | none => 0

/-- The bad page holds zeros, as `kvm_init` leaves it. -/
def BadPageZero (s : Vcpu) : Prop := ∀ off < 4096, s.mem (hpaOf s.badPage + BitVec.ofNat 64 off) = 0

/-! ### Addresses of one page -/

theorem gfnOf_eq (gpa : BitVec 64) : gfnOf gpa = gpa.toNat / 4096 := by
  unfold gfnOf pageShift
  rw [BitVec.toNat_ushiftRight, Nat.shiftRight_eq_div_pow]

theorem toNat_and_pageOffset (gpa : BitVec 64) : (gpa &&& (pageSize - 1#64)).toNat = gpa.toNat % 4096 := by
  have hmask : (pageSize - 1#64).toNat = 2 ^ 12 - 1 := by decide
  rw [BitVec.toNat_and, hmask, Nat.and_two_pow_sub_one_eq_mod]

theorem toNat_base_add (h : ByteMem.Aligned 4096 base) (hoff : off < 4096) :
    (base + BitVec.ofNat 64 off).toNat = base.toNat + off := by
  have hlt := base.isLt
  unfold ByteMem.Aligned at h
  rw [BitVec.toNat_add, BitVec.toNat_ofNat]
  omega

theorem gpaFrame_base_add (kvm : Kvm) (h : ByteMem.Aligned 4096 base) (hoff : off < 4096) :
    gpaFrame kvm (base + BitVec.ofNat 64 off) = gpaFrame kvm base := by
  have hgfn : gfnOf (base + BitVec.ofNat 64 off) = gfnOf base := by
    rw [gfnOf_eq, gfnOf_eq, toNat_base_add h hoff]
    unfold ByteMem.Aligned at h
    omega
  unfold gpaFrame
  rw [hgfn]

theorem base_add_and_pageOffset (h : ByteMem.Aligned 4096 base) (hoff : off < 4096) :
    (base + BitVec.ofNat 64 off) &&& (pageSize - 1#64) = BitVec.ofNat 64 off := by
  apply BitVec.eq_of_toNat_eq
  rw [toNat_and_pageOffset, toNat_base_add h hoff, BitVec.toNat_ofNat]
  unfold ByteMem.Aligned at h
  omega

/-! ### Reading a mapped page -/

theorem load_guestPhys_of_some {f : Pfn} (hf : gpaFrame s.kvm base = some f) (h : ByteMem.Aligned 4096 base)
    (hoff : off + n ≤ 4096) :
    ByteMem.load (guestPhys s) (base + BitVec.ofNat 64 off) n =
      ByteMem.load s.mem (hpaOf f + BitVec.ofNat 64 off) n := by
  refine ByteMem.load_congr fun j hj => ?_
  unfold guestPhys
  rw [ByteMem.add_ofNat, gpaFrame_base_add _ h (by omega), hf, base_add_and_pageOffset h (by omega)]
  exact congrArg s.mem (ByteMem.add_ofNat ..).symm

theorem load_guestPhys_of_none (hf : gpaFrame s.kvm base = none) (h : ByteMem.Aligned 4096 base)
    (hoff : off + n ≤ 4096) : ByteMem.load (guestPhys s) (base + BitVec.ofNat 64 off) n = 0 := by
  refine ByteMem.load_eq_zero fun j hj => ?_
  unfold guestPhys
  rw [ByteMem.add_ofNat, gpaFrame_base_add _ h (by omega), hf]

theorem pfnOf_hpaOf_or (p : Pfn) (gpa : BitVec 64) : pfnOf (hpaOf p ||| (gpa &&& (pageSize - 1#64))) = p := by
  apply BitVec.eq_of_hasBit
  intro i hi
  unfold pfnOf
  rw [Bits.hasBit_field, BitVec.hasBit_or, hasBit_hpaOf, BitVec.hasBit_and, hasBit_pageOffsetMask]
  simp only [hi, decide_true, Bool.true_and, pageShift, show (12 ≤ 12 + i ∧ 12 + i < 52) = True by simp; omega,
    show ¬12 + i < 12 by omega, decide_false, Bool.and_false, Bool.or_false, Nat.add_sub_cancel_left]

theorem kmapAtomic_hpaOf_or {p : Pfn} {gpa : BitVec 64} : kmapAtomic (hpaOf p ||| (gpa &&& (pageSize - 1#64))) = hpaOf p :=
  congrArg hpaOf (pfnOf_hpaOf_or p gpa)

/-- The page that is mapped for an address: that of its frame, or the bad page. -/
theorem kmapAtomic_safeGpaToHpa (s : Vcpu) (gpa : BitVec 64) :
    kmapAtomic (safeGpaToHpa s gpa) = hpaOf ((gpaFrame s.kvm gpa).getD s.badPage) := by
  have hmask : ~~~pageMask = pageSize - 1#64 := BitVec.not_not
  unfold safeGpaToHpa
  dsimp only
  rw [isErrorHpa_gpaToHpa, hmask]
  cases hf : gpaFrame s.kvm gpa with
  | none => simpa using @kmapAtomic_hpaOf_or s.badPage gpa
  | some f => simpa [gpaToHpa_of_some hf] using @kmapAtomic_hpaOf_or f gpa

/-- What is read through the mapping of a page is what the guest has there. -/
theorem load_kmapAtomic (hbad : BadPageZero s) (h : ByteMem.Aligned 4096 base) (hoff : off + n ≤ 4096) :
    ByteMem.load s.mem (kmapAtomic (safeGpaToHpa s base) + BitVec.ofNat 64 off) n =
      ByteMem.load (guestPhys s) (base + BitVec.ofNat 64 off) n := by
  rw [kmapAtomic_safeGpaToHpa]
  cases hf : gpaFrame s.kvm base with
  | some f => exact (load_guestPhys_of_some hf h hoff).symm
  | none =>
    rw [load_guestPhys_of_none hf h hoff]
    refine ByteMem.load_eq_zero fun j hj => ?_
    rw [ByteMem.add_ofNat]
    exact hbad _ (by omega)

end LearnKvm
