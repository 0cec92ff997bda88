import LearnKvm.Mmu.Context

/-!
# Control registers (`kvm_main.c`)

`MOV CR3`.  A value with reserved bits raises a general protection fault in the guest; other values are loaded, and the
context of the MMU is told.
-/

namespace LearnKvm

/-- Some of the four page-directory pointers has reserved bits set.  Without a slot for the page the code dereferences a
null pointer. -/
def pdptrsHaveReservedBitsSet (s : Vcpu) (cr3 : BitVec 64) : Option Bool :=
  let pdptGfn := gfnOf cr3
  let offset := ((cr3 &&& (pageSize - 1#64)) >>> 5).toNat
  match gfnToMemslot s.kvm pdptGfn with
  | none => none
  | some memslot =>
    let pdpt := hpaOf (gfnToPage s.kvm memslot pdptGfn)
    some ((List.range 4).any fun i =>
      let pdpte := readEntry .pt64 s (entryAddr .pt64 pdpt (offset + i))
      pdpte &&& 1#64 != 0 && pdpte &&& 0xfffffff0000001e6#64 != 0)

/-- The checks of `set_cr3`. -/
def cr3HasReservedBits (s : Vcpu) (cr3 : BitVec 64) : Option Bool :=
  if isLongMode s.vmcs then some (cr3 &&& cr3LModeReservedBits != 0)
  else if cr3 &&& cr3ReservedBits != 0 then some true
  else if isPaging s.vmcs && isPae s.vmcs then pdptrsHaveReservedBitsSet s cr3
  else some false

def setCr3 (s : Vcpu) (cr3 : BitVec 64) : Option Vcpu :=
  match cr3HasReservedBits s cr3 with
  | none => none
  | some true => some { s with vmcs := injectGp s.vmcs }
  | some false => some (mmuNewCr3 { s with cr3 := cr3 })

/-- In long mode the value that is loaded has no bits below the page number, the cache flags apart. -/
theorem and_cr3_of_longMode {s : Vcpu} {cr3 : BitVec 64} (hlong : isLongMode s.vmcs = true)
    (h : cr3HasReservedBits s cr3 = some false) : cr3 &&& 0xfe0#64 = 0 := by
  unfold cr3HasReservedBits at h
  rw [hlong, if_pos rfl] at h
  have h0 : cr3 &&& cr3LModeReservedBits = 0 := by simpa using Option.some.inj h
  have hmask : cr3LModeReservedBits &&& 0xfe0#64 = 0xfe0#64 := by decide
  calc cr3 &&& 0xfe0#64 = cr3 &&& cr3LModeReservedBits &&& 0xfe0#64 := by rw [BitVec.and_assoc, hmask]
    _ = 0 := by rw [h0, show (0 : BitVec 64) = 0#64 from rfl, BitVec.zero_and]

end LearnKvm
