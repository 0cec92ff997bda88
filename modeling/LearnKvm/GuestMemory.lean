import LearnKvm.Mmu.Context

/-!
# Guest memory (`kvm_main.c`)

`kvm_read_guest` and `kvm_write_guest` copy bytes from and to guest-virtual addresses, page by page, up to the first page
that is not mapped or lies in no slot.  Neither touches anything but guest memory (`kvmWriteGuest_frame`).
-/

namespace LearnKvm

def gvaToHpa (s : Vcpu) (gva : BitVec 64) : BitVec 64 :=
  let gpa := mmuGvaToGpa s gva
  if gpa = unmappedGva then unmappedGva else gpaToHpa s.kvm gpa

/-- The number of bytes of the page of `addr`, from `addr` on. -/
def restOfPage (addr : BitVec 64) : Nat := pageSize.toNat - (addr &&& ~~~pageMask).toNat

theorem restOfPage_pos (addr : BitVec 64) : 0 < restOfPage addr := by
  have hmask : (addr &&& ~~~pageMask).toNat ≤ (~~~pageMask).toNat := by
    rw [BitVec.toNat_and]
    exact Nat.and_le_right
  have h1 : (~~~pageMask).toNat < pageSize.toNat := by decide
  unfold restOfPage
  omega

/-- The address at which a page of the host that is mapped with `kmap_atomic` holds the byte at `addr`. -/
def guestBuf (paddr addr : BitVec 64) : BitVec 64 := hpaOf (pfnOf paddr) ||| (addr &&& ~~~pageMask)

/-- The bytes that could be read; the return value is their number. -/
def kvmReadGuest (s : Vcpu) (addr : BitVec 64) (size : Nat) : List (BitVec 8) :=
  if size = 0 then []
  else
    let paddr := gvaToHpa s addr
    if isErrorHpa paddr then []
    else
      let now := min size (restOfPage addr)
      (List.range now).map (fun i => s.mem (guestBuf paddr addr + BitVec.ofNat 64 i)) ++
        kvmReadGuest s (addr + BitVec.ofNat 64 now) (size - now)
termination_by size
decreasing_by
  have := restOfPage_pos addr
  omega

/-- Copy bytes to host memory. -/
def copyBytes (mem : ByteMem.Mem 64) (a : BitVec 64) : List (BitVec 8) → ByteMem.Mem 64
  | [] => mem
  | b :: data => copyBytes (Function.update mem a b) (a + 1) data

/-- Returns the number of bytes written. -/
def kvmWriteGuest (s : Vcpu) (addr : BitVec 64) (data : List (BitVec 8)) : Vcpu × Nat :=
  if data = [] then (s, 0)
  else
    let paddr := gvaToHpa s addr
    if isErrorHpa paddr then (s, 0)
    else
      let now := min data.length (restOfPage addr)
      let (t, done) := kvmWriteGuest { s with mem := copyBytes s.mem (guestBuf paddr addr) (data.take now) }
        (addr + BitVec.ofNat 64 now) (data.drop now)
      (t, now + done)
termination_by data.length
decreasing_by
  have hpos := restOfPage_pos addr
  have hlen := List.length_pos_iff.2 ‹data ≠ []›
  rw [List.length_drop]
  omega

/-- Only guest memory is written. -/
theorem kvmWriteGuest_frame (s : Vcpu) (addr : BitVec 64) (data : List (BitVec 8)) :
    (kvmWriteGuest s addr data).1 = { s with mem := (kvmWriteGuest s addr data).1.mem } := by
  fun_induction kvmWriteGuest s addr data with
  | case1 s addr => rfl
  | case2 s addr data hdata paddr herr => rfl
  | case3 s addr data hdata paddr herr now t done hrec ih =>
    rw [hrec] at ih
    exact ih

/-! ### Accesses within a page -/

/-- The page of `addr` is mapped and lies in a slot. -/
def GvaMapped (s : Vcpu) (addr : BitVec 64) : Prop := isErrorHpa (gvaToHpa s addr) = false

instance (s : Vcpu) (addr : BitVec 64) : Decidable (GvaMapped s addr) :=
  inferInstanceAs (Decidable (isErrorHpa (gvaToHpa s addr) = false))

theorem kvmReadGuest_zero (s : Vcpu) (addr : BitVec 64) : kvmReadGuest s addr 0 = [] := by
  unfold kvmReadGuest
  simp

theorem kvmReadGuest_inPage {s : Vcpu} {addr : BitVec 64} {size : Nat} (hpos : 0 < size) (hsize : size ≤ restOfPage addr) :
    kvmReadGuest s addr size = if isErrorHpa (gvaToHpa s addr) then [] else
      (List.range size).map fun i => s.mem (guestBuf (gvaToHpa s addr) addr + BitVec.ofNat 64 i) := by
  have hmin : min size (restOfPage addr) = size := Nat.min_eq_left hsize
  unfold kvmReadGuest
  simp only [hmin, Nat.sub_self, kvmReadGuest_zero, List.append_nil]
  rw [if_neg (by omega)]

theorem kvmWriteGuest_nil (s : Vcpu) (addr : BitVec 64) : kvmWriteGuest s addr [] = (s, 0) := by
  unfold kvmWriteGuest
  simp

theorem kvmWriteGuest_inPage {s : Vcpu} {addr : BitVec 64} {data : List (BitVec 8)} (hne : data ≠ [])
    (hlen : data.length ≤ restOfPage addr) : kvmWriteGuest s addr data = if isErrorHpa (gvaToHpa s addr) then (s, 0) else
      ({ s with mem := copyBytes s.mem (guestBuf (gvaToHpa s addr) addr) data }, data.length) := by
  have hmin : min data.length (restOfPage addr) = data.length := Nat.min_eq_left hlen
  unfold kvmWriteGuest
  simp only [hmin, List.take_length, List.drop_length, kvmWriteGuest_nil, Nat.add_zero]
  rw [if_neg hne]

/-- The low `n` bytes of a word. -/
def bytesOf (n : Nat) (x : BitVec 64) : List (BitVec 8) := (List.range n).map fun i => Bits.field (8 * i) 8 x

end LearnKvm
