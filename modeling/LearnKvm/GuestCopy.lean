import LearnKvm.MemoryCalls
import LearnKvm.Translation

/-!
# Copies from and to the guest (`kvm_main.c`)

`kvm_read_guest` and `kvm_write_guest` go through a range page by page.  Their meaning is a copy byte by byte: each byte of
the range is translated on its own, and the copy stops at the first that is unmapped or lies in no slot (`readBytes`,
`writeBytes`).  The two are equal, with one exception.  The functions return the number of bytes as an `int`, so a copy of
`2 ^ 31` bytes reports another number than it has copied (`guestCopies_iff`).

The writes of a copy go to the frames that the translation found before it; that is why they may not hit the guest's own
paging entries (`TablesApart`).
-/

namespace LearnKvm

variable {s : Vcpu} {addr : BitVec 64}

/-! ### Byte by byte -/

/-- The bytes of a range up to the first that is not mapped. -/
def readBytes (s : Vcpu) (addr : BitVec 64) : Nat → List (BitVec 8)
  | 0 => []
  | n + 1 => if GvaMapped s addr then s.mem (gvaToHpa s addr) :: readBytes s (addr + 1) n else []

/-- Write bytes to a range up to the first that is not mapped.  The addresses are those of `s`, the bytes go to `mem`. -/
def writeBytes (s : Vcpu) (mem : ByteMem.Mem 64) (addr : BitVec 64) : List (BitVec 8) → ByteMem.Mem 64 × Nat
  | [] => (mem, 0)
  | b :: data =>
    if GvaMapped s addr then
      let r := writeBytes s (Function.update mem (gvaToHpa s addr) b) (addr + 1) data
      (r.1, r.2 + 1)
    else (mem, 0)

/-- The `int` that is returned for a number of bytes. -/
def intReturn (n : Nat) : Int := (BitVec.ofNat 32 n).toInt

/-- A copy of the range comes to its byte `i`. -/
def CopyReaches (s : Vcpu) (addr : BitVec 64) (i : Nat) : Prop := ∀ j < i, GvaMapped s (addr + BitVec.ofNat 64 j)

/-- The frames that a copy of `n` bytes writes to hold none of the paging entries that translate its addresses. -/
def TablesApart (s : Vcpu) (addr : BitVec 64) (n : Nat) : Prop :=
  ∀ i < n, ∀ j < n, CopyReaches s addr i → CopyReaches s addr (j + 1) →
    ∀ x, PagingByte s (addr + BitVec.ofNat 64 i) x → pfnOf x ≠ pfnOf (gvaToHpa s (addr + BitVec.ofNat 64 j))

/-- `kvm_read_guest` copies byte by byte. -/
structure ReadsBytes (s : Vcpu) (addr : BitVec 64) (size : Nat) : Prop where
  bytes : kvmReadGuest s addr size = readBytes s addr size
  count : intReturn (kvmReadGuest s addr size).length = (readBytes s addr size).length

/-- `kvm_write_guest` copies byte by byte. -/
structure WritesBytes (s : Vcpu) (addr : BitVec 64) (data : List (BitVec 8)) : Prop where
  state : (kvmWriteGuest s addr data).1 = { s with mem := (writeBytes s s.mem addr data).1 }
  count : intReturn (kvmWriteGuest s addr data).2 = (writeBytes s s.mem addr data).2
  others : ∀ x, (∀ i < (writeBytes s s.mem addr data).2, x ≠ gvaToHpa s (addr + BitVec.ofNat 64 i)) →
    (kvmWriteGuest s addr data).1.mem x = s.mem x

/-! ### Ranges -/

theorem add_zero_addr (addr : BitVec 64) : addr + BitVec.ofNat 64 0 = addr := BitVec.add_zero addr

theorem add_succ_addr (addr : BitVec 64) (i : Nat) : addr + 1 + BitVec.ofNat 64 i = addr + BitVec.ofNat 64 (i + 1) := by
  have h := ByteMem.add_ofNat addr 1 i
  rwa [Nat.add_comm] at h

theorem copyReaches_add {m i : Nat} : CopyReaches s addr (m + i) ↔ CopyReaches s addr m ∧ CopyReaches s (addr + BitVec.ofNat 64 m) i := by
  unfold CopyReaches
  constructor
  · intro h
    refine ⟨fun j hj => h j (by omega), fun j hj => ?_⟩
    rw [ByteMem.add_ofNat]
    exact h (m + j) (by omega)
  · rintro ⟨h, h'⟩ j hj
    by_cases hm : j < m
    · exact h j hm
    · have := h' (j - m) (by omega)
      rwa [ByteMem.add_ofNat, Nat.add_sub_cancel' (by omega)] at this

theorem copyReaches_succ {i : Nat} : CopyReaches s addr (i + 1) ↔ GvaMapped s addr ∧ CopyReaches s (addr + 1) i := by
  rw [Nat.add_comm, copyReaches_add]
  refine and_congr_left fun _ => ⟨fun h => ?_, fun h j hj => ?_⟩
  · have h0 := h 0 Nat.one_pos
    rwa [add_zero_addr] at h0
  · obtain rfl : j = 0 := by omega
    rwa [add_zero_addr]

theorem copyReaches_restOfPage (hlast : LastPageUnbacked s.kvm) {f : Pfn} (h : gvaFrame s addr = some f) {n : Nat}
    (hn : n ≤ restOfPage addr) : CopyReaches s addr n := fun j hj =>
  gvaMapped_iff.2 ⟨f, (gvaFrame_congr hlast (samePage_add (by omega))).symm.trans h⟩

theorem TablesApart.rest {m n : Nat} (h : TablesApart s addr (m + n)) (hm : CopyReaches s addr m) :
    TablesApart s (addr + BitVec.ofNat 64 m) n := by
  intro i hi j hj hri hrj x hx
  have hrj' : CopyReaches s addr (m + (j + 1)) := copyReaches_add.2 ⟨hm, hrj⟩
  rw [ByteMem.add_ofNat] at hx ⊢
  exact h (m + i) (by omega) (m + j) (by omega) (copyReaches_add.2 ⟨hm, hri⟩) hrj' x hx

/-- The number of bytes that are copied. -/
theorem lt_length_readBytes {n k : Nat} : k < (readBytes s addr n).length ↔ k < n ∧ CopyReaches s addr (k + 1) := by
  induction n generalizing addr k with
  | zero => simp [readBytes]
  | succ n ih =>
    unfold readBytes
    rw [copyReaches_succ]
    split
    · rename_i hmapped
      cases k with
      | zero => simp [hmapped, CopyReaches]
      | succ k => simp [ih, hmapped]
    · rename_i hmapped
      simp [hmapped]

theorem writeBytes_count (mem : ByteMem.Mem 64) (data : List (BitVec 8)) :
    (writeBytes s mem addr data).2 = (readBytes s addr data.length).length := by
  induction data generalizing addr mem with
  | nil => rfl
  | cons b data ih =>
    unfold writeBytes
    rw [List.length_cons, readBytes]
    split
    · exact congrArg (· + 1) (ih _)
    · rfl

theorem writeBytes_others (mem : ByteMem.Mem 64) (data : List (BitVec 8)) {x : BitVec 64}
    (h : ∀ i < (writeBytes s mem addr data).2, x ≠ gvaToHpa s (addr + BitVec.ofNat 64 i)) :
    (writeBytes s mem addr data).1 x = mem x := by
  induction data generalizing addr mem with
  | nil => rfl
  | cons b data ih =>
    unfold writeBytes at h ⊢
    split
    · rename_i hmapped
      rw [if_pos hmapped] at h
      have h0 := h 0 (Nat.succ_pos _)
      rw [add_zero_addr] at h0
      refine (ih _ fun i hi => ?_).trans (Function.update_of_ne h0 ..)
      rw [add_succ_addr]
      exact h (i + 1) (Nat.succ_lt_succ hi)
    · rfl

/-- Only the translation of the state counts. -/
theorem writeBytes_congr {s t : Vcpu} (h : ∀ a, gvaToHpa t a = gvaToHpa s a) (mem : ByteMem.Mem 64) (addr : BitVec 64)
    (data : List (BitVec 8)) : writeBytes t mem addr data = writeBytes s mem addr data := by
  induction data generalizing addr mem with
  | nil => rfl
  | cons b data ih =>
    have hmapped : GvaMapped t addr ↔ GvaMapped s addr := by
      unfold GvaMapped
      rw [h]
    unfold writeBytes
    rw [h, ih]
    simp only [hmapped]

/-! ### Page by page -/

theorem readBytes_add {m : Nat} (n : Nat) (h : CopyReaches s addr m) :
    readBytes s addr (m + n) = (List.range m).map (fun i => s.mem (gvaToHpa s (addr + BitVec.ofNat 64 i))) ++
      readBytes s (addr + BitVec.ofNat 64 m) n := by
  induction m generalizing addr with
  | zero => simp
  | succ m ih =>
    obtain ⟨h0, h1⟩ := copyReaches_succ.1 h
    rw [Nat.add_right_comm, readBytes, if_pos h0, ih h1, List.range_succ_eq_map, List.map_cons, List.map_map,
      add_zero_addr, add_succ_addr, List.cons_append]
    simp only [Function.comp_def, add_succ_addr, Nat.succ_eq_add_one]

theorem writeBytes_append (mem : ByteMem.Mem 64) (l data : List (BitVec 8)) (h : CopyReaches s addr l.length) :
    writeBytes s mem addr (l ++ data) =
      ((writeBytes s (writeBytes s mem addr l).1 (addr + BitVec.ofNat 64 l.length) data).1,
        l.length + (writeBytes s (writeBytes s mem addr l).1 (addr + BitVec.ofNat 64 l.length) data).2) := by
  induction l generalizing addr mem with
  | nil => simp [writeBytes]
  | cons b l ih =>
    obtain ⟨h0, h1⟩ := copyReaches_succ.1 h
    rw [List.cons_append, writeBytes, writeBytes, if_pos h0, if_pos h0]
    dsimp only
    rw [ih _ h1, add_succ_addr, List.length_cons]
    simp [Nat.add_right_comm]

/-- Where addresses translate to consecutive bytes, the bytes are copied as one block. -/
theorem writeBytes_block (mem : ByteMem.Mem 64) (l : List (BitVec 8)) {hpa : BitVec 64} (h : CopyReaches s addr l.length)
    (hhpa : ∀ j < l.length, gvaToHpa s (addr + BitVec.ofNat 64 j) = hpa + BitVec.ofNat 64 j) :
    (writeBytes s mem addr l).1 = copyBytes mem hpa l := by
  induction l generalizing addr mem hpa with
  | nil => rfl
  | cons b l ih =>
    obtain ⟨h0, h1⟩ := copyReaches_succ.1 h
    have hfirst := hhpa 0 (Nat.succ_pos _)
    rw [add_zero_addr, add_zero_addr] at hfirst
    rw [writeBytes, if_pos h0, copyBytes, hfirst]
    refine ih _ h1 fun j hj => ?_
    rw [add_succ_addr, add_succ_addr]
    exact hhpa (j + 1) (Nat.succ_lt_succ hj)

theorem copyBytes_of_ne (mem : ByteMem.Mem 64) (l : List (BitVec 8)) {a x : BitVec 64}
    (h : ∀ j < l.length, x ≠ a + BitVec.ofNat 64 j) : copyBytes mem a l x = mem x := by
  induction l generalizing mem a with
  | nil => rfl
  | cons b l ih =>
    have h0 := h 0 (Nat.succ_pos _)
    rw [add_zero_addr] at h0
    refine (ih _ fun j hj => ?_).trans (Function.update_of_ne h0 ..)
    rw [add_succ_addr]
    exact h (j + 1) (Nat.succ_lt_succ hj)

theorem kvmReadGuest_eq (hlast : LastPageUnbacked s.kvm) (size : Nat) :
    kvmReadGuest s addr size = readBytes s addr size := by
  fun_induction kvmReadGuest s addr size with
  | case1 addr => rfl
  | case2 addr size hsize paddr herr =>
    obtain ⟨n, rfl⟩ := Nat.exists_eq_succ_of_ne_zero hsize
    have hno : ¬GvaMapped s addr := fun h => by
      unfold GvaMapped at h
      simp [paddr, h] at herr
    rw [Nat.succ_eq_add_one, readBytes, if_neg hno]
  | case3 addr size hsize paddr herr now ih =>
    obtain ⟨f, hf⟩ := gvaMapped_iff.1 (show GvaMapped s addr from Bool.eq_false_iff.2 herr)
    have hnow : now ≤ restOfPage addr := Nat.min_le_right ..
    rw [ih, guestBuf_gvaToHpa hf]
    conv_rhs => rw [show size = now + (size - now) from (Nat.add_sub_cancel' (Nat.min_le_left ..)).symm]
    rw [readBytes_add _ (copyReaches_restOfPage hlast hf hnow)]
    congr 1
    refine List.map_congr_left fun i hi => ?_
    rw [gvaToHpa_add hlast hf (Nat.lt_of_lt_of_le (List.mem_range.1 hi) hnow)]

/-- The pages that a copy writes hold no paging entry of a later page, so the translations stay those of the start. -/
theorem kvmWriteGuest_eq (hlast : LastPageUnbacked s.kvm) {data : List (BitVec 8)} {mem : ByteMem.Mem 64}
    (hmem : ∀ i < data.length, CopyReaches s addr i → ∀ x, PagingByte s (addr + BitVec.ofNat 64 i) x → mem x = s.mem x)
    (hapart : TablesApart s addr data.length) : kvmWriteGuest { s with mem := mem } addr data =
      ({ s with mem := (writeBytes s mem addr data).1 }, (writeBytes s mem addr data).2) := by
  induction hn : data.length using Nat.strong_induction_on generalizing addr data mem with
  | _ n ih =>
    subst hn
    by_cases hdata : data = []
    · subst hdata
      exact kvmWriteGuest_nil ..
    have hlen := List.length_pos_iff.2 hdata
    have hfirst : gvaToHpa { s with mem := mem } addr = gvaToHpa s addr := by
      have := hmem 0 hlen fun j hj => absurd hj (Nat.not_lt_zero j)
      rw [add_zero_addr] at this
      exact gvaToHpa_setMem this
    rw [kvmWriteGuest, if_neg hdata]
    dsimp only
    rw [hfirst, isErrorHpa_gvaToHpa]
    cases hf : gvaFrame s addr with
    | none =>
      have hno : ¬GvaMapped s addr := fun h => by
        obtain ⟨f, hf'⟩ := gvaMapped_iff.1 h
        rw [hf] at hf'
        cases hf'
      obtain ⟨b, data, rfl⟩ := List.exists_cons_of_ne_nil hdata
      rw [writeBytes, if_neg hno]
      rfl
    | some f =>
      generalize hnow : min data.length (restOfPage addr) = now
      have hle : now ≤ restOfPage addr := hnow ▸ Nat.min_le_right ..
      have hle' : now ≤ data.length := hnow ▸ Nat.min_le_left ..
      have hpos : 0 < now := hnow ▸ Nat.lt_min.2 ⟨hlen, restOfPage_pos addr⟩
      have hreach := copyReaches_restOfPage hlast hf hle
      have htake : (data.take now).length = now := List.length_take_of_le hle'
      have hdrop : (data.drop now).length = data.length - now := List.length_drop
      have hblock : (writeBytes s mem addr (data.take now)).1 = copyBytes mem (gvaToHpa s addr) (data.take now) :=
        writeBytes_block mem _ (htake.symm ▸ hreach) fun j hj => gvaToHpa_add hlast hf (by omega)
      have hrest : TablesApart s (addr + BitVec.ofNat 64 now) (data.drop now).length := by
        rw [hdrop]
        refine TablesApart.rest ?_ hreach
        rwa [Nat.add_sub_cancel' hle']
      have hih := @ih _ (by omega) (addr + BitVec.ofNat 64 now) (data.drop now)
        (copyBytes mem (gvaToHpa s addr) (data.take now)) (fun i hi hri x hx => ?_) hrest rfl
      · have happ := writeBytes_append mem (data.take now) (data.drop now) (htake.symm ▸ hreach)
        rw [List.take_append_drop, htake, hblock] at happ
        rw [guestBuf_gvaToHpa hf, hih, happ]
        rfl
      · -- the block lies in other frames than the entries that translate the rest
        rw [ByteMem.add_ofNat] at hx
        have hri' : CopyReaches s addr (now + i) := copyReaches_add.2 ⟨hreach, hri⟩
        refine (copyBytes_of_ne _ _ fun j hj heq => ?_).trans (hmem (now + i) (by omega) hri' x hx)
        rw [htake] at hj
        refine hapart (now + i) (by omega) j (by omega) hri' (fun k hk => hreach k (by omega)) x hx ?_
        rw [heq, gvaToHpa_add hlast hf (by omega)]

/-! ### The returned number -/

theorem intReturn_eq_iff (n : Nat) : intReturn n = n ↔ n < 2 ^ 31 := by
  unfold intReturn
  rw [BitVec.toInt_eq_toNat_bmod, BitVec.toNat_ofNat, Int.bmod_def]
  omega

/-- Fewer than `2 ^ 31` bytes are copied. -/
theorem length_readBytes_lt_iff (n : Nat) : (readBytes s addr n).length < 2 ^ 31 ↔
    n < 2 ^ 31 ∨ ∃ i < 2 ^ 31, ¬GvaMapped s (addr + BitVec.ofNat 64 i) := by
  have hlast := @lt_length_readBytes s addr n (2 ^ 31 - 1)
  unfold CopyReaches at hlast
  constructor
  · intro h
    by_contra hno
    simp only [not_or, not_lt, not_exists, not_and, not_not] at hno
    have := hlast.2 ⟨by omega, fun j hj => hno.2 j (by omega)⟩
    omega
  · intro h
    by_contra hno
    obtain ⟨hn, hall⟩ := hlast.1 (by omega)
    rcases h with h | ⟨i, hi, hun⟩
    · omega
    · exact hun (hall i (by omega))

theorem readsBytes_iff (hlast : LastPageUnbacked s.kvm) (size : Nat) : ReadsBytes s addr size ↔
    size < 2 ^ 31 ∨ ∃ i < 2 ^ 31, ¬GvaMapped s (addr + BitVec.ofNat 64 i) := by
  have hbytes := @kvmReadGuest_eq s addr hlast size
  rw [← length_readBytes_lt_iff, ← intReturn_eq_iff]
  exact ⟨fun h => hbytes ▸ h.count, fun h => ⟨hbytes, hbytes ▸ h⟩⟩

theorem writesBytes_iff (hlast : LastPageUnbacked s.kvm) {data : List (BitVec 8)}
    (hapart : TablesApart s addr data.length) : WritesBytes s addr data ↔
      data.length < 2 ^ 31 ∨ ∃ i < 2 ^ 31, ¬GvaMapped s (addr + BitVec.ofNat 64 i) := by
  have hstate : kvmWriteGuest s addr data = ({ s with mem := (writeBytes s s.mem addr data).1 }, _) :=
    @kvmWriteGuest_eq s addr hlast data s.mem (fun _ _ _ _ _ => rfl) hapart
  rw [← length_readBytes_lt_iff, ← intReturn_eq_iff, ← writeBytes_count s.mem]
  refine ⟨fun h => ?_, fun h => ⟨congrArg Prod.fst hstate, ?_, fun x hx => ?_⟩⟩
  · have hcount := h.count
    rwa [hstate] at hcount
  · rwa [hstate]
  · rw [hstate]
    exact writeBytes_others _ _ hx

/-- The page-wise copies are copies byte by byte, except that they report `2 ^ 31` bytes or more as another number. -/
theorem guestCopies_iff (s : Vcpu) (addr : BitVec 64) (hlast : LastPageUnbacked s.kvm) :
    (∀ size, ReadsBytes s addr size ↔ size < 2 ^ 31 ∨ ∃ i < 2 ^ 31, ¬GvaMapped s (addr + BitVec.ofNat 64 i)) ∧
      ∀ data : List (BitVec 8), TablesApart s addr data.length → (WritesBytes s addr data ↔
        data.length < 2 ^ 31 ∨ ∃ i < 2 ^ 31, ¬GvaMapped s (addr + BitVec.ofNat 64 i)) :=
  ⟨readsBytes_iff hlast, fun _ hapart => writesBytes_iff hlast hapart⟩

/-! ### The memory slots -/

/-- A request that passes the sanity checks ends below the last page. -/
theorem sanityChecks_bound {mem : KvmMemoryRegion} {slot : Fin 4} (h : mem.sanityChecks = some slot) :
    mem.baseGfn + mem.npages < 2 ^ 52 := by
  unfold KvmMemoryRegion.sanityChecks at h
  split at h
  · cases h
  · rename_i hsize
    split at h
    · cases h
    · rename_i haddr
      split at h
      · cases h
      · split at h
        · cases h
        · rename_i hwrap
          have hs := congrArg BitVec.toNat (by simpa using hsize : mem.memorySize &&& (pageSize - 1#64) = 0)
          have ha := congrArg BitVec.toNat (by simpa using haddr : mem.guestPhysAddr &&& (pageSize - 1#64) = 0)
          rw [toNat_and_pageOffset] at hs ha
          have hs' : mem.memorySize.toNat % 4096 = 0 := hs
          have ha' : mem.guestPhysAddr.toNat % 4096 = 0 := ha
          rw [BitVec.lt_def, BitVec.toNat_add] at hwrap
          unfold KvmMemoryRegion.baseGfn KvmMemoryRegion.npages
          rw [gfnOf_eq, gfnOf_eq]
          omega

/-- `KVM_SET_MEMORY_REGION` never gives a slot the last page. -/
theorem LastPageUnbacked.commit {kvm : Kvm} (h : LastPageUnbacked kvm) {mem : KvmMemoryRegion} {slot : Fin 4}
    (hsane : mem.sanityChecks = some slot) (allocs : RegionAllocs) :
    LastPageUnbacked (commitRegion kvm slot (allocRegion allocs (newSlot mem (kvm.memslots slot))).slot) := by
  intro i
  unfold commitRegion
  dsimp only
  by_cases hi : i = slot
  · subst hi
    have hbase : (allocRegion allocs (newSlot mem (kvm.memslots i))).slot.baseGfn = mem.baseGfn := allocRegion_baseGfn _ _
    have hnpages := (allocRegion_spec allocs mem (kvm.memslots i)).npages
    have hbound := sanityChecks_bound hsane
    have hgfn : gfnOf unmappedGva = 2 ^ 52 - 1 := by decide
    rw [Function.update_self]
    unfold KvmMemorySlot.contains
    rw [hbase, hnpages, hgfn]
    simp only [Bool.and_eq_false_iff, decide_eq_false_iff_not]
    omega
  · rw [Function.update_of_ne hi]
    exact h i

/-! ### A guest with two gigabytes -/

/-- A guest before paging, with a slot of two gigabytes. -/
def largeGuest : Vcpu :=
  { (default : Vcpu) with
    kvm := { (default : Kvm) with
      nmemslots := 1
      memslots := Function.update (default : Kvm).memslots 0
        { baseGfn := 0, npages := 2 ^ 19, flags := 0, physMem := 1, dirtyBitmap := 0 }
      pageArray := fun _ n => BitVec.ofNat 40 (n + 1) } }

theorem largeGuest_lastPage : LastPageUnbacked largeGuest.kvm := by
  unfold LastPageUnbacked
  decide

theorem largeGuest_mapped {i : Nat} (h : i < 2 ^ 31) : GvaMapped largeGuest (BitVec.ofNat 64 i) := by
  have hgfn : gfnOf (BitVec.ofNat 64 i) < 2 ^ 19 := by
    rw [gfnOf_eq, BitVec.toNat_ofNat]
    omega
  have hne : mmuGvaToGpa largeGuest (BitVec.ofNat 64 i) ≠ unmappedGva := fun heq => by
    have hlt := congrArg gfnOf heq ▸ hgfn
    exact absurd hlt (by decide)
  have hslot : gfnToMemslot largeGuest.kvm (gfnOf (BitVec.ofNat 64 i)) = some 0 := by
    unfold gfnToMemslot
    rw [List.finRange_succ, List.find?_cons_of_pos]
    unfold KvmMemorySlot.contains
    simpa using ⟨Nat.zero_lt_one, Nat.zero_le _, hgfn⟩
  rw [gvaMapped_iff]
  unfold gvaFrame
  rw [if_neg hne]
  unfold gpaFrame
  change ∃ f, Option.map _ (gfnToMemslot largeGuest.kvm (gfnOf (BitVec.ofNat 64 i))) = some f
  rw [hslot]
  exact ⟨_, rfl⟩

theorem guestCopies_iff_small : ReadsBytes largeGuest 0xff8 16 ∧ WritesBytes largeGuest 0xff8 [1, 2, 3] := by
  have hcopies := guestCopies_iff largeGuest 0xff8 largeGuest_lastPage
  refine ⟨(hcopies.1 16).2 (Or.inl (by decide)), (hcopies.2 [1, 2, 3] ?_).2 (Or.inl (by decide))⟩
  intro i _ j _ _ _ x hx
  exact absurd rfl hx.1

/-- All two gigabytes are copied, and the number that is returned is negative. -/
theorem copy_count_negative : ¬ReadsBytes largeGuest 0 (2 ^ 31) := by
  rw [readsBytes_iff largeGuest_lastPage]
  rintro (h | ⟨i, hi, hun⟩)
  · exact absurd h (by decide)
  · exact hun (by simpa using largeGuest_mapped hi)

end LearnKvm
