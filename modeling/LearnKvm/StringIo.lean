import LearnKvm.ExitProtocol
import LearnKvm.Translation

/-!
# String I/O of libkvm (`handle_io`, `translate`)

For a string instruction `handle_io` takes an element after the other from guest memory, or puts it there, through the
mapping `vm_mem` of the file of the module.  It asks for the translation of a page with KVM_TRANSLATE, remembers the last
one, and takes the bytes of an element to be consecutive in the mapping.  Behind the mapping it is not stopped; where the
mapping has no memory, the process is killed (`kvm_dev_nopage`).

`stringIo_iff` says when the elements are the bytes that KVM_TRANSLATE gives for their addresses, and when the registers
are those of the instruction at the end.
-/

namespace LearnKvm

namespace Libkvm

/-! ### The mapping -/

/-- The bytes from an address of the mapping on, as guest-physical addresses. -/
def bytesFrom (physical : BitVec 64) (size : Nat) : List (BitVec 64) :=
  (List.range size).map fun k => physical + BitVec.ofNat 64 k

/-- The bytes that the value of the round is in. -/
def touched (x : IoLoop) : List (BitVec 64) :=
  match valueAddr x with
  | some (.memory physical, _) => bytesFrom physical x.io.size
  | _ => []

/-- `kvm_dev_nopage` finds no page for a byte of the mapping. -/
def Faults (memory : BitVec 64) (kvm : Kvm) (b : BitVec 64) : Prop := b.toNat < memory.toNat ∧ gpaFrame kvm b = none

instance (memory : BitVec 64) (kvm : Kvm) (b : BitVec 64) : Decidable (Faults memory kvm b) :=
  inferInstanceAs (Decidable (_ ∧ _))

/-- A round of `handle_io` in a process with a mapping of `memory` bytes.  `none`: the process exits or is killed. -/
@[irreducible] def mappedRound (memory : BitVec 64) (cb : Callbacks) (x : IoLoop) : Option (IoLoop × Int) :=
  if ∃ b ∈ touched x, Faults memory x.vcpu.kvm b then none else ioRound cb x

def mappedLoop (memory : BitVec 64) (cb : Callbacks) : Nat → IoLoop → Option (IoLoop × Int)
  | 0, x => some (x, 0)
  | n + 1, x =>
    match mappedRound memory cb x with
    | none => none
    | some (x, r) => if r = 0 then mappedLoop memory cb n x else some (x, r)

/-- `handle_io` in such a process. -/
def mappedIo (memory : BitVec 64) (cb : Callbacks) (s : MmioVcpu) (run : RunStruct) : Option Handled :=
  let rounds := if run.io.rep then run.io.count.toNat else 1
  (mappedLoop memory cb rounds (.init s run)).map fun (x, r) =>
    let s := x.vcpu.setVcpu (kvmSetRegs x.vcpu.toKvmVcpu x.regs)
    ⟨s, { run with io := x.io, emulated := if r = 0 then true else run.emulated }, x.log, r⟩

/-! ### What the instruction asks for -/

/-- The byte has memory. -/
def Backed (memory : BitVec 64) (kvm : Kvm) (b : BitVec 64) : Prop :=
  b ≠ unmappedGva ∧ b.toNat < memory.toNat ∧ (gpaFrame kvm b).isSome

instance (memory : BitVec 64) (kvm : Kvm) (b : BitVec 64) : Decidable (Backed memory kvm b) :=
  inferInstanceAs (Decidable (_ ∧ _ ∧ _))

/-- The bytes that KVM_TRANSLATE gives for the addresses of the element. -/
def translatedBytes (x : IoLoop) : List (BitVec 64) :=
  (List.range x.io.size).map fun k => mmuGvaToGpa x.vcpu.toVcpu (x.io.address + BitVec.ofNat 64 k)

/-- The element has memory everywhere. -/
def ElementBacked (memory : BitVec 64) (x : IoLoop) : Prop := ∀ b ∈ translatedBytes x, Backed memory x.vcpu.kvm b

end Libkvm

namespace IoInsn

/-- The number of elements. -/
def elements (i : IoInsn) (run : RunStruct) : Nat := if i.rep then run.io.count.toNat else 1

/-- The pointer register. -/
def pointer (i : IoInsn) : Fin 16 := if i.direction = .input then 7 else 6

/-- A register after a write of the part that the address size selects: one of 32 bits clears the upper half. -/
def written (i : IoInsn) (old new : BitVec 64) : BitVec 64 :=
  if i.addrBytes = 4 then @lowBytes .x86_64 4 new else @setLow .x86_64 i.addrBytes old new

/-- Outside the part that the address size selects the value is what it should be. -/
def Fits (i : IoInsn) (old new : BitVec 64) : Prop :=
  if i.addrBytes = 4 then new >>> 32 = 0 else new >>> (8 * i.addrBytes) = old >>> (8 * i.addrBytes)

/-- The registers after `n` elements. -/
def cpuRegs (i : IoInsn) (n : Nat) (regs : KvmRegs) : KvmRegs :=
  if n = 0 then regs
  else
    let old := regs.regs i.pointer
    let moved := Function.update regs.regs i.pointer (i.written old (old + BitVec.ofNat 64 n * i.delta))
    { regs with regs :=
        if i.rep then Function.update moved 1 (i.written (regs.regs 1) (regs.regs 1 - BitVec.ofNat 64 n)) else moved }

end IoInsn

namespace Libkvm

variable {memory : BitVec 64} {i : IoInsn} {cb : Callbacks} {x y : IoLoop}

/-- The round is that of the instruction: it touches the bytes of the element, or the process fails. -/
structure RoundRight (memory : BitVec 64) (cb : Callbacks) (x : IoLoop) : Prop where
  inside : ∀ b ∈ touched x, b.toNat < memory.toNat
  element : ElementBacked memory x → touched x = translatedBytes x ∧ (mappedRound memory cb x).isSome
  fails : ¬ElementBacked memory x → mappedRound memory cb x = none

structure StringIoRight (memory : BitVec 64) (i : IoInsn) (cb : Callbacks) (s : MmioVcpu) (run : RunStruct) : Prop where
  rounds : ∀ k < i.elements run, ∀ x, mappedLoop memory cb k (.init s run) = some (x, 0) →
    x.io.address = run.io.address + BitVec.ofNat 64 k * i.delta ∧ RoundRight memory cb x
  done : ∀ h, mappedIo memory cb s run = some h → h.ret = 0 ∧ h.run.emulated = true ∧
    h.log.map DeviceAccess.effect = List.replicate (i.elements run) i.effect ∧
    kvmGetRegs h.vcpu.toKvmVcpu = i.cpuRegs (i.elements run) (kvmGetRegs s.toKvmVcpu)

/-! ### When it is -/

def page (x : IoLoop) : BitVec 64 := x.io.address &&& pageMask

def offset (x : IoLoop) : BitVec 64 := x.io.address &&& ~~~pageMask

/-- KVM_TRANSLATE gives the frame for the page. -/
def TranslatesTo (s : Vcpu) (page frame : BitVec 64) : Prop := frame = mmuGvaToGpa s page ∧ frame ≠ unmappedGva

/-- The frame that is taken for the page of the element: the one that is remembered, or else the current one. -/
def FrameTaken (x : IoLoop) (frame : BitVec 64) : Prop :=
  x.tr = some (page x, frame) ∨ ((∀ p, x.tr ≠ some (page x, p)) ∧ TranslatesTo x.vcpu.toVcpu (page x) frame)

/-- The frame does for the element.  Its bytes lie in the mapping.  If all have memory, the frame is the current one, and
that behind it belongs to the next page if the element goes on there.  If one has no memory, the process is killed, and so
the element must lack memory too. -/
structure FrameGood (memory : BitVec 64) (x : IoLoop) (frame : BitVec 64) : Prop where
  inside : ∀ b ∈ bytesFrom (frame + offset x) x.io.size, b.toNat < memory.toNat
  current : (∀ b ∈ bytesFrom (frame + offset x) x.io.size, gpaFrame x.vcpu.kvm b ≠ none) →
    TranslatesTo x.vcpu.toVcpu (page x) frame ∧
      (4096 < (offset x).toNat + x.io.size → TranslatesTo x.vcpu.toVcpu (page x + 4096) (frame + 4096))
  killed : (∃ b ∈ bytesFrom (frame + offset x) x.io.size, gpaFrame x.vcpu.kvm b = none) → ¬ElementBacked memory x

/-- The registers of the instruction do not leave the part that the address size selects. -/
structure RegsFit (i : IoInsn) (n : Nat) (regs : KvmRegs) : Prop where
  pointer : n ≠ 0 → i.Fits (regs.regs i.pointer) (regs.regs i.pointer + BitVec.ofNat 64 n * i.delta)
  counter : n ≠ 0 → i.rep = true → i.Fits (regs.regs 1) (regs.regs 1 - BitVec.ofNat 64 n)

/-! ### Addresses in a page -/

/-- The page of an address is translated, and the rest is added. -/
theorem mmuGvaToGpa_page (s : Vcpu) (a : BitVec 64) : mmuGvaToGpa s a =
    if mmuGvaToGpa s (a &&& pageMask) = unmappedGva then unmappedGva
    else mmuGvaToGpa s (a &&& pageMask) + (a &&& ~~~pageMask) := by
  have hsplit : (a &&& pageMask).toNat + (a &&& ~~~pageMask).toNat = a.toNat := by
    rw [toNat_and_pageMask, show ~~~pageMask = pageSize - 1#64 from BitVec.not_not, toNat_and_pageOffset]
    omega
  have hpaging : ∀ pt : PtType, gvaToGpa pt s a = if gvaToGpa pt s (a &&& pageMask) = unmappedGva then unmappedGva
      else gvaToGpa pt s (a &&& pageMask) + (a &&& ~~~pageMask) := fun pt => by
    have hsame : SamePage (a &&& pageMask) a := fun k hk => by
      rw [BitVec.hasBit_and, hasBit_pageMask]
      by_cases h64 : k < 64
      · simp [hk, h64]
      · rw [BitVec.hasBit_of_ge a (by omega), Bool.false_and]
    have hpte : guestPte pt s (a &&& pageMask) 1 = guestPte pt s a 1 := by
      unfold guestPte
      rw [hsame.guestWalk_eq s]
    by_cases hp : (guestPte pt s a 1).hasBit 0 = true
    · have hp' := hpte ▸ hp
      rw [if_neg (gvaToGpa_of_present hp')]
      have hframe : gfnOf (gvaToGpa pt s (a &&& pageMask)) = gfnOf (gvaToGpa pt s a) := by
        rw [gfnOf_gvaToGpa hp, gfnOf_gvaToGpa hp', hsame.gfnOf_guestGaddr]
      have h1 := congrArg BitVec.toNat (gvaToGpa_offset hp)
      have h2 := congrArg BitVec.toNat (gvaToGpa_offset hp')
      rw [toNat_and_pageOffset, toNat_and_pageOffset] at h1 h2
      rw [toNat_and_pageMask] at h2
      rw [gfnOf_eq, gfnOf_eq] at hframe
      apply BitVec.eq_of_toNat_eq
      have hlt := (gvaToGpa pt s a).isLt
      rw [BitVec.toNat_add, show ~~~pageMask = pageSize - 1#64 from BitVec.not_not, toNat_and_pageOffset]
      omega
    · have hp := Bool.eq_false_iff.2 hp
      rw [gvaToGpa_of_not_present hp, gvaToGpa_of_not_present (hpte ▸ hp), if_pos rfl]
  unfold mmuGvaToGpa
  cases s.mmu.ops with
  | nonpaging =>
    have hne : a &&& pageMask ≠ unmappedGva := fun h => by
      have hlast := congrArg BitVec.toNat h
      rw [toNat_and_pageMask, show unmappedGva.toNat = 2 ^ 64 - 1 from rfl] at hlast
      omega
    dsimp only
    rw [if_neg hne]
    apply BitVec.eq_of_toNat_eq
    rw [BitVec.toNat_add, hsplit, Nat.mod_eq_of_lt a.isLt]
  | paging64 => exact hpaging .pt64
  | paging32 => exact hpaging .pt32

theorem toNat_page (x : IoLoop) : (page x).toNat = x.io.address.toNat / 4096 * 4096 := toNat_and_pageMask _

theorem toNat_not_pageMask (a : BitVec 64) : (a &&& ~~~pageMask).toNat = a.toNat % 4096 := by
  rw [show ~~~pageMask = pageSize - 1#64 from BitVec.not_not, toNat_and_pageOffset]

theorem toNat_offset (x : IoLoop) : (offset x).toNat = x.io.address.toNat % 4096 := toNat_not_pageMask x.io.address

/-- A byte of the element in its first page. -/
theorem translated_first {k : Nat} (h : (offset x).toNat + k < 4096) :
    mmuGvaToGpa x.vcpu.toVcpu (x.io.address + BitVec.ofNat 64 k) =
      if mmuGvaToGpa x.vcpu.toVcpu (page x) = unmappedGva then unmappedGva
      else mmuGvaToGpa x.vcpu.toVcpu (page x) + offset x + BitVec.ofNat 64 k := by
  have hoff := toNat_offset x
  have hlt := x.io.address.isLt
  have hsum : (x.io.address + BitVec.ofNat 64 k).toNat = x.io.address.toNat + k := by
    rw [BitVec.toNat_add, BitVec.toNat_ofNat]
    omega
  have hpage : (x.io.address + BitVec.ofNat 64 k) &&& pageMask = page x := by
    apply BitVec.eq_of_toNat_eq
    rw [toNat_and_pageMask, hsum, toNat_page]
    omega
  have hrest : (x.io.address + BitVec.ofNat 64 k) &&& ~~~pageMask = offset x + BitVec.ofNat 64 k := by
    apply BitVec.eq_of_toNat_eq
    rw [toNat_not_pageMask, hsum, BitVec.toNat_add, hoff, BitVec.toNat_ofNat]
    omega
  rw [mmuGvaToGpa_page, hpage, hrest, BitVec.add_assoc]

/-- A byte of the element in the next page. -/
theorem translated_next {k : Nat} (h : 4096 ≤ (offset x).toNat + k) (hk : k < 4096) :
    mmuGvaToGpa x.vcpu.toVcpu (x.io.address + BitVec.ofNat 64 k) =
      if mmuGvaToGpa x.vcpu.toVcpu (page x + 4096) = unmappedGva then unmappedGva
      else mmuGvaToGpa x.vcpu.toVcpu (page x + 4096) + BitVec.ofNat 64 ((offset x).toNat + k - 4096) := by
  have hoff := toNat_offset x
  have hlt := x.io.address.isLt
  have hnext : ((4096 : BitVec 64)).toNat = 4096 := rfl
  have hpage : (x.io.address + BitVec.ofNat 64 k) &&& pageMask = page x + 4096 := by
    apply BitVec.eq_of_toNat_eq
    rw [toNat_and_pageMask, BitVec.toNat_add, BitVec.toNat_ofNat, BitVec.toNat_add, toNat_page, hnext]
    omega
  have hrest : (x.io.address + BitVec.ofNat 64 k) &&& ~~~pageMask = BitVec.ofNat 64 ((offset x).toNat + k - 4096) := by
    apply BitVec.eq_of_toNat_eq
    rw [toNat_not_pageMask, BitVec.toNat_add, BitVec.toNat_ofNat, BitVec.toNat_ofNat]
    omega
  rw [mmuGvaToGpa_page, hpage, hrest]

/-! ### A round -/

theorem translatePage_iff (x : IoLoop) (frame : BitVec 64) : translatePage x = some frame ↔ FrameTaken x frame := by
  have hcurrent : (if mmuGvaToGpa x.vcpu.toVcpu (page x) = unmappedGva then none
      else some (mmuGvaToGpa x.vcpu.toVcpu (page x))) = some frame ↔ TranslatesTo x.vcpu.toVcpu (page x) frame := by
    split_ifs with hun
    · exact iff_of_false (fun h => by cases h) fun h => h.2 (h.1.trans hun)
    · rw [Option.some_inj]
      exact ⟨fun h => ⟨h.symm, h ▸ hun⟩, fun h => h.1.symm⟩
  unfold translatePage FrameTaken
  cases htr : x.tr with
  | none =>
    refine hcurrent.trans ⟨fun h => Or.inr ⟨fun p hp => (by cases hp), h⟩, ?_⟩
    rintro (h | ⟨-, h⟩)
    · cases h
    · exact h
  | some entry =>
    obtain ⟨linear, known⟩ := entry
    by_cases hpage : linear = page x
    · refine (iff_of_eq (congrArg (· = some frame) (if_pos hpage))).trans ⟨fun h => Or.inl ?_, ?_⟩
      · rw [Option.some_inj] at h
        rw [hpage, h]
      · rintro (h | ⟨h, -⟩)
        · cases h
          rfl
        · exact absurd (by rw [hpage]) (h known)
    · refine (iff_of_eq (congrArg (· = some frame) (if_neg hpage))).trans (hcurrent.trans ⟨fun h => Or.inr ⟨?_, h⟩, ?_⟩)
      · intro p hp
        cases hp
        exact hpage rfl
      · rintro (h | ⟨-, h⟩)
        · cases h
          exact absurd rfl hpage
        · exact h

theorem valueAddr_string (hstring : x.io.string = true) : valueAddr x = (translatePage x).map fun frame =>
    (.memory (frame + offset x), { x with tr := some (page x, frame) }) := by
  unfold valueAddr
  rw [hstring]
  rfl

theorem touched_of_taken (hstring : x.io.string = true) {frame : BitVec 64} (h : FrameTaken x frame) :
    touched x = bytesFrom (frame + offset x) x.io.size := by
  unfold touched
  rw [valueAddr_string hstring, (translatePage_iff x frame).2 h]
  rfl

theorem touched_of_none (hstring : x.io.string = true) (h : translatePage x = none) : touched x = [] := by
  unfold touched
  rw [valueAddr_string hstring, h]
  rfl

theorem ioRound_isSome (cb : Callbacks) (hstring : x.io.string = true) (hsize : x.io.size = 1 ∨ x.io.size = 2 ∨ x.io.size = 4) :
    (ioRound cb x).isSome = (translatePage x).isSome := by
  unfold ioRound
  rw [if_pos hsize, valueAddr_string hstring, Option.isSome_map, Option.isSome_map]

theorem mem_bytesFrom {physical : BitVec 64} {size k : Nat} (h : k < size) :
    physical + BitVec.ofNat 64 k ∈ bytesFrom physical size := List.mem_map_of_mem (List.mem_range.2 h)

/-- The bytes of the mapping are those of the element just if the frames are those of its pages. -/
theorem bytesFrom_eq_translated_iff {frame : BitVec 64} (hsize : x.io.size = 1 ∨ x.io.size = 2 ∨ x.io.size = 4)
    (hinside : ∀ b ∈ bytesFrom (frame + offset x) x.io.size, b.toNat < memory.toNat) :
    bytesFrom (frame + offset x) x.io.size = translatedBytes x ↔ TranslatesTo x.vcpu.toVcpu (page x) frame ∧
      (4096 < (offset x).toNat + x.io.size → TranslatesTo x.vcpu.toVcpu (page x + 4096) (frame + 4096)) := by
  have hoff := toNat_offset x
  have hpagesize : (4096 : BitVec 64).toNat = 4096 := rfl
  have hmapped : ∀ k < x.io.size, frame + offset x + BitVec.ofNat 64 k ≠ unmappedGva := fun k hk h => by
    have hlt := hinside _ (mem_bytesFrom hk)
    have hmemory := memory.isLt
    rw [h, show unmappedGva.toNat = 2 ^ 64 - 1 from rfl] at hlt
    omega
  have hcross : ∀ k, 4096 ≤ (offset x).toNat + k → frame + offset x + BitVec.ofNat 64 k =
      frame + 4096 + BitVec.ofNat 64 ((offset x).toNat + k - 4096) := fun k hk => by
    rw [BitVec.add_assoc, BitVec.add_assoc]
    refine congrArg (frame + ·) (BitVec.eq_of_toNat_eq ?_)
    rw [BitVec.toNat_add, BitVec.toNat_add, BitVec.toNat_ofNat, BitVec.toNat_ofNat, hpagesize]
    omega
  unfold bytesFrom translatedBytes
  rw [List.map_inj_left]
  constructor
  · intro h
    constructor
    · have hfirst := h 0 (List.mem_range.2 (by omega))
      rw [translated_first (by omega)] at hfirst
      split at hfirst
      · exact absurd hfirst (hmapped 0 (by omega))
      · rename_i hne
        have hframe := (BitVec.add_left_inj _).1 ((BitVec.add_left_inj _).1 hfirst)
        exact ⟨hframe, hframe ▸ hne⟩
    · intro hlong
      have hk : 4096 - (offset x).toNat < x.io.size := by omega
      have hnext := h (4096 - (offset x).toNat) (List.mem_range.2 hk)
      rw [translated_next (by omega) (by omega)] at hnext
      split at hnext
      · exact absurd hnext (hmapped _ hk)
      · rename_i hne
        rw [hcross _ (by omega)] at hnext
        have hframe := (BitVec.add_left_inj _).1 hnext
        exact ⟨hframe, hframe ▸ hne⟩
  · rintro ⟨hpage, hnext⟩ k hk
    have hk := List.mem_range.1 hk
    by_cases hlow : (offset x).toNat + k < 4096
    · rw [translated_first hlow, ← hpage.1, if_neg hpage.2]
    · obtain ⟨hnext, hne⟩ := hnext (by omega)
      rw [translated_next (by omega) (by omega), ← hnext, if_neg hne]
      exact hcross k (by omega)

theorem elementBacked_first (h : ElementBacked memory x) (hsize : 0 < x.io.size) :
    mmuGvaToGpa x.vcpu.toVcpu (page x) ≠ unmappedGva := by
  intro hun
  have hoff := toNat_offset x
  have hfirst := h _ (List.mem_map_of_mem (List.mem_range.2 hsize))
  rw [translated_first (by omega), if_pos hun] at hfirst
  exact hfirst.1 rfl

theorem frameTaken_of_mapped (h : mmuGvaToGpa x.vcpu.toVcpu (page x) ≠ unmappedGva) : ∃ frame, FrameTaken x frame := by
  by_cases hknown : ∃ p, x.tr = some (page x, p)
  · obtain ⟨p, hp⟩ := hknown
    exact ⟨p, Or.inl hp⟩
  · exact ⟨_, Or.inr ⟨fun p hp => hknown ⟨p, hp⟩, rfl, h⟩⟩

/-- A round goes right just if the frame that it takes does for the element. -/
theorem roundRight_iff (hstring : x.io.string = true) (hsize : x.io.size = 1 ∨ x.io.size = 2 ∨ x.io.size = 4) :
    RoundRight memory cb x ↔ ∀ frame, FrameTaken x frame → FrameGood memory x frame := by
  have hround := ioRound_isSome cb hstring hsize
  cases htaken : translatePage x with
  | none =>
    have hnever : ∀ frame, ¬FrameTaken x frame := fun frame h => by
      rw [(translatePage_iff x frame).2 h] at htaken
      cases htaken
    have htouched := touched_of_none hstring htaken
    rw [htaken] at hround
    have hlacks : ¬ElementBacked memory x := fun h => by
      obtain ⟨frame, hframe⟩ := frameTaken_of_mapped (elementBacked_first h (by omega))
      exact hnever frame hframe
    refine iff_of_true ⟨fun b hb => ?_, fun h => absurd h hlacks, fun _ => ?_⟩ fun frame h => absurd h (hnever frame)
    · rw [htouched] at hb
      cases hb
    · unfold mappedRound
      split
      · rfl
      · exact Option.not_isSome_iff_eq_none.1 (by rw [hround]; exact Bool.false_ne_true)
  | some frame =>
    have hframe := (translatePage_iff x frame).1 htaken
    have htouched := touched_of_taken hstring hframe
    rw [htaken] at hround
    have hall : (∀ f, FrameTaken x f → FrameGood memory x f) ↔ FrameGood memory x frame :=
      ⟨fun h => h frame hframe, fun h f hf => by
        have := (translatePage_iff x f).2 hf
        rw [htaken, Option.some_inj] at this
        exact this ▸ h⟩
    rw [hall]
    -- inside the mapping the process is killed just if a byte has no memory
    have hkilled : (∀ b ∈ touched x, b.toNat < memory.toNat) →
        (mappedRound memory cb x = none ↔ ∃ b ∈ touched x, gpaFrame x.vcpu.kvm b = none) := fun hinside => by
      unfold mappedRound
      split
      · rename_i hfault
        obtain ⟨b, hb, -, hnone⟩ := hfault
        exact iff_of_true rfl ⟨b, hb, hnone⟩
      · rename_i hfault
        refine iff_of_false (fun hnone => ?_) fun ⟨b, hb, hnone⟩ => hfault ⟨b, hb, hinside b hb, hnone⟩
        rw [hnone] at hround
        cases hround
    have hsome : (mappedRound memory cb x).isSome ↔ ¬mappedRound memory cb x = none := Option.isSome_iff_ne_none
    have hbacked : touched x = translatedBytes x → (∀ b ∈ touched x, b.toNat < memory.toNat) →
        (¬∃ b ∈ touched x, gpaFrame x.vcpu.kvm b = none) → ElementBacked memory x := fun heq hinside hnone b hb => by
      rw [← heq] at hb
      have hlt := hinside b hb
      refine ⟨fun hun => ?_, hlt, Option.isSome_iff_ne_none.2 fun h => hnone ⟨b, hb, h⟩⟩
      rw [hun, show unmappedGva.toNat = 2 ^ 64 - 1 from rfl] at hlt
      have := memory.isLt
      omega
    constructor
    · rintro ⟨hinside, helement, hfails⟩
      have hkill := hkilled hinside
      rw [htouched] at hinside hkill helement
      refine ⟨hinside, fun hmem => ?_, fun hnone hback => ?_⟩
      · have hnot : ¬∃ b ∈ bytesFrom (frame + offset x) x.io.size, gpaFrame x.vcpu.kvm b = none :=
          fun ⟨b, hb, hnone⟩ => hmem b hb hnone
        by_cases hback : ElementBacked memory x
        · exact (bytesFrom_eq_translated_iff hsize hinside).1 (helement hback).1
        · exact absurd (hkill.1 (hfails hback)) hnot
      · exact hsome.1 (helement hback).2 (hkill.2 hnone)
    · rintro ⟨hinside, hcurrent, hkill'⟩
      have hkill := hkilled (htouched ▸ hinside)
      refine ⟨htouched ▸ hinside, fun hback => ?_, fun hlacks => ?_⟩
      · have hnot : ¬∃ b ∈ touched x, gpaFrame x.vcpu.kvm b = none := fun h => hkill' (htouched ▸ h) hback
        refine ⟨?_, hsome.2 fun h => hnot (hkill.1 h)⟩
        rw [htouched] at hnot ⊢
        exact (bytesFrom_eq_translated_iff hsize hinside).2 (hcurrent fun b hb hnone => hnot ⟨b, hb, hnone⟩)
      · by_contra hround'
        have hnot := fun h => hround' (hkill.2 h)
        have heq : touched x = translatedBytes x := by
          rw [htouched] at hnot ⊢
          exact (bytesFrom_eq_translated_iff hsize hinside).2 (hcurrent fun b hb hnone => hnot ⟨b, hb, hnone⟩)
        exact hlacks (hbacked heq (htouched ▸ hinside) hnot)

/-! ### Rounds -/

/-- The registers of `handle_io` after an element. -/
def stepRegs (i : IoInsn) (regs : KvmRegs) : KvmRegs :=
  let moved := Function.update regs.regs i.pointer (regs.regs i.pointer + i.delta)
  { regs with regs := if i.rep then Function.update moved 1 (moved 1 - 1) else moved }

theorem advance_string (hio : i.Describes x.io) (hstring : i.string = true) :
    (advance x).regs = stepRegs i x.regs ∧ (advance x).io.address = x.io.address + i.delta := by
  obtain ⟨hdir, hsize, hstr, hdown, hrep, -⟩ := hio
  have hdelta : IoExit.delta x.io = i.delta := by
    unfold IoExit.delta IoInsn.delta
    rw [hsize, hdown]
  unfold advance
  rw [if_pos (hstr.trans hstring)]
  dsimp only
  rw [hdelta, hdir, hrep]
  unfold stepRegs
  cases i.rep <;> exact ⟨rfl, rfl⟩

/-- An element moves the address and the registers on. -/
theorem ioRound_string {r : Int} (hio : i.Describes x.io) (hstring : i.string = true) (h : ioRound cb x = some (y, r)) :
    y.regs = stepRegs i x.regs ∧ y.io.address = x.io.address + i.delta := by
  unfold ioRound at h
  split at h
  · rw [valueAddr_string (hio.string.trans hstring), Option.map_map] at h
    obtain ⟨frame, -, he⟩ := Option.map_eq_some_iff.1 h
    cases he
    let access := ioAccess { x with tr := some (page x, frame) } (.memory (frame + offset x))
    let z : IoLoop := { x with tr := some (page x, frame), log := x.log ++ [access] }
    obtain ⟨hio2, -, -, -, hregs2⟩ := storeInput_spec z (cb.device x.log access).value (.memory (frame + offset x))
    have hmoved := @advance_string i (storeInput z (cb.device x.log access).value (.memory (frame + offset x)))
      (hio2.symm ▸ hio) hstring
    rw [hio2, hregs2 ⟨_, rfl⟩] at hmoved
    exact hmoved
  · cases h

/-! ### What a round reads and writes -/

theorem bytesFrom_succ (physical : BitVec 64) (n : Nat) :
    bytesFrom physical (n + 1) = physical :: bytesFrom (physical + 1) n := by
  unfold bytesFrom
  rw [List.range_succ_eq_map, List.map_cons, List.map_map, BitVec.ofNat_eq_ofNat, BitVec.add_zero]
  refine congrArg (physical :: ·) (List.map_congr_left fun k _ => ?_)
  show physical + BitVec.ofNat 64 (k + 1) = _
  rw [BitVec.ofNat_add, BitVec.add_comm (BitVec.ofNat 64 k), BitVec.add_assoc]

/-- A store changes the bytes from its address on. -/
theorem store_outside (s : Vcpu) (physical val : BitVec 64) (n : Nat) {a : BitVec 64}
    (ha : ∀ b ∈ bytesFrom physical n, gpaToHpa s.kvm b ≠ a) : (store s physical val n).mem a = s.mem a := by
  induction n generalizing s physical val with
  | zero => rfl
  | succ n ih =>
    rw [bytesFrom_succ] at ha
    refine (ih { s with mem := Function.update s.mem (gpaToHpa s.kvm physical) (val.setWidth 8) } (physical + 1) (val >>> 8)
      fun b hb => ha b (List.mem_cons_of_mem _ hb)).trans ?_
    exact Function.update_of_ne (ha physical List.mem_cons_self).symm _ _

/-- A load reads the bytes from its address on. -/
theorem load_congr (s t : Vcpu) (physical : BitVec 64) (n : Nat)
    (h : ∀ b ∈ bytesFrom physical n, s.mem (gpaToHpa s.kvm b) = t.mem (gpaToHpa t.kvm b)) :
    load s physical n = load t physical n := by
  induction n generalizing physical with
  | zero => rfl
  | succ n ih =>
    rw [bytesFrom_succ] at h
    unfold load
    rw [h physical List.mem_cons_self, ih _ fun b hb => h b (List.mem_cons_of_mem _ hb)]

/-- Memory stays the same where a round touches nothing. -/
theorem ioRound_outside {r : Int} (hstring : x.io.string = true) (h : ioRound cb x = some (y, r)) {a : BitVec 64}
    (ha : ∀ b ∈ touched x, gpaToHpa x.vcpu.kvm b ≠ a) : y.vcpu.mem a = x.vcpu.mem a := by
  unfold ioRound at h
  split at h
  · rw [valueAddr_string hstring, Option.map_map] at h
    obtain ⟨frame, hframe, he⟩ := Option.map_eq_some_iff.1 h
    rw [touched_of_taken hstring ((translatePage_iff x frame).1 hframe)] at ha
    have hvcpu : ∀ z : IoLoop, (advance z).vcpu = z.vcpu := fun z => by
      unfold advance
      split
      · dsimp only
        split <;> rfl
      · rfl
    cases he
    refine (congrArg (fun v : MmioVcpu => v.mem a) (hvcpu _)).trans ?_
    unfold storeInput
    split
    · exact store_outside x.vcpu.toVcpu _ _ _ ha
    · rfl
  · cases h

/-! ### Runs -/

/-- `n` elements of `handle_io`. -/
def movedRegs (i : IoInsn) (n : Nat) (regs : KvmRegs) : KvmRegs :=
  let moved := Function.update regs.regs i.pointer (regs.regs i.pointer + BitVec.ofNat 64 n * i.delta)
  { regs with regs := if i.rep then Function.update moved 1 (regs.regs 1 - BitVec.ofNat 64 n) else moved }

theorem pointer_ne (i : IoInsn) : i.pointer ≠ 1 := by
  unfold IoInsn.pointer
  split <;> decide

theorem movedRegs_zero (i : IoInsn) (regs : KvmRegs) : movedRegs i 0 regs = regs := by
  unfold movedRegs
  dsimp only
  rw [BitVec.zero_mul, BitVec.add_zero, BitVec.sub_zero, Function.update_eq_self, Function.update_eq_self, ite_self]

theorem movedRegs_succ (i : IoInsn) (n : Nat) (regs : KvmRegs) :
    movedRegs i (n + 1) regs = stepRegs i (movedRegs i n regs) := by
  have hne := pointer_ne i
  have hpointer : ∀ v : BitVec 64, v + BitVec.ofNat 64 (n + 1) * i.delta = v + BitVec.ofNat 64 n * i.delta + i.delta :=
    fun v => by rw [BitVec.ofNat_add, BitVec.add_mul, BitVec.one_mul, BitVec.add_assoc]
  have hcounter : ∀ v : BitVec 64, v - BitVec.ofNat 64 (n + 1) = v - BitVec.ofNat 64 n - 1 := fun v => by
    rw [BitVec.ofNat_add]
    exact (BitVec.sub_sub _ _ _).symm
  unfold movedRegs stepRegs
  dsimp only
  refine congrArg (fun f => KvmRegs.mk f regs.rip regs.rflags) (funext fun r => ?_)
  by_cases h1 : r = 1
  · subst h1
    cases i.rep <;> simp [Function.update_of_ne hne.symm, hcounter]
  · by_cases hr : r = i.pointer
    · subst hr
      cases i.rep <;> simp [Function.update_of_ne hne, hpointer]
    · cases i.rep <;> simp [Function.update_of_ne h1, Function.update_of_ne hr]

/-- What the rounds before round `k` leave. -/
structure Reached (i : IoInsn) (x : IoLoop) (k : Nat) (y : IoLoop) : Prop where
  rounds : Rounds i x y k
  regs : y.regs = movedRegs i k x.regs
  address : y.io.address = x.io.address + BitVec.ofNat 64 k * i.delta

/-- The callbacks return 0. -/
def ReturnsZero (cb : Callbacks) : Prop := ∀ log access, (cb.device log access).ret = 0

theorem mappedRound_ioRound {p : IoLoop × Int} (h : mappedRound memory cb x = some p) : ioRound cb x = some p := by
  unfold mappedRound at h
  split at h
  · cases h
  · exact h

theorem mappedRound_ret {r : Int} (hcb : ReturnsZero cb) (h : mappedRound memory cb x = some (y, r)) : r = 0 := by
  obtain ⟨addr, x1, -, hr⟩ := ioRound_ret (mappedRound_ioRound h)
  exact hr.trans (hcb _ _)

theorem mappedLoop_of_none (n : Nat) (h : mappedRound memory cb x = none) : mappedLoop memory cb (n + 1) x = none := by
  rw [mappedLoop, h]

theorem mappedLoop_of_round (n : Nat) (h : mappedRound memory cb x = some (y, 0)) :
    mappedLoop memory cb (n + 1) x = mappedLoop memory cb n y := by
  rw [mappedLoop, h]
  exact if_pos rfl

theorem mappedLoop_succ (hcb : ReturnsZero cb) (n : Nat) (x : IoLoop) : mappedLoop memory cb (n + 1) x =
    (mappedLoop memory cb n x).bind fun p => mappedRound memory cb p.1 := by
  induction n generalizing x with
  | zero =>
    cases hround : mappedRound memory cb x with
    | none => exact (mappedLoop_of_none 0 hround).trans hround.symm
    | some p =>
      obtain ⟨y, r⟩ := p
      have hr := mappedRound_ret hcb hround
      subst hr
      exact (mappedLoop_of_round 0 hround).trans hround.symm
  | succ n ih =>
    cases hround : mappedRound memory cb x with
    | none => rw [mappedLoop_of_none _ hround, mappedLoop_of_none _ hround, Option.bind_none]
    | some p =>
      obtain ⟨y, r⟩ := p
      have hr := mappedRound_ret hcb hround
      subst hr
      rw [mappedLoop_of_round _ hround, mappedLoop_of_round _ hround, ih]

theorem mappedLoop_reached (hcb : ReturnsZero cb) (hio : i.Describes x.io) (hstring : i.string = true) {n : Nat} {r : Int}
    (h : mappedLoop memory cb n x = some (y, r)) : r = 0 ∧ Reached i x n y := by
  induction n generalizing y r with
  | zero =>
    cases h
    refine ⟨rfl, .refl hio, (movedRegs_zero i x.regs).symm, ?_⟩
    rw [BitVec.zero_mul, BitVec.add_zero]
  | succ n ih =>
    rw [mappedLoop_succ hcb] at h
    obtain ⟨⟨z, r'⟩, hz, hround⟩ := Option.bind_eq_some_iff.1 h
    obtain ⟨-, hreached⟩ := ih hz
    have hdescribes := hreached.rounds.describes
    obtain ⟨hregs, haddress⟩ := ioRound_string hdescribes hstring (mappedRound_ioRound hround)
    refine ⟨mappedRound_ret hcb hround, hreached.rounds.trans (ioRound_spec hdescribes (mappedRound_ioRound hround)), ?_, ?_⟩
    · rw [hregs, hreached.regs, movedRegs_succ]
    · rw [haddress, hreached.address, BitVec.ofNat_add, BitVec.add_mul, BitVec.one_mul, BitVec.add_assoc]

/-- The loop ends just if every round does. -/
theorem mappedLoop_isSome_iff (hcb : ReturnsZero cb) (hio : i.Describes x.io) (hstring : i.string = true) (n : Nat) :
    (mappedLoop memory cb n x).isSome ↔
      ∀ k < n, ∀ y, mappedLoop memory cb k x = some (y, 0) → (mappedRound memory cb y).isSome := by
  induction n with
  | zero => exact iff_of_true rfl fun k hk => absurd hk (Nat.not_lt_zero k)
  | succ n ih =>
    rw [mappedLoop_succ hcb]
    constructor
    · intro h k hk y hy
      obtain ⟨p, hp⟩ := Option.isSome_iff_exists.1 h
      obtain ⟨⟨z, r⟩, hz, hround⟩ := Option.bind_eq_some_iff.1 hp
      rcases Nat.lt_succ_iff_lt_or_eq.1 hk with hlt | rfl
      · exact ih.1 (by rw [hz]; rfl) k hlt y hy
      · rw [hz] at hy
        cases hy
        rw [hround]
        rfl
    · intro h
      obtain ⟨⟨z, r⟩, hz⟩ := Option.isSome_iff_exists.1 (ih.2 fun k hk => h k (by omega))
      have hr := (mappedLoop_reached hcb hio hstring hz).1
      subst hr
      rw [hz]
      exact h n (Nat.lt_succ_self n) z hz

/-! ### Registers -/

/-- Words agree above a position. -/
theorem ushiftRight_eq_iff (a b : BitVec 64) (n : Nat) : a >>> n = b >>> n ↔ ∀ k, n ≤ k → a.hasBit k = b.hasBit k := by
  constructor
  · intro h k hk
    have hbit := congrArg (BitVec.hasBit · (k - n)) h
    simp only [BitVec.hasBit_ushiftRight, show n + (k - n) = k by omega] at hbit
    exact hbit
  · intro h
    apply BitVec.eq_of_hasBit
    intro k _
    rw [BitVec.hasBit_ushiftRight, BitVec.hasBit_ushiftRight]
    exact h _ (by omega)

theorem written_eq_iff (i : IoInsn) (old new : BitVec 64) : new = i.written old new ↔ i.Fits old new := by
  have hlow : ∀ (n : Nat) (above w : BitVec 64),
      (∀ k, w.hasBit k = if k < n then new.hasBit k else above.hasBit k) →
      (new = w ↔ ∀ k, n ≤ k → new.hasBit k = above.hasBit k) := fun n above w hw => by
    constructor
    · intro h k hk
      have hbit := hw k
      rw [if_neg (by omega)] at hbit
      rw [← hbit, ← h]
    · intro h
      apply BitVec.eq_of_hasBit
      intro k _
      rw [hw]
      split
      · rfl
      · exact h k (by omega)
  unfold IoInsn.Fits
  by_cases h4 : i.addrBytes = 4
  · have hwritten : i.written old new = @lowBytes .x86_64 4 new := if_pos h4
    rw [if_pos h4]
    refine (hlow 32 0 _ fun k => ?_).trans (ushiftRight_eq_iff new 0 32).symm
    rw [hwritten]
    refine (@hasBit_lowBytes .x86_64 4 new k).trans ?_
    by_cases hk : k < 32
    · rw [decide_eq_true (show k < 8 * 4 from hk), Bool.and_true, if_pos hk]
      rfl
    · rw [decide_eq_false (show ¬k < 8 * 4 from hk), Bool.and_false, if_neg hk]
      exact (BitVec.hasBit_zero k).symm
  · have hwritten : i.written old new = @setLow .x86_64 i.addrBytes old new := if_neg h4
    rw [if_neg h4, hwritten]
    exact (hlow _ old _ fun k => @hasBit_setLow .x86_64 i.addrBytes old new k).trans (ushiftRight_eq_iff new old _).symm

theorem movedRegs_eq_cpuRegs_iff (i : IoInsn) (n : Nat) (regs : KvmRegs) :
    movedRegs i n regs = i.cpuRegs n regs ↔ RegsFit i n regs := by
  have hne := pointer_ne i
  by_cases hn : n = 0
  · subst hn
    exact iff_of_true (movedRegs_zero i regs) ⟨fun h => absurd rfl h, fun h => absurd rfl h⟩
  unfold movedRegs IoInsn.cpuRegs
  rw [if_neg hn]
  dsimp only
  constructor
  · intro h
    have hregs := congrFun (congrArg KvmRegs.regs h)
    dsimp only at hregs
    refine ⟨fun _ => (written_eq_iff i _ _).1 ?_, fun _ hrep => (written_eq_iff i _ _).1 ?_⟩
    · have hpointer := hregs i.pointer
      cases hrep : i.rep <;> simpa [hrep, Function.update_of_ne hne] using hpointer
    · have hcounter := hregs 1
      simpa [hrep] using hcounter
  · rintro ⟨hpointer, hcounter⟩
    rw [← (written_eq_iff i _ _).2 (hpointer hn)]
    cases hrep : i.rep with
    | false => rfl
    | true => rw [← (written_eq_iff i _ _).2 (hcounter hn hrep)]

/-- **When string I/O is done right.**  Every frame that a round takes does for its element, and, if all elements have
memory, the registers stay in the part that the address size selects. -/
theorem stringIo_iff {s : MmioVcpu} {run : RunStruct} (hcb : ReturnsZero cb) (hio : i.Describes run.io)
    (hstring : i.string = true) : StringIoRight memory i cb s run ↔
      (∀ k < i.elements run, ∀ x, mappedLoop memory cb k (.init s run) = some (x, 0) →
        ∀ frame, FrameTaken x frame → FrameGood memory x frame) ∧
      ((∀ k < i.elements run, ∀ x, mappedLoop memory cb k (.init s run) = some (x, 0) → ElementBacked memory x) →
        RegsFit i (i.elements run) (kvmGetRegs s.toKvmVcpu)) := by
  have hinit : i.Describes (IoLoop.init s run).io := hio
  have hround : ∀ {k x}, mappedLoop memory cb k (.init s run) = some (x, 0) →
      (RoundRight memory cb x ↔ ∀ frame, FrameTaken x frame → FrameGood memory x frame) := fun hx => by
    have hdescribes := (mappedLoop_reached hcb hinit hstring hx).2.rounds.describes
    exact roundRight_iff (hdescribes.string.trans hstring) (hdescribes.size ▸ i.size_ok)
  have hcount : (if run.io.rep then run.io.count.toNat else 1) = i.elements run := by
    unfold IoInsn.elements
    rw [hio.rep]
  constructor
  · rintro ⟨hrounds, hdone⟩
    refine ⟨fun k hk x hx => (hround hx).1 (hrounds k hk x hx).2, fun hbacked => ?_⟩
    obtain ⟨⟨y, r⟩, hy⟩ := Option.isSome_iff_exists.1 ((mappedLoop_isSome_iff hcb hinit hstring (i.elements run)).2
      fun k hk x hx => ((hrounds k hk x hx).2.element (hbacked k hk x hx)).2)
    obtain ⟨hr, hreached⟩ := mappedLoop_reached hcb hinit hstring hy
    have hrun : mappedIo memory cb s run = some ⟨y.vcpu.setVcpu (kvmSetRegs y.vcpu.toKvmVcpu y.regs),
        { run with io := y.io, emulated := if r = 0 then true else run.emulated }, y.log, r⟩ := by
      unfold mappedIo
      dsimp only
      rw [hcount, hy]
      rfl
    have hregs := (hdone _ hrun).2.2.2
    rw [show (y.vcpu.setVcpu (kvmSetRegs y.vcpu.toKvmVcpu y.regs)).toKvmVcpu = kvmSetRegs y.vcpu.toKvmVcpu y.regs from rfl,
      kvmGetRegs_kvmSetRegs, hreached.regs] at hregs
    exact (movedRegs_eq_cpuRegs_iff i _ _).1 hregs
  · rintro ⟨hgood, hfit⟩
    have hrounds : ∀ k < i.elements run, ∀ x, mappedLoop memory cb k (.init s run) = some (x, 0) →
        RoundRight memory cb x := fun k hk x hx => (hround hx).2 (hgood k hk x hx)
    refine ⟨fun k hk x hx => ⟨(mappedLoop_reached hcb hinit hstring hx).2.address, hrounds k hk x hx⟩, fun h hrun => ?_⟩
    unfold mappedIo at hrun
    dsimp only at hrun
    rw [hcount] at hrun
    obtain ⟨⟨y, r⟩, hy, he⟩ := Option.map_eq_some_iff.1 hrun
    obtain ⟨hr, hreached⟩ := mappedLoop_reached hcb hinit hstring hy
    have hbacked : ∀ k < i.elements run, ∀ x, mappedLoop memory cb k (.init s run) = some (x, 0) → ElementBacked memory x :=
      fun k hk x hx => by
        by_contra hlacks
        have hsome := (mappedLoop_isSome_iff hcb hinit hstring (i.elements run)).1 (by rw [hy]; rfl) k hk x hx
        rw [(hrounds k hk x hx).fails hlacks] at hsome
        cases hsome
    subst hr
    cases he
    refine ⟨rfl, rfl, hreached.rounds.log, ?_⟩
    rw [show (y.vcpu.setVcpu (kvmSetRegs y.vcpu.toKvmVcpu y.regs)).toKvmVcpu = kvmSetRegs y.vcpu.toKvmVcpu y.regs from rfl,
      kvmGetRegs_kvmSetRegs, hreached.regs]
    exact (movedRegs_eq_cpuRegs_iff i _ _).2 (hfit hbacked)

/-! ### Memory behind the mapping -/

/-- INSB with 32-bit addresses. -/
def insb : IoInsn where
  direction := .input
  size := 1
  string := true
  stringDown := false
  rep := false
  port := 0x60
  addrBytes := 4
  size_ok := Or.inl rfl
  addrBytes_ok := Or.inr (Or.inl rfl)
  string_of_rep _ := rfl

/-- Its exit for a byte at 256 MiB. -/
def insbRun : RunStruct :=
  { RunStruct.fresh with exit := .io, io := ⟨.input, 1, true, false, false, 0x60, 1, 0x10000000⟩ }

/-- Devices that return the value 0. -/
def zeroDevices : Callbacks where
  device _ _ := ⟨0, 0, fun _ => 0⟩
  debug := 0
  halt := 0
  ioWindow := 0

/-- A vcpu without paging and without memory slots. -/
def flatVcpu : MmioVcpu where
  toKvmVcpu := default
  mmioNeeded := false
  mmioReadCompleted := false
  mmioIsWrite := false
  mmioData := 0
  mmioSize := 0
  mmioPhysAddr := 0

theorem insbRun_describes : insb.Describes insbRun.io := ⟨rfl, rfl, rfl, rfl, rfl, rfl⟩

theorem stringIo_iff_insb : StringIoRight 0x100000 insb zeroDevices flatVcpu insbRun ↔
    (∀ k < insb.elements insbRun, ∀ x, mappedLoop 0x100000 zeroDevices k (.init flatVcpu insbRun) = some (x, 0) →
      ∀ frame, FrameTaken x frame → FrameGood 0x100000 x frame) ∧
    ((∀ k < insb.elements insbRun, ∀ x, mappedLoop 0x100000 zeroDevices k (.init flatVcpu insbRun) = some (x, 0) →
      ElementBacked 0x100000 x) → RegsFit insb (insb.elements insbRun) (kvmGetRegs flatVcpu.toKvmVcpu)) :=
  stringIo_iff (fun _ _ => rfl) insbRun_describes rfl

/-- In a guest of 1 MiB the byte is stored behind the mapping. -/
theorem stored_behind_mapping : ¬∀ (memory : BitVec 64) (i : IoInsn) (cb : Callbacks) (s : MmioVcpu) (run : RunStruct),
    ReturnsZero cb → i.Describes run.io → i.string = true → StringIoRight memory i cb s run := by
  intro hall
  have hright := hall 0x100000 insb zeroDevices flatVcpu insbRun (fun _ _ => rfl) insbRun_describes rfl
  obtain ⟨-, hround⟩ := hright.rounds 0 (by decide) _ rfl
  have htouched : touched (.init flatVcpu insbRun) = [0x10000000] := rfl
  have hinside := hround.inside 0x10000000 (by rw [htouched]; exact List.mem_singleton.2 rfl)
  exact absurd hinside (by decide)

end Libkvm

end LearnKvm
