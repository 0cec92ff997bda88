import LearnKvm.Emulate.PrefixSets
import LearnKvm.GuestCopy
import LearnKvm.Libkvm

/-!
# The count of a string I/O exit (`get_io_count`, `handle_io`)

For an exit by INS or OUTS the module finds the address size with a decoder of its own: it reads eight bytes at the
instruction pointer and looks for the first one that is not among ten of the eleven legacy prefixes.  The eleventh, 0x67,
changes the size.  If all bytes are prefixes, `handle_io` enters the guest again, which exits at the same instruction.

For an instruction that lies where the module reads, the count is right unless eight prefixes come first and 0x67 is not
among them (`ioCount_iff`).
-/

namespace LearnKvm

variable {s : KvmVcpu} {e : Encoding}

/-! ### What should be reported -/

/-- The mode of the processor; there is no 64-bit mode outside of IA-32e mode. -/
def cpuMode (v : Vmcs) : X86EmulMode :=
  if vmcsReadl v .guestRflags &&& x86EflagsVm != 0 then .real
  else if isLongMode v && vmcsRead32 v .guestCsArBytes &&& arLMask != 0 then .prot64
  else if vmcsRead32 v .guestCsArBytes &&& arDbMask != 0 then .prot32
  else .prot16

/-- INS or OUTS. -/
structure StringIo (mode : X86EmulMode) (e : Encoding) : Prop where
  valid : e.Valid mode
  onebyte : e.twobyte = false
  opcode : e.opcode ∈ [0x6c#8, 0x6d, 0x6e, 0x6f]
  length : e.bytes.length ≤ 15

/-- `handle_io` returns 0 with the part of RCX that the instruction counts with. -/
def IoCountReported (s : KvmVcpu) (run : RunStruct) (e : Encoding) : Prop :=
  ∃ run', handleIo s run = some run' ∧
    run'.io.count = s.regs 1 &&& countMask (addressSize (cpuMode s.vmcs) (e.legacy.contains 0x67))

/-! ### What the module looks at -/

/-- The prefixes that the scan passes over. -/
def ioPrefixes : List (BitVec 8) := [0xf0, 0xf2, 0xf3, 0x2e, 0x36, 0x3e, 0x26, 0x64, 0x65, 0x66]

/-- The address of the instruction for `get_io_count`. -/
def ioFetchAddr (s : KvmVcpu) : BitVec 64 :=
  if emulMode s.vmcs = .prot64 then vmcsReadl s.vmcs .guestRip
  else vmcsReadl s.vmcs .guestRip + vmcsReadl s.vmcs .guestCsBase

/-- The bytes there, eight at most. -/
def ioWindow (s : KvmVcpu) : List (BitVec 8) := readBytes s.toVcpu (ioFetchAddr s) 8

/-- The bytes have one at which the scan ends, and with it RCX has the same part as with the address size of the
instruction. -/
def CountTold (s : KvmVcpu) (e : Encoding) : Prop :=
  ∃ b, (ioWindow s).find? (fun b => !ioPrefixes.contains b) = some b ∧
    s.regs 1 &&& countMask (addressSize (emulMode s.vmcs) (decide (b = 0x67))) =
      s.regs 1 &&& countMask (addressSize (cpuMode s.vmcs) (e.legacy.contains 0x67))

/-- The instruction lies where the module reads, in readable memory. -/
structure InsnAt (s : KvmVcpu) (e : Encoding) : Prop where
  /-- CS.L is clear outside of IA-32e mode. -/
  mode : emulMode s.vmcs = cpuMode s.vmcs
  mapped : ∀ i < e.bytes.length, GvaMapped s.toVcpu (ioFetchAddr s + BitVec.ofNat 64 i)
  bytes : ∀ i (h : i < e.bytes.length), s.mem (gvaToHpa s.toVcpu (ioFetchAddr s + BitVec.ofNat 64 i)) = e.bytes[i]

/-! ### The scan -/

theorem ioCountrSize_eq (n : Nat) (l : List (BitVec 8)) : ioCountrSize n l =
    (l.find? fun b => !ioPrefixes.contains b).map fun b : BitVec 8 => if b = 0x67 then (if n = 2 then 4 else n >>> 1) else n := by
  induction l with
  | nil => rfl
  | cons b l ih =>
    have hcons : ioCountrSize n (b :: l) = if b ∈ ioPrefixes then ioCountrSize n l
        else if b = 0x67 then some (if n = 2 then 4 else n >>> 1) else some n := rfl
    rw [hcons]
    by_cases hb : b ∈ ioPrefixes
    · rw [if_pos hb, ih, List.find?_cons_of_neg (by simpa using hb)]
    · rw [if_neg hb, List.find?_cons_of_pos (by simpa using hb), Option.map_some]
      split <;> rfl

theorem countrSize_eq (v : Vmcs) :
    (if vmcsReadl v .guestRflags &&& x86EflagsVm != 0 then 2
      else if vmcsRead32 v .guestCsArBytes &&& arLMask != 0 then 8
      else if vmcsRead32 v .guestCsArBytes &&& arDbMask != 0 then 4 else 2) = addressSize (emulMode v) false := by
  unfold emulMode
  dsimp only
  split
  · rfl
  · split
    · rfl
    · split <;> rfl

/-- The prefix 0x67 selects the other size. -/
theorem toggled_addressSize (mode : X86EmulMode) (b : BitVec 8) :
    (if b = 0x67 then (if addressSize mode false = 2 then 4 else addressSize mode false >>> 1) else addressSize mode false) =
      addressSize mode (decide (b = 0x67)) := by
  by_cases hb : b = 0x67
  · rw [if_pos hb, decide_eq_true hb]
    cases mode <;> rfl
  · rw [if_neg hb, decide_eq_false hb]

/-- The scan ends at some byte, and the count is what its size selects. -/
theorem getIoCount_eq (hlast : LastPageUnbacked s.kvm) : getIoCount s =
    ((ioWindow s).find? fun b => !ioPrefixes.contains b).map fun b : BitVec 8 =>
      s.regs 1 &&& countMask (addressSize (emulMode s.vmcs) (decide (b = 0x67))) := by
  have haddr : (if addressSize (emulMode s.vmcs) false ≠ 8 then
      vmcsReadl s.vmcs .guestRip + vmcsReadl s.vmcs .guestCsBase else vmcsReadl s.vmcs .guestRip) = ioFetchAddr s := by
    unfold ioFetchAddr
    cases emulMode s.vmcs <;> rfl
  unfold getIoCount
  dsimp only
  rw [countrSize_eq, haddr, kvmReadGuest_eq hlast, ioCountrSize_eq, Option.map_map]
  unfold ioWindow
  congr 1
  funext b
  exact congrArg (fun n => s.regs 1 &&& countMask n) (toggled_addressSize _ b)

/-- What `handle_io` makes of a string instruction. -/
theorem handleIo_string (run : RunStruct) (hstring : (vmcsReadl s.vmcs .exitQualification &&& 16 != 0) = true) (count : BitVec 64) :
    (∃ run', handleIo s run = some run' ∧ run'.io.count = count) ↔ getIoCount s = some count := by
  unfold handleIo
  dsimp only
  rw [if_pos hstring]
  cases hcount : getIoCount s with
  | none => simp
  | some c => simp

theorem ioCountReported_iff (run : RunStruct) (hlast : LastPageUnbacked s.kvm)
    (hstring : (vmcsReadl s.vmcs .exitQualification &&& 16 != 0) = true) : IoCountReported s run e ↔ CountTold s e := by
  unfold IoCountReported CountTold
  rw [handleIo_string run hstring, getIoCount_eq hlast, Option.map_eq_some_iff]

/-! ### An instruction in memory -/

theorem isLegacyPrefix_iff : ∀ b : BitVec 8, isLegacyPrefix b = true ↔ ioPrefixes.contains b = true ∨ b = 0x67 := by
  decide

/-- The bytes of the instruction come first. -/
theorem InsnAt.window (h : InsnAt s e) : ∃ rest, ioWindow s = e.bytes.take 8 ++ rest ∧ (8 ≤ e.bytes.length → rest = []) := by
  have hm : min 8 e.bytes.length + (8 - min 8 e.bytes.length) = 8 := by omega
  have hreach : CopyReaches s.toVcpu (ioFetchAddr s) (min 8 e.bytes.length) := fun j hj => h.mapped j (by omega)
  have htake : (List.range (min 8 e.bytes.length)).map (fun i => s.mem (gvaToHpa s.toVcpu (ioFetchAddr s + BitVec.ofNat 64 i))) =
      e.bytes.take 8 := by
    refine List.ext_getElem (by simp) fun i h1 h2 => ?_
    rw [List.getElem_map, List.getElem_range, List.getElem_take]
    exact h.bytes i _
  refine ⟨readBytes s.toVcpu (ioFetchAddr s + BitVec.ofNat 64 (min 8 e.bytes.length)) (8 - min 8 e.bytes.length), ?_, fun h8 => ?_⟩
  · unfold ioWindow
    conv_lhs => rw [← hm, readBytes_add _ hreach, htake]
  · rw [show 8 - min 8 e.bytes.length = 0 by omega]
    rfl

/-- No byte behind the legacy prefixes is passed over, or changes the size. -/
theorem StringIo.behind {mode : X86EmulMode} (he : StringIo mode e) {b : BitVec 8}
    (hb : b ∈ e.rex.toList ++ e.opcodeBytes) : ¬(ioPrefixes.contains b = true ∨ b = 0x67) := by
  rw [← isLegacyPrefix_iff, Bool.not_eq_true]
  have hop : e.opcodeBytes = [e.first] := by
    unfold Encoding.opcodeBytes Encoding.first
    rw [he.onebyte]
    rfl
  rcases List.mem_append.1 hb with hrex | hopcode
  · exact rex_not_legacy b (he.valid.rex b (Option.mem_toList.1 hrex)).2
  · rw [hop, List.mem_singleton] at hopcode
    rw [hopcode]
    exact he.valid.first

/-- Where the scan of the legacy prefixes ends. -/
theorem find_legacy {l : List (BitVec 8)} (hl : ∀ b ∈ l, isLegacyPrefix b = true) :
    l.find? (fun b => !ioPrefixes.contains b) = if 0x67 ∈ l then some 0x67 else none := by
  split
  · rename_i h67
    cases hfind : l.find? (fun b => !ioPrefixes.contains b) with
    | none =>
      have := List.find?_eq_none.1 hfind _ h67
      exact absurd this (by decide)
    | some b =>
      have hb := List.find?_some hfind
      rcases (isLegacyPrefix_iff b).1 (hl b (List.mem_of_find?_eq_some hfind)) with hc | rfl
      · rw [hc] at hb
        cases hb
      · rfl
  · rename_i h67
    rw [List.find?_eq_none]
    intro b hb
    rcases (isLegacyPrefix_iff b).1 (hl b hb) with hc | rfl
    · rw [hc]
      decide
    · exact absurd hb h67

/-- The scan of an instruction in memory finds the size, unless it sees eight prefixes without 0x67. -/
theorem InsnAt.countTold_iff (h : InsnAt s e) (he : StringIo (cpuMode s.vmcs) e) :
    CountTold s e ↔ e.legacy.length < 8 ∨ 0x67 ∈ e.legacy.take 8 := by
  obtain ⟨rest, hwindow, hrest⟩ := h.window
  have hlegacy : ∀ b ∈ e.legacy.take 8, isLegacyPrefix b = true := fun b hb => he.valid.legacy b (List.mem_of_mem_take hb)
  have hfind : (ioWindow s).find? (fun b => !ioPrefixes.contains b) = (if 0x67 ∈ e.legacy.take 8 then some (0x67 : BitVec 8) else none).or
      (((e.rex.toList ++ e.opcodeBytes).take (8 - e.legacy.length) ++ rest).find? fun b => !ioPrefixes.contains b) := by
    rw [hwindow, Encoding.bytes, List.take_append, List.append_assoc, List.find?_append, find_legacy hlegacy]
  unfold CountTold
  rw [hfind, h.mode, List.contains_eq_mem]
  by_cases h67 : 0x67 ∈ e.legacy.take 8
  · rw [if_pos h67]
    refine iff_of_true ⟨0x67, rfl, ?_⟩ (Or.inr h67)
    rw [decide_eq_true (List.mem_of_mem_take h67), decide_eq_true rfl]
  · rw [if_neg h67, Option.none_or, or_iff_left h67]
    by_cases h8 : e.legacy.length < 8
    · -- the first byte behind the prefixes ends the scan
      refine iff_of_true ?_ h8
      obtain ⟨c, l, hcl⟩ : ∃ c l, e.rex.toList ++ e.opcodeBytes = c :: l := by
        refine List.exists_cons_of_ne_nil fun hnil => ?_
        unfold Encoding.opcodeBytes at hnil
        rw [he.onebyte] at hnil
        exact absurd (List.append_eq_nil_iff.1 hnil).2 (List.cons_ne_nil _ _)
      obtain ⟨hc, hc67⟩ := not_or.1 (he.behind (hcl ▸ List.mem_cons_self : c ∈ _))
      obtain ⟨k, hk⟩ : ∃ k, 8 - e.legacy.length = k + 1 := ⟨7 - e.legacy.length, by omega⟩
      rw [List.take_of_length_le (by omega)] at h67
      refine ⟨c, ?_, ?_⟩
      · rw [hcl, hk, List.take_succ_cons, List.cons_append]
        exact List.find?_cons_of_pos (by simpa using hc)
      · rw [decide_eq_false hc67, decide_eq_false h67]
    · have hlen : 8 ≤ e.bytes.length := by
        rw [Encoding.bytes, List.length_append]
        omega
      rw [hrest hlen, show 8 - e.legacy.length = 0 by omega, List.take_zero]
      refine iff_of_false ?_ h8
      rintro ⟨b, hb, -⟩
      cases hb

/-- **When the count of a string I/O exit is reported.**  For an exit by INS or OUTS, `handle_io` returns 0 with the right
count just if the scan ends within the bytes it sees, at one that gives the size.  For an instruction that lies where the
module reads, that is the case unless the first eight bytes are prefixes and 0x67 is not among them. -/
theorem ioCount_iff (s : KvmVcpu) (run : RunStruct) (e : Encoding) (hlast : LastPageUnbacked s.kvm)
    (hstring : (vmcsReadl s.vmcs .exitQualification &&& 16 != 0) = true) (he : StringIo (cpuMode s.vmcs) e) :
    (IoCountReported s run e ↔ CountTold s e) ∧
      (InsnAt s e → (IoCountReported s run e ↔ e.legacy.length < 8 ∨ 0x67 ∈ e.legacy.take 8)) := by
  have htold := @ioCountReported_iff s e run hlast hstring
  exact ⟨htold, fun hat => htold.trans (hat.countTold_iff he)⟩

/-! ### A guest at an instruction -/

/-- An exit by a string instruction, in 16-bit code. -/
def stringExit : Vmcs := fun f => if f = .exitQualification then 16 else 0

/-- A guest with 16-bit code before paging, at an instruction with these bytes. -/
def ioGuest (code : List (BitVec 8)) : KvmVcpu :=
  { (default : KvmVcpu) with
    kvm := largeGuest.kvm
    mem := fun a => code.getD (a.toNat - 4096) 0
    vmcs := stringExit }

theorem insnAt_ioGuest (hlen : e.bytes.length ≤ 15) : InsnAt (ioGuest e.bytes) e := by
  have haddr : ∀ i < 16, (gvaToHpa largeGuest (BitVec.ofNat 64 i)).toNat - 4096 = i := by decide
  have hzero : ioFetchAddr (ioGuest e.bytes) = 0#64 := by
    unfold ioFetchAddr
    rw [show (ioGuest e.bytes).vmcs = stringExit from rfl, if_neg (by decide)]
    rfl
  have hfetch : ∀ i, ioFetchAddr (ioGuest e.bytes) + BitVec.ofNat 64 i = BitVec.ofNat 64 i := fun i => by
    rw [hzero, BitVec.zero_add]
  refine ⟨show emulMode stringExit = cpuMode stringExit by decide, fun i hi => ?_, fun i hi => ?_⟩
  · rw [hfetch]
    exact largeGuest_mapped (by omega)
  · rw [hfetch]
    show e.bytes.getD ((gvaToHpa largeGuest (BitVec.ofNat 64 i)).toNat - 4096) 0 = _
    rw [haddr i (by omega)]
    simp [hi]

theorem stringIo_insb {legacy : List (BitVec 8)} (hl : ∀ b ∈ legacy, isLegacyPrefix b = true) (hlen : legacy.length ≤ 14) :
    StringIo .prot16 ⟨legacy, none, false, 0x6c⟩ where
  valid :=
    { legacy := hl
      rex := fun _ h => by cases h
      first := show isLegacyPrefix 0x6c = false by decide
      noRex := fun h => by cases h
      onebyte := fun _ => show (0x6c : BitVec 8) ≠ 0x0f by decide }
  onebyte := rfl
  opcode := List.mem_cons_self
  length := by
    unfold Encoding.bytes Encoding.opcodeBytes
    simp
    omega

/-- REP INSB. -/
def repInsb : Encoding := ⟨[0xf3], none, false, 0x6c⟩

theorem ioCount_repInsb : IoCountReported (ioGuest repInsb.bytes) .fresh repInsb :=
  ((ioCount_iff (ioGuest repInsb.bytes) .fresh repInsb largeGuest_lastPage (by decide)
    (stringIo_insb (by decide) (by decide))).2 (insnAt_ioGuest (by decide))).2 (Or.inl (by decide))

/-- INSB behind eight prefixes. -/
def eightPrefixes : Encoding := ⟨List.replicate 8 0x66, none, false, 0x6c⟩

/-- Eight prefixes hide the instruction, and the guest is entered again and again. -/
theorem eight_prefixes_retried : ¬∀ (s : KvmVcpu) (run : RunStruct) (e : Encoding), LastPageUnbacked s.kvm →
    (vmcsReadl s.vmcs .exitQualification &&& 16 != 0) = true → StringIo (cpuMode s.vmcs) e → InsnAt s e →
      IoCountReported s run e := by
  intro h
  have hio : StringIo (cpuMode (ioGuest eightPrefixes.bytes).vmcs) eightPrefixes := stringIo_insb (by decide) (by decide)
  have hat := insnAt_ioGuest (e := eightPrefixes) (by decide)
  have hreported := h (ioGuest eightPrefixes.bytes) .fresh eightPrefixes largeGuest_lastPage (by decide) hio hat
  have htold := (ioCountReported_iff .fresh largeGuest_lastPage (by decide)).1 hreported
  rcases (hat.countTold_iff hio).1 htold with hlt | hmem
  · exact absurd hlt (by decide)
  · exact absurd hmem (by decide)

end LearnKvm
