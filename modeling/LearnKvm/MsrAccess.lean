import LearnKvm.CrWrites
import LearnKvm.VcpuSetup

/-!
# RDMSR and WRMSR (`kvm_main.c`)

The handlers of the two exits are separate switches over the same registers.  A value that WRMSR accepts is read back,
with three exceptions: the two SYSENTER addresses are written and read as 32-bit fields, and the entry of the MSR array
from which EFER is read has lost LME unless long mode is active, while `shadow_efer` keeps the bit
(`wrmsr_rdmsr_iff`).
-/

namespace LearnKvm

def msrFsBase : BitVec 32 := 0xc0000100#32
def msrGsBase : BitVec 32 := 0xc0000101#32
def msrIa32SysenterCs : BitVec 32 := 0x174#32
def msrIa32SysenterEsp : BitVec 32 := 0x175#32
def msrIa32SysenterEip : BitVec 32 := 0x176#32
def msrIa32Mc0Ctl : BitVec 32 := 0x400#32
def msrIa32Mc0Status : BitVec 32 := 0x401#32
def msrIa32Mc0Misc : BitVec 32 := 0x403#32
def msrIa32McgCap : BitVec 32 := 0x179#32
def msrIa32McgStatus : BitVec 32 := 0x17a#32
def msrIa32UcodeWrite : BitVec 32 := 0x79#32
def msrIa32UcodeRev : BitVec 32 := 0x8b#32
def msrIa32Apicbase : BitVec 32 := 0x1b#32
def msrIa32TimeStampCounter : BitVec 32 := 0x10#32

/-- The MSR that ECX names. -/
def KvmVcpu.msrIndex (s : KvmVcpu) : BitVec 32 := (s.regs 1).setWidth 32

/-- The value in EDX:EAX. -/
def KvmVcpu.msrData (s : KvmVcpu) : BitVec 64 := (s.regs 0 &&& 0xffffffff#64) ||| ((s.regs 2 &&& 0xffffffff#64) <<< 32)

/-! ### The handlers -/

def isMtrr (ecx : BitVec 32) : Bool := 0x200#32 ≤ ecx && ecx ≤ 0x2ff#32

/-- The registers that are read as 0. -/
def isZeroMsr (ecx : BitVec 32) : Bool :=
  ecx ∈ [msrIa32Mc0Ctl, msrIa32McgStatus, msrIa32McgCap, msrIa32Mc0Misc, msrIa32Mc0Misc + 4, msrIa32Mc0Misc + 8,
    msrIa32Mc0Misc + 12, msrIa32Mc0Misc + 16, msrIa32UcodeRev, 0xfe] || isMtrr ecx

/-- The switch of `handle_rdmsr`, `none` for a general protection fault. -/
def rdmsrData (s : KvmVcpu) : Option (BitVec 64) :=
  let ecx := s.msrIndex
  if ecx = msrFsBase then some (vmcsReadl s.vmcs .guestFsBase)
  else if ecx = msrGsBase then some (vmcsReadl s.vmcs .guestGsBase)
  else if ecx = msrIa32SysenterCs then some ((vmcsRead32 s.vmcs .guestSysenterCs).setWidth 64)
  else if ecx = msrIa32SysenterEip then some ((vmcsRead32 s.vmcs .guestSysenterEip).setWidth 64)
  else if ecx = msrIa32SysenterEsp then some ((vmcsRead32 s.vmcs .guestSysenterEsp).setWidth 64)
  else if isZeroMsr ecx then some 0
  else if ecx = msrIa32Apicbase then some s.apicBase
  else (findMsrEntry s ecx).map fun msr => (s.guestMsrs msr).data

def handleRdmsr (s : KvmVcpu) : KvmVcpu :=
  match rdmsrData s with
  | none => s.injectGp
  | some data => skipEmulatedInstruction { s with
      regs := Function.update (Function.update s.regs 0 (data &&& 0xffffffff)) 2 ((data >>> 32) &&& 0xffffffff) }

/-- `tsc` is what `rdtscll` reads.  `none`: EFER has no entry in `guest_msrs`, and a null pointer is dereferenced. -/
def handleWrmsr (tsc : BitVec 64) (s : KvmVcpu) : Option KvmVcpu :=
  let ecx := s.msrIndex
  let data := s.msrData
  if ecx = msrFsBase then some (skipEmulatedInstruction (s.setVmcs (vmcsWritel s.vmcs .guestFsBase data)))
  else if ecx = msrGsBase then some (skipEmulatedInstruction (s.setVmcs (vmcsWritel s.vmcs .guestGsBase data)))
  else if ecx = msrIa32SysenterCs then
    some (skipEmulatedInstruction (s.setVmcs (vmcsWrite32 s.vmcs .guestSysenterCs (data.setWidth 32))))
  else if ecx = msrIa32SysenterEip then
    some (skipEmulatedInstruction (s.setVmcs (vmcsWrite32 s.vmcs .guestSysenterEip (data.setWidth 32))))
  else if ecx = msrIa32SysenterEsp then
    some (skipEmulatedInstruction (s.setVmcs (vmcsWrite32 s.vmcs .guestSysenterEsp (data.setWidth 32))))
  else if ecx = msrEfer then setEfer s data
  else if ecx = msrIa32Mc0Status then some (skipEmulatedInstruction s)
  else if ecx = msrIa32TimeStampCounter then
    some (skipEmulatedInstruction (s.setVmcs (vmcsWritel s.vmcs .tscOffset (data - tsc))))
  else if ecx = msrIa32UcodeRev ∨ ecx = msrIa32UcodeWrite ∨ isMtrr ecx = true then some (skipEmulatedInstruction s)
  else if ecx = msrIa32Apicbase then some (skipEmulatedInstruction { s with apicBase := data })
  else
    match findMsrEntry s ecx with
    | some msr => some (skipEmulatedInstruction (s.setMsr msr data))
    | none => some s.injectGp

/-! ### The round trip -/

/-- The checks of `set_efer`. -/
def eferFaults (s : KvmVcpu) (efer : BitVec 64) : Bool :=
  efer &&& eferReservedBits != 0 || (isPaging s.vmcs && (s.shadowEfer &&& eferLme) != (efer &&& eferLme))

/-- The registers that the round trip is about: those with storage of their own, and the entries of `guest_msrs`, which
`kvm_vcpu_setup` takes from `vmx_msr_index`. -/
def StoredMsr (s : KvmVcpu) (msr : BitVec 32) : Prop :=
  msr ∈ [msrFsBase, msrGsBase, msrIa32SysenterCs, msrIa32SysenterEip, msrIa32SysenterEsp, msrIa32Apicbase, msrEfer] ∨
    msr ∈ vmxMsrIndex ∧ (findMsrEntry s msr).isSome = true

/-- A write that raises no general protection fault in the guest. -/
def WrmsrAccepted (s : KvmVcpu) : Prop := StoredMsr s s.msrIndex ∧ (s.msrIndex = msrEfer → eferFaults s s.msrData = false)

/-- The guest executes RDMSR next: the registers and the storage of the MSRs are as the handler has left them. -/
structure RdmsrNext (t u : KvmVcpu) : Prop where
  regs : u.regs = t.regs
  vmcs : ∀ f ∈ [VmcsField.guestFsBase, .guestGsBase, .guestSysenterCs, .guestSysenterEip, .guestSysenterEsp],
    vmcsReadl u.vmcs f = vmcsReadl t.vmcs f
  apicBase : u.apicBase = t.apicBase
  nmsrs : u.nmsrs = t.nmsrs
  guestMsrs : u.guestMsrs = t.guestMsrs

/-- The bits that can be written and read: SYSENTER_CS has 32, and LMA is read-only. -/
def readableMask (msr : BitVec 32) : BitVec 64 :=
  if msr = msrIa32SysenterCs then 0xffffffff#64 else if msr = msrEfer then ~~~eferLma else ~~~0#64

/-- RDMSR returns a value in EDX:EAX. -/
def ReadsBack (u : KvmVcpu) (data : BitVec 64) : Prop :=
  (rdmsrData u).isSome = true ∧
    (handleRdmsr u).msrData &&& readableMask u.msrIndex = data &&& readableMask u.msrIndex

/-- The value fits in 32 bits for the SYSENTER addresses; for EFER, LME is clear or long mode is active. -/
structure MsrKept (s : KvmVcpu) : Prop where
  sysenter : s.msrIndex = msrIa32SysenterEip ∨ s.msrIndex = msrIa32SysenterEsp → s.msrData.toNat < 2 ^ 32
  efer : s.msrIndex = msrEfer → s.msrData.hasBit 8 = true → s.shadowEfer.hasBit 10 = true

/-! ### What is stored -/

/-- The entry for EFER, which has LME in long mode only. -/
def writtenEfer (s : KvmVcpu) (data : BitVec 64) : BitVec 64 :=
  let efer := (data &&& ~~~eferLma) ||| (s.shadowEfer &&& eferLma)
  if efer &&& eferLma == 0 then efer &&& ~~~eferLme else efer

/-- What an accepted write leaves to be read. -/
def storedValue (s : KvmVcpu) : BitVec 64 :=
  if s.msrIndex ∈ [msrIa32SysenterCs, msrIa32SysenterEip, msrIa32SysenterEsp] then (s.msrData.setWidth 32).setWidth 64
  else if s.msrIndex = msrEfer then writtenEfer s s.msrData
  else s.msrData

theorem setEfer_eq (s : KvmVcpu) (efer : BitVec 64) : setEfer s efer =
    if eferFaults s efer then some s.injectGp
    else (findMsrEntry s msrEfer).map fun msr => skipEmulatedInstruction
      ({ s with shadowEfer := (efer &&& ~~~eferLma) ||| (s.shadowEfer &&& eferLma) }.setMsr msr (writtenEfer s efer)) := by
  unfold setEfer eferFaults
  cases h1 : efer &&& eferReservedBits != 0 with
  | true => simp
  | false =>
    cases h2 : isPaging s.vmcs && (s.shadowEfer &&& eferLme) != (efer &&& eferLme) with
    | true => simp
    | false =>
      simp only [Bool.false_eq_true, if_false, Bool.or_false]
      have hfind : findMsrEntry { s with shadowEfer := (efer &&& ~~~eferLma) ||| (s.shadowEfer &&& eferLma) } msrEfer =
          findMsrEntry s msrEfer := rfl
      rw [hfind]
      cases findMsrEntry s msrEfer <;> rfl

/-- The other entries of the array fall through both switches. -/
theorem vmxMsr_default : ∀ m ∈ vmxMsrIndex, m ≠ msrFsBase ∧ m ≠ msrGsBase ∧ m ≠ msrIa32SysenterCs ∧
    m ≠ msrIa32SysenterEip ∧ m ≠ msrIa32SysenterEsp ∧ m ≠ msrIa32Mc0Status ∧ m ≠ msrIa32TimeStampCounter ∧
    ¬(m = msrIa32UcodeRev ∨ m = msrIa32UcodeWrite ∨ isMtrr m = true) ∧ m ≠ msrIa32Apicbase ∧ isZeroMsr m = false := by
  intro m hm
  unfold vmxMsrIndex at hm
  fin_cases hm <;> decide

section

variable {tsc : BitVec 64} {s t u : KvmVcpu}

/-- The handler skips the instruction after it has stored the value: RDMSR finds the same number in ECX. -/
theorem RdmsrNext.msrIndex {w : KvmVcpu} (hu : RdmsrNext (skipEmulatedInstruction w) u) (hw : w.regs = s.regs) :
    u.msrIndex = s.msrIndex := by
  unfold KvmVcpu.msrIndex
  rw [hu.regs]
  exact congrArg (fun r : Fin 16 → BitVec 64 => (r 1).setWidth 32) hw

/-- A field of the VMCS with a value that was stored. -/
theorem RdmsrNext.readField {f : VmcsField} {v : BitVec 64}
    (hf : f ∈ [VmcsField.guestFsBase, .guestGsBase, .guestSysenterCs, .guestSysenterEip, .guestSysenterEsp])
    (hu : RdmsrNext (skipEmulatedInstruction (s.setVmcs (vmcsWritel s.vmcs f v))) u) : vmcsReadl u.vmcs f = v := by
  have hskip : vmcsReadl (skipEmulatedInstruction (s.setVmcs (vmcsWritel s.vmcs f v))).vmcs f =
      vmcsReadl (vmcsWritel s.vmcs f v) f := by
    refine skipEmulatedInstruction_vmcs _ ?_ ?_ <;> (rintro rfl; revert hf; decide)
  rw [hu.vmcs f hf, hskip, vmcsReadl_vmcsWritel_self]

theorem RdmsrNext.readField32 {f : VmcsField} {v : BitVec 32}
    (hf : f ∈ [VmcsField.guestFsBase, .guestGsBase, .guestSysenterCs, .guestSysenterEip, .guestSysenterEsp])
    (hu : RdmsrNext (skipEmulatedInstruction (s.setVmcs (vmcsWrite32 s.vmcs f v))) u) : vmcsRead32 u.vmcs f = v := by
  unfold vmcsRead32
  rw [RdmsrNext.readField hf hu]
  exact BitVec.setWidth_setWidth_of_le _ (by decide)

/-- An entry of the MSR array with a value that was stored. -/
theorem RdmsrNext.entry {w : KvmVcpu} {i : Nat} {v : BitVec 64} {msr : BitVec 32} (hi : findMsrEntry w msr = some i)
    (hu : RdmsrNext (skipEmulatedInstruction (w.setMsr i v)) u) :
    (findMsrEntry u msr).map (fun j => (u.guestMsrs j).data) = some v := by
  have hfind : findMsrEntry u msr = some i := by
    have hsame : findMsrEntry u msr = findMsrEntry (w.setMsr i v) msr := by
      unfold findMsrEntry
      rw [hu.nmsrs, hu.guestMsrs]
      rfl
    rw [hsame, findMsrEntry_setMsr, hi]
  rw [hfind, Option.map_some, hu.guestMsrs]
  exact congrArg some (setMsr_data w i v)

theorem rdmsrData_efer (h : s.msrIndex = msrEfer) (hacc : eferFaults s s.msrData = false)
    (ht : handleWrmsr tsc s = some t) (hu : RdmsrNext t u) :
    u.msrIndex = s.msrIndex ∧ rdmsrData u = some (storedValue s) := by
  unfold handleWrmsr at ht
  dsimp only at ht
  rw [h, if_neg (by decide), if_neg (by decide), if_neg (by decide), if_neg (by decide), if_neg (by decide), if_pos rfl,
    setEfer_eq, if_neg (by rw [hacc]; decide)] at ht
  obtain ⟨i, hi, rfl⟩ := Option.map_eq_some_iff.1 ht
  have hidx : u.msrIndex = s.msrIndex := hu.msrIndex rfl
  refine ⟨hidx, ?_⟩
  unfold rdmsrData storedValue
  dsimp only
  rw [hidx, h, if_neg (by decide), if_neg (by decide), if_neg (by decide), if_neg (by decide), if_neg (by decide),
    if_neg (by decide), if_neg (by decide), if_neg (by decide), if_pos rfl]
  exact RdmsrNext.entry (w := { s with shadowEfer := (s.msrData &&& ~~~eferLma) ||| (s.shadowEfer &&& eferLma) }) hi hu

/-- What is read after an accepted write. -/
theorem rdmsrData_stored (hs : WrmsrAccepted s) (ht : handleWrmsr tsc s = some t) (hu : RdmsrNext t u) :
    u.msrIndex = s.msrIndex ∧ rdmsrData u = some (storedValue s) := by
  obtain ⟨hmsr, hefer⟩ := hs
  have ht₀ := ht
  unfold handleWrmsr at ht
  dsimp only at ht
  unfold StoredMsr at hmsr
  simp only [List.mem_cons, List.not_mem_nil, or_false] at hmsr
  rcases hmsr with (h | h | h | h | h | h | h) | ⟨hmem, hentry⟩
  · rw [h, if_pos rfl] at ht
    obtain rfl := Option.some.inj ht
    have hidx : u.msrIndex = s.msrIndex := hu.msrIndex rfl
    refine ⟨hidx, ?_⟩
    unfold rdmsrData storedValue
    dsimp only
    rw [hidx, h, if_pos rfl, hu.readField (by decide), if_neg (by decide), if_neg (by decide)]
  · rw [h, if_neg (by decide), if_pos rfl] at ht
    obtain rfl := Option.some.inj ht
    have hidx : u.msrIndex = s.msrIndex := hu.msrIndex rfl
    refine ⟨hidx, ?_⟩
    unfold rdmsrData storedValue
    dsimp only
    rw [hidx, h, if_neg (by decide), if_pos rfl, hu.readField (by decide), if_neg (by decide), if_neg (by decide)]
  · rw [h, if_neg (by decide), if_neg (by decide), if_pos rfl] at ht
    obtain rfl := Option.some.inj ht
    have hidx : u.msrIndex = s.msrIndex := hu.msrIndex rfl
    refine ⟨hidx, ?_⟩
    unfold rdmsrData storedValue
    dsimp only
    rw [hidx, h, if_neg (by decide), if_neg (by decide), if_pos rfl, hu.readField32 (by decide), if_pos (by decide)]
  · rw [h, if_neg (by decide), if_neg (by decide), if_neg (by decide), if_pos rfl] at ht
    obtain rfl := Option.some.inj ht
    have hidx : u.msrIndex = s.msrIndex := hu.msrIndex rfl
    refine ⟨hidx, ?_⟩
    unfold rdmsrData storedValue
    dsimp only
    rw [hidx, h, if_neg (by decide), if_neg (by decide), if_neg (by decide), if_pos rfl, hu.readField32 (by decide), if_pos (by decide)]
  · rw [h, if_neg (by decide), if_neg (by decide), if_neg (by decide), if_neg (by decide), if_pos rfl] at ht
    obtain rfl := Option.some.inj ht
    have hidx : u.msrIndex = s.msrIndex := hu.msrIndex rfl
    refine ⟨hidx, ?_⟩
    unfold rdmsrData storedValue
    dsimp only
    rw [hidx, h, if_neg (by decide), if_neg (by decide), if_neg (by decide), if_neg (by decide), if_pos rfl, hu.readField32 (by decide), if_pos (by decide)]
  · rw [h, if_neg (by decide), if_neg (by decide), if_neg (by decide), if_neg (by decide), if_neg (by decide),
      if_neg (by decide), if_neg (by decide), if_neg (by decide), if_neg (by decide), if_pos rfl] at ht
    obtain rfl := Option.some.inj ht
    have hidx : u.msrIndex = s.msrIndex := hu.msrIndex rfl
    have hapic : u.apicBase = s.msrData := hu.apicBase
    refine ⟨hidx, ?_⟩
    unfold rdmsrData storedValue
    dsimp only
    rw [hidx, h, if_neg (by decide), if_neg (by decide), if_neg (by decide), if_neg (by decide), if_neg (by decide),
      if_neg (by decide), if_pos rfl, hapic, if_neg (by decide), if_neg (by decide)]
  · exact rdmsrData_efer h (hefer h) ht₀ hu
  · by_cases he : s.msrIndex = msrEfer
    · exact rdmsrData_efer he (hefer he) ht₀ hu
    · obtain ⟨i, hi⟩ := Option.isSome_iff_exists.1 hentry
      obtain ⟨h1, h2, h3, h4, h5, h6, h7, h8, h9, h10⟩ := vmxMsr_default _ hmem
      rw [if_neg h1, if_neg h2, if_neg h3, if_neg h4, if_neg h5, if_neg he, if_neg h6, if_neg h7, if_neg h8, if_neg h9,
        hi] at ht
      obtain rfl := Option.some.inj ht
      have hidx : u.msrIndex = s.msrIndex := hu.msrIndex rfl
      have hlist : s.msrIndex ∉ [msrIa32SysenterCs, msrIa32SysenterEip, msrIa32SysenterEsp] := by
        simp [h3, h4, h5]
      refine ⟨hidx, ?_⟩
      unfold rdmsrData storedValue
      dsimp only
      rw [hidx, if_neg h1, if_neg h2, if_neg h3, if_neg h4, if_neg h5, if_neg (by rw [h10]; decide), if_neg h9,
        if_neg hlist, if_neg he]
      exact RdmsrNext.entry hi hu

/-! ### What is read back -/

theorem hasBit_lowWord (i : Nat) : (0xffffffff#64).hasBit i = decide (i < 32) := by
  have hlow : ∀ i < 64, (0xffffffff#64).hasBit i = decide (i < 32) := by decide
  by_cases hi : i < 64
  · exact hlow i hi
  · rw [BitVec.hasBit_of_ge _ (by omega)]
    simp
    omega

theorem handleRdmsr_msrData {v : BitVec 64} (hv : rdmsrData u = some v) : (handleRdmsr u).msrData = v := by
  have hregs : (handleRdmsr u).regs =
      Function.update (Function.update u.regs 0 (v &&& 0xffffffff)) 2 ((v >>> 32) &&& 0xffffffff) := by
    unfold handleRdmsr
    rw [hv]
    rfl
  have hax : (handleRdmsr u).regs 0 = v &&& 0xffffffff#64 := by
    rw [hregs, Function.update_of_ne (by decide), Function.update_self]
    rfl
  have hdx : (handleRdmsr u).regs 2 = (v >>> 32) &&& 0xffffffff#64 := by
    rw [hregs, Function.update_self]
    rfl
  unfold KvmVcpu.msrData
  rw [hax, hdx]
  apply BitVec.eq_of_hasBit
  intro i hi
  simp only [BitVec.hasBit_or, BitVec.hasBit_and, BitVec.hasBit_shiftLeft, BitVec.hasBit_ushiftRight, hasBit_lowWord]
  by_cases h32 : i < 32
  · simp [h32]
  · simp [h32, hi, show i - 32 < 32 by omega, show 32 + (i - 32) = i by omega]

theorem readsBack_iff {v data : BitVec 64} (hidx : u.msrIndex = s.msrIndex) (hv : rdmsrData u = some v) :
    ReadsBack u data ↔ v &&& readableMask s.msrIndex = data &&& readableMask s.msrIndex := by
  unfold ReadsBack
  rw [handleRdmsr_msrData hv, hv, hidx]
  simp

/-- A value of 32 bits survives a 32-bit field. -/
theorem setWidth_low_eq_iff (data : BitVec 64) : (data.setWidth 32).setWidth 64 = data ↔ data.toNat < 2 ^ 32 := by
  rw [← BitVec.toNat_inj, BitVec.toNat_setWidth, BitVec.toNat_setWidth, Nat.mod_eq_of_lt
    ((Nat.mod_lt _ (by decide)).trans (by decide : 2 ^ 32 < 2 ^ 64))]
  constructor
  · intro heq
    rw [← heq]
    exact Nat.mod_lt _ (by decide)
  · exact Nat.mod_eq_of_lt

theorem writtenEfer_iff (s : KvmVcpu) (data : BitVec 64) : writtenEfer s data &&& ~~~eferLma = data &&& ~~~eferLma ↔
    (data.hasBit 8 = true → s.shadowEfer.hasBit 10 = true) := by
  have hlma : ∀ i, eferLma.hasBit i = decide (i = 10) := Bits.hasBit_one_shiftLeft (by decide)
  have hlme : ∀ i, eferLme.hasBit i = decide (i = 8) := Bits.hasBit_one_shiftLeft (by decide)
  have htest : ∀ x : BitVec 64, (x &&& eferLma == 0) = !x.hasBit 10 := by
    intro x
    rw [← Bits.and_one_shiftLeft_bne_zero (by decide : 10 < 64) x, bne, Bool.not_not]
    rfl
  have hten : ((data &&& ~~~eferLma) ||| (s.shadowEfer &&& eferLma)).hasBit 10 = s.shadowEfer.hasBit 10 := by
    simp [hlma]
  unfold writtenEfer
  dsimp only
  rw [htest, hten]
  cases hs : s.shadowEfer.hasBit 10 with
  | true =>
    refine iff_of_true ?_ fun _ => rfl
    rw [if_neg (by decide)]
    apply BitVec.eq_of_hasBit
    intro i hi
    by_cases h10 : i = 10 <;> simp [hlma, h10, hi]
  | false =>
    rw [if_pos (by decide)]
    constructor
    · intro heq h8
      have hbit := congrArg (BitVec.hasBit · 8) heq
      simp [hlma, hlme, h8] at hbit
    · intro hno
      have h8 : data.hasBit 8 = false := Bool.eq_false_iff.2 fun h8 => Bool.noConfusion (hno h8)
      apply BitVec.eq_of_hasBit
      intro i hi
      by_cases h10 : i = 10
      · simp [hlma, h10]
      · by_cases hi8 : i = 8
        · simp [hlma, hlme, hi8, h8]
        · simp [hlma, hlme, h10, hi8, hi]

/-- **The round trip of an MSR**: the value that WRMSR has accepted is read back exactly if it fits in 32 bits for a SYSENTER
address, and for EFER if LME is clear or long mode is active. -/
theorem wrmsr_rdmsr_iff (tsc : BitVec 64) (s t u : KvmVcpu) (hs : WrmsrAccepted s) (ht : handleWrmsr tsc s = some t)
    (hu : RdmsrNext t u) : ReadsBack u s.msrData ↔ MsrKept s := by
  obtain ⟨hidx, hv⟩ := rdmsrData_stored hs ht hu
  rw [readsBack_iff hidx hv]
  by_cases hsys : s.msrIndex = msrIa32SysenterEip ∨ s.msrIndex = msrIa32SysenterEsp
  · -- the two addresses
    have hval : storedValue s = (s.msrData.setWidth 32).setWidth 64 := by
      unfold storedValue
      rcases hsys with h | h <;> rw [h, if_pos (by decide)]
    have hmask : readableMask s.msrIndex = ~~~0#64 := by
      rcases hsys with h | h <;> (rw [h]; rfl)
    have hno : s.msrIndex ≠ msrEfer := by
      rcases hsys with h | h <;> (rw [h]; decide)
    rw [hval, hmask, BitVec.not_zero, BitVec.and_allOnes, BitVec.and_allOnes, setWidth_low_eq_iff]
    exact ⟨fun h => ⟨fun _ => h, fun he => absurd he hno⟩, fun h => h.sysenter hsys⟩
  · by_cases hefer : s.msrIndex = msrEfer
    · have hval : storedValue s = writtenEfer s s.msrData := by
        unfold storedValue
        rw [hefer, if_neg (by decide), if_pos rfl]
      have hmask : readableMask s.msrIndex = ~~~eferLma := by
        rw [hefer]
        rfl
      rw [hval, hmask, writtenEfer_iff]
      exact ⟨fun h => ⟨fun hno => absurd hno hsys, fun _ => h⟩, fun h => h.efer hefer⟩
    · refine iff_of_true ?_ ⟨fun hno => absurd hno hsys, fun hno => absurd hno hefer⟩
      by_cases hcs : s.msrIndex = msrIa32SysenterCs
      · have hval : storedValue s = (s.msrData.setWidth 32).setWidth 64 := by
          unfold storedValue
          rw [hcs, if_pos (by decide)]
        have hmask : readableMask s.msrIndex = 0xffffffff#64 := by
          rw [hcs]
          rfl
        rw [hval, hmask]
        apply BitVec.eq_of_hasBit
        intro i hi
        simp only [BitVec.hasBit_and, BitVec.hasBit_setWidth, hasBit_lowWord]
        by_cases h32 : i < 32 <;> simp [h32, hi]
      · have hlist : s.msrIndex ∉ [msrIa32SysenterCs, msrIa32SysenterEip, msrIa32SysenterEsp] := by
          simp only [List.mem_cons, List.not_mem_nil, or_false, not_or]
          exact ⟨hcs, fun h => hsys (Or.inl h), fun h => hsys (Or.inr h)⟩
        unfold storedValue
        rw [if_neg hlist, if_neg hefer]

end

/-! ### A SYSENTER address above 4 GB -/

/-- `wrmsr` with ECX = 0x176 and a value in EDX:EAX. -/
def sysenterVcpu (rdx : BitVec 64) : KvmVcpu :=
  { (default : KvmVcpu) with regs := fun r => if r = 1 then 0x176 else if r = 2 then rdx else 0 }

theorem sysenter_next (rdx : BitVec 64) :
    RdmsrNext ((handleWrmsr 0 (sysenterVcpu rdx)).getD default) ((handleWrmsr 0 (sysenterVcpu rdx)).getD default) :=
  ⟨rfl, fun _ _ => rfl, rfl, rfl, rfl⟩

theorem sysenter_accepted (rdx : BitVec 64) : WrmsrAccepted (sysenterVcpu rdx) :=
  ⟨Or.inl (by simp; right; right; right; left; rfl), fun h => absurd h (show msrIa32SysenterEip ≠ msrEfer by decide)⟩

theorem wrmsr_rdmsr_small :
    ReadsBack ((handleWrmsr 0 (sysenterVcpu 0)).getD default) (sysenterVcpu 0).msrData ↔ MsrKept (sysenterVcpu 0) :=
  wrmsr_rdmsr_iff 0 _ _ _ (sysenter_accepted 0) rfl (sysenter_next 0)

theorem sysenter_truncated : ¬∀ (tsc : BitVec 64) (s t u : KvmVcpu), WrmsrAccepted s → handleWrmsr tsc s = some t →
    RdmsrNext t u → ReadsBack u s.msrData := by
  intro hall
  obtain ⟨-, hread⟩ := hall 0 _ _ _ (sysenter_accepted 1) rfl (sysenter_next 1)
  exact absurd hread (by decide)

end LearnKvm
