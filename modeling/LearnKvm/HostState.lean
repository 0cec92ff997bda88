import LearnKvm.VcpuSetup

/-!
# The state of the host around a VM entry (`kvm_dev_ioctl_run`, x86_64)

A VM exit loads the processor from the host fields of the VMCS and from the array of MSRs.  The fields for what differs
between the processors are written by `__vcpu_load` when the vcpu moves to another one, most of the others once, by
`kvm_vcpu_setup`.  The rest is switched by hand around the assembler: the x87 state, the first MSRs, and selectors that
the processor does not accept in a host field.

`host_restored` says what the processor has after an entry, in any run in which the vcpu moves between processors on which
other things happen in between: its own state, apart from a short list.  `guest_kept` says that the guest has its x87
state and its MSRs, as it left them.  The general registers are the subject of `world_switch`.
-/

namespace LearnKvm

/-- What the host has in a processor.  `msr` has the MSRs without those for the bases of FS and GS; `descBase` are the
bases that the descriptor tables in memory give to selectors. -/
@[ext] structure HostProcessor (Fx : Type) where
  cr0 : BitVec 64
  cr3 : BitVec 64
  cr4 : BitVec 64
  cs : BitVec 16
  ss : BitVec 16
  ds : BitVec 16
  es : BitVec 16
  fs : BitVec 16
  gs : BitVec 16
  tr : BitVec 16
  ldt : BitVec 16
  fsBase : BitVec 64
  gsBase : BitVec 64
  trBase : BitVec 64
  gdtrBase : BitVec 64
  gdtrLimit : BitVec 16
  idtrBase : BitVec 64
  idtrLimit : BitVec 16
  sysenterCs : BitVec 32
  sysenterEsp : BitVec 64
  sysenterEip : BitVec 64
  dr : Fin 4 → BitVec 64
  dr7 : BitVec 64
  debugctl : BitVec 64
  msr : BitVec 32 → BitVec 64
  fpu : Fx
  descBase : BitVec 16 → BitVec 64

/-- Selectors of the kernel, and which MSRs the processors have: all of `vmxMsrIndex` on x86_64, of which the code needs
`nrBadMsrs` at least. -/
structure HostKernel where
  kernelCs : BitVec 16
  kernelDs : BitVec 16
  tss : BitVec 16
  hasMsr : BitVec 32 → Bool
  badMsrs : nrBadMsrs ≤ (vmxMsrIndex.filter hasMsr).length

def HostKernel.msrs (K : HostKernel) : List (BitVec 32) := vmxMsrIndex.filter K.hasMsr

/-- What a vcpu has for the switch; `bp` is there if the debugger is enabled. -/
structure RunVcpu (Cpu Fx : Type) where
  cpu : Option Cpu
  launched : Bool
  vmcs : Vmcs
  hostFx : Fx
  guestFx : Fx
  hostMsrs : List VmxMsrEntry
  guestMsrs : List VmxMsrEntry
  bp : Option (Fin 4 → BitVec 64)

section Code

variable {Cpu Fx : Type}

def loadMsrs (es : List VmxMsrEntry) (c : HostProcessor Fx) : HostProcessor Fx :=
  { c with msr := es.foldl (fun msr e => Function.update msr e.index e.data) c.msr }

def saveMsrs (es : List VmxMsrEntry) (c : HostProcessor Fx) : List VmxMsrEntry :=
  es.map fun e => { e with data := c.msr e.index }

/-- `__vcpu_load`, what it does for the host; the VMCS itself moves in `VmcsStep`. -/
def vcpuLoad [DecidableEq Cpu] (k : Cpu) (c : HostProcessor Fx) (v : RunVcpu Cpu Fx) : RunVcpu Cpu Fx :=
  if v.cpu = some k then v
  else { v with
    cpu := some k
    launched := false
    vmcs := vmcsWrites [(.hostTrBase, c.descBase c.tr), (.hostGdtrBase, c.gdtrBase),
      (.hostIa32SysenterEsp, c.sysenterEsp)] v.vmcs }

/-- The part of `kvm_vcpu_setup` for the host. -/
def setupHost (K : HostKernel) (c : HostProcessor Fx) (v : RunVcpu Cpu Fx) : RunVcpu Cpu Fx :=
  { v with
    vmcs := vmcsWrites [(.hostCr0, c.cr0), (.hostCr4, c.cr4), (.hostCr3, c.cr3),
      (.hostCsSelector, K.kernelCs.setWidth 64), (.hostDsSelector, K.kernelDs.setWidth 64),
      (.hostEsSelector, K.kernelDs.setWidth 64), (.hostFsSelector, c.fs.setWidth 64), (.hostGsSelector, c.gs.setWidth 64),
      (.hostSsSelector, K.kernelDs.setWidth 64), (.hostFsBase, c.fsBase), (.hostGsBase, c.gsBase),
      (.hostTrSelector, K.tss.setWidth 64), (.hostIdtrBase, c.idtrBase), (.hostIa32SysenterCs, c.sysenterCs.setWidth 64),
      (.hostIa32SysenterEsp, c.sysenterEsp), (.hostIa32SysenterEip, c.sysenterEip)] v.vmcs
    hostMsrs := K.msrs.map fun i => ⟨i, c.msr i⟩
    guestMsrs := K.msrs.map fun i => ⟨i, c.msr i⟩ }

def fsGsLdtReloadNeeded (c : HostProcessor Fx) : Bool := (c.fs &&& 7) ||| (c.gs &&& 7) ||| c.ldt != 0

/-- From `again` to the assembler. -/
def beforeEntry (c : HostProcessor Fx) (v : RunVcpu Cpu Fx) : HostProcessor Fx × RunVcpu Cpu Fx :=
  let selectors := if fsGsLdtReloadNeeded c then (0, 0) else (c.fs, c.gs)
  let v := { v with
    vmcs := vmcsWrites [(.hostFsSelector, selectors.1.setWidth 64), (.hostGsSelector, selectors.2.setWidth 64),
      (.hostFsBase, c.fsBase), (.hostGsBase, c.gsBase)] v.vmcs }
  let c := { c with dr := v.bp.getD c.dr }
  let v := { v with hostFx := c.fpu }
  let c := { c with fpu := v.guestFx }
  let v := { v with hostMsrs := saveMsrs v.hostMsrs c }
  (loadMsrs (v.guestMsrs.take nrBadMsrs) c, v)

/-- The bits of CR0 that VM entries and VM exits leave alone: ET, NW, CD and the reserved ones. -/
def cr0Unmodified : BitVec 64 := 0xffffffff7ffaffd0#64

/-- The processor at a VM exit. -/
def vmExit (c : HostProcessor Fx) (v : RunVcpu Cpu Fx) : HostProcessor Fx × RunVcpu Cpu Fx :=
  let v := { v with guestMsrs := v.guestMsrs.take nrBadMsrs ++ saveMsrs (v.guestMsrs.drop nrBadMsrs) c }
  let c := { c with
    cr0 := (vmcsReadl v.vmcs .hostCr0 &&& ~~~cr0Unmodified) ||| (c.cr0 &&& cr0Unmodified)
    cr3 := vmcsReadl v.vmcs .hostCr3
    cr4 := vmcsReadl v.vmcs .hostCr4
    cs := vmcsRead16 v.vmcs .hostCsSelector
    ss := vmcsRead16 v.vmcs .hostSsSelector
    ds := vmcsRead16 v.vmcs .hostDsSelector
    es := vmcsRead16 v.vmcs .hostEsSelector
    fs := vmcsRead16 v.vmcs .hostFsSelector
    gs := vmcsRead16 v.vmcs .hostGsSelector
    tr := vmcsRead16 v.vmcs .hostTrSelector
    ldt := 0
    fsBase := vmcsReadl v.vmcs .hostFsBase
    gsBase := vmcsReadl v.vmcs .hostGsBase
    trBase := vmcsReadl v.vmcs .hostTrBase
    gdtrBase := vmcsReadl v.vmcs .hostGdtrBase
    gdtrLimit := 0xffff
    idtrBase := vmcsReadl v.vmcs .hostIdtrBase
    idtrLimit := 0xffff
    sysenterCs := vmcsRead32 v.vmcs .hostIa32SysenterCs
    sysenterEsp := vmcsReadl v.vmcs .hostIa32SysenterEsp
    sysenterEip := vmcsReadl v.vmcs .hostIa32SysenterEip
    dr7 := 0x400
    debugctl := 0 }
  (loadMsrs (v.hostMsrs.drop nrBadMsrs) c, v)

/-- From the assembler to the call of `kvm_handle_exit`; `host` are the selectors that were read at `again`. -/
def afterExit (host : HostProcessor Fx) (fail : Bool) (c : HostProcessor Fx) (v : RunVcpu Cpu Fx) :
    HostProcessor Fx × RunVcpu Cpu Fx :=
  let v := { v with guestMsrs := saveMsrs (v.guestMsrs.take nrBadMsrs) c ++ v.guestMsrs.drop nrBadMsrs }
  let c := loadMsrs (v.hostMsrs.take nrBadMsrs) c
  let v := { v with guestFx := c.fpu }
  let c := { c with fpu := v.hostFx }
  if fail then (c, v)
  else
    let c := if fsGsLdtReloadNeeded host then
        let c := { c with ldt := host.ldt }
        let c := { c with fs := host.fs, fsBase := c.descBase host.fs }
        let c := { c with gs := host.gs, gsBase := c.descBase host.gs }
        { c with gsBase := vmcsReadl v.vmcs .hostGsBase }
      else c
    (c, { v with launched := true })

/-- What the guest, and a VM entry that loads its state, may do to the processor.  RDMSR, WRMSR and MOV to debug registers
exit, so only MSRs of the arrays change; host memory is not the guest's. -/
structure GuestSpan (K : HostKernel) (Fx : Type) where
  run : HostProcessor Fx → HostProcessor Fx
  msr : ∀ c, ∀ i ∉ K.msrs, (run c).msr i = c.msr i
  dr : ∀ c, (run c).dr = c.dr
  descBase : ∀ c, (run c).descBase = c.descBase

variable {K : HostKernel}

/-- The processor when the guest starts. -/
def entered (c : HostProcessor Fx) (v : RunVcpu Cpu Fx) : HostProcessor Fx :=
  let before := beforeEntry c v
  loadMsrs (before.2.guestMsrs.drop nrBadMsrs) before.1

/-- One round of the loop of `kvm_dev_ioctl_run`; `none` is an entry that fails. -/
def runOnce (out : Option (GuestSpan K Fx)) (c : HostProcessor Fx) (v : RunVcpu Cpu Fx) :
    HostProcessor Fx × RunVcpu Cpu Fx :=
  let before := beforeEntry c v
  match out with
  | none => afterExit c true before.1 before.2
  | some g =>
    let exit := vmExit (g.run (entered c v)) before.2
    afterExit c false exit.1 exit.2

end Code

/-! ### The MSR arrays -/

section Lemmas

variable {Cpu Fx : Type} {K : HostKernel} {c c' : HostProcessor Fx} {v v' : RunVcpu Cpu Fx}

theorem loadMsrs_cons (e : VmxMsrEntry) (es : List VmxMsrEntry) (c : HostProcessor Fx) :
    loadMsrs (e :: es) c = loadMsrs es { c with msr := Function.update c.msr e.index e.data } := rfl

/-- Entries for other MSRs do not matter. -/
theorem msr_loadMsrs_of_not_mem {es : List VmxMsrEntry} {i : BitVec 32} (h : i ∉ es.map (·.index)) :
    (loadMsrs es c).msr i = c.msr i := by
  induction es generalizing c with
  | nil => rfl
  | cons e es ih =>
    simp only [List.map_cons, List.mem_cons, not_or] at h
    rw [loadMsrs_cons]
    exact (ih h.2).trans (Function.update_of_ne h.1 ..)

theorem msr_loadMsrs {es : List VmxMsrEntry} (h : (es.map (·.index)).Nodup) {e : VmxMsrEntry} (he : e ∈ es) :
    (loadMsrs es c).msr e.index = e.data := by
  induction es generalizing c with
  | nil => cases he
  | cons e' es ih =>
    simp only [List.map_cons, List.nodup_cons] at h
    rw [loadMsrs_cons]
    rcases List.mem_cons.1 he with rfl | he
    · exact (msr_loadMsrs_of_not_mem h.1).trans (Function.update_self ..)
    · exact ih h.2 he

@[simp] theorem map_index_saveMsrs (es : List VmxMsrEntry) (c : HostProcessor Fx) :
    (saveMsrs es c).map (·.index) = es.map (·.index) := by
  unfold saveMsrs
  rw [List.map_map]
  rfl

/-- MSRs that have been saved are loaded. -/
theorem msr_loadMsrs_saveMsrs {es : List VmxMsrEntry} {i : BitVec 32} (h : i ∈ es.map (·.index)) :
    (loadMsrs (saveMsrs es c) c').msr i = c.msr i := by
  induction es generalizing c' with
  | nil => cases h
  | cons e es ih =>
    by_cases hi : i ∈ es.map (·.index)
    · show (loadMsrs (saveMsrs es c) { c' with msr := Function.update c'.msr e.index (c.msr e.index) }).msr i = _
      exact ih hi
    · simp only [List.map_cons, List.mem_cons, hi, or_false] at h
      subst h
      have hnot : e.index ∉ (saveMsrs es c).map (·.index) := by
        rw [map_index_saveMsrs]
        exact hi
      show (loadMsrs (saveMsrs es c) { c' with msr := Function.update c'.msr e.index (c.msr e.index) }).msr e.index = _
      exact (msr_loadMsrs_of_not_mem hnot).trans (Function.update_self ..)

theorem nodup_msrs : K.msrs.Nodup := List.Nodup.filter _ (by decide)

/-! ### One round -/

/-- The arrays of a vcpu are those of `kvm_vcpu_setup`. -/
structure MsrArrays (K : HostKernel) (v : RunVcpu Cpu Fx) : Prop where
  host : v.hostMsrs.map (·.index) = K.msrs
  guest : v.guestMsrs.map (·.index) = K.msrs

theorem ldt_of_not_reload (h : fsGsLdtReloadNeeded c = false) : c.ldt = 0 := by
  unfold fsGsLdtReloadNeeded at h
  rw [bne_eq_false_iff_eq] at h
  refine BitVec.eq_of_hasBit fun i _ => ?_
  have hi := congrArg (BitVec.hasBit · i) h
  simp only [BitVec.hasBit_or, BitVec.ofNat_eq_ofNat, BitVec.hasBit_zero, Bool.or_eq_false_iff] at hi
  simpa using hi.2

/-- MSRs that the guest does not change are restored with the others. -/
theorem msr_restored {es : List VmxMsrEntry} {x y : HostProcessor Fx} (hx : ∀ i ∉ es.map (·.index), x.msr i = c.msr i)
    (n : Nat)
    (hy : y.msr = (loadMsrs ((saveMsrs es c).drop n) x).msr) :
    (loadMsrs ((saveMsrs es c).take n) y).msr = c.msr := by
  funext i
  have htake : (saveMsrs es c).take n = saveMsrs (es.take n) c := List.map_take.symm
  have hdrop : (saveMsrs es c).drop n = saveMsrs (es.drop n) c := List.map_drop.symm
  rw [htake]
  by_cases h1 : i ∈ (es.take n).map (·.index)
  · exact msr_loadMsrs_saveMsrs h1
  · rw [msr_loadMsrs_of_not_mem (by rwa [map_index_saveMsrs]), hy, hdrop]
    by_cases h2 : i ∈ (es.drop n).map (·.index)
    · exact msr_loadMsrs_saveMsrs h2
    · rw [msr_loadMsrs_of_not_mem (by rwa [map_index_saveMsrs])]
      refine hx i ?_
      rw [← List.take_append_drop n es, List.map_append, List.mem_append, not_or]
      exact ⟨h1, h2⟩

/-- What the host has after a VM exit, from the fields of the VMCS, the CR0 that the guest leaves, and what it had. -/
def afterSwitch (v : Vmcs) (bp : Option (Fin 4 → BitVec 64)) (cr0 : BitVec 64) (c : HostProcessor Fx) : HostProcessor Fx :=
  { c with
    cr0 := (vmcsReadl v .hostCr0 &&& ~~~cr0Unmodified) ||| (cr0 &&& cr0Unmodified)
    cr3 := vmcsReadl v .hostCr3
    cr4 := vmcsReadl v .hostCr4
    cs := vmcsRead16 v .hostCsSelector
    ss := vmcsRead16 v .hostSsSelector
    ds := vmcsRead16 v .hostDsSelector
    es := vmcsRead16 v .hostEsSelector
    tr := vmcsRead16 v .hostTrSelector
    fsBase := if fsGsLdtReloadNeeded c then c.descBase c.fs else c.fsBase
    trBase := vmcsReadl v .hostTrBase
    gdtrBase := vmcsReadl v .hostGdtrBase
    gdtrLimit := 0xffff
    idtrBase := vmcsReadl v .hostIdtrBase
    idtrLimit := 0xffff
    sysenterCs := vmcsRead32 v .hostIa32SysenterCs
    sysenterEsp := vmcsReadl v .hostIa32SysenterEsp
    sysenterEip := vmcsReadl v .hostIa32SysenterEip
    dr := bp.getD c.dr
    dr7 := 0x400
    debugctl := 0 }

theorem msr_entered (h : MsrArrays K v) {i : BitVec 32} (hi : i ∉ K.msrs) : (entered c v).msr i = c.msr i := by
  have hsub : ∀ es : List VmxMsrEntry, es ⊆ v.guestMsrs → i ∉ es.map (·.index) := fun es hes hmem => hi (by
    rw [← h.guest]
    exact List.map_subset _ hes hmem)
  exact (msr_loadMsrs_of_not_mem (hsub _ (List.drop_subset ..))).trans
    (msr_loadMsrs_of_not_mem (hsub _ (List.take_subset ..)))

/-- The fields that `beforeEntry` writes. -/
theorem vmcsReadl_beforeEntry {f : VmcsField} (hf : f ∉ [VmcsField.hostFsSelector, .hostGsSelector, .hostFsBase, .hostGsBase]) :
    vmcsReadl (beforeEntry c v).2.vmcs f = vmcsReadl v.vmcs f := by
  simp only [List.mem_cons, List.not_mem_nil, or_false, not_or] at hf
  unfold beforeEntry vmcsWrites
  simp [vmcsReadl_vmcsWritel, hf]

theorem hostSelectors_beforeEntry (h : fsGsLdtReloadNeeded c = false) :
    vmcsRead16 (beforeEntry c v).2.vmcs .hostFsSelector = c.fs ∧
      vmcsRead16 (beforeEntry c v).2.vmcs .hostGsSelector = c.gs := by
  unfold beforeEntry vmcsRead16 vmcsWrites
  simp [h, vmcsReadl_vmcsWritel]

theorem hostBases_beforeEntry : vmcsReadl (beforeEntry c v).2.vmcs .hostFsBase = c.fsBase ∧
    vmcsReadl (beforeEntry c v).2.vmcs .hostGsBase = c.gsBase := by
  unfold beforeEntry vmcsWrites
  simp [vmcsReadl_vmcsWritel]

theorem afterSwitch_beforeEntry (bp : Option (Fin 4 → BitVec 64)) (cr0 : BitVec 64) (x : HostProcessor Fx) :
    afterSwitch (beforeEntry c v).2.vmcs bp cr0 x = afterSwitch v.vmcs bp cr0 x := by
  unfold afterSwitch vmcsRead16 vmcsRead32
  simp (disch := decide) only [vmcsReadl_beforeEntry]

theorem runOnce_exits (h : MsrArrays K v) (g : GuestSpan K Fx) (c : HostProcessor Fx) :
    (runOnce (some g) c v).1 = afterSwitch v.vmcs v.bp (g.run (entered c v)).cr0 c := by
  have hmsr : (runOnce (some g) c v).1.msr = c.msr := by
    have hguest : ∀ i ∉ v.hostMsrs.map (·.index), (g.run (entered c v)).msr i = c.msr i := fun i hi => by
      rw [h.host] at hi
      rw [g.msr _ i hi, msr_entered h hi]
    have hrest := msr_restored hguest nrBadMsrs (y := (vmExit (g.run (entered c v)) (beforeEntry c v).2).1) rfl
    rw [← hrest]
    unfold runOnce afterExit
    dsimp only
    split
    · rfl
    · split <;> rfl
  obtain ⟨hfs, hgs⟩ := @hostBases_beforeEntry _ _ c v
  have hdr : (g.run (entered c v)).dr = v.bp.getD c.dr := g.dr _
  have hdesc : (g.run (entered c v)).descBase = c.descBase := g.descBase _
  rw [← afterSwitch_beforeEntry (c := c)]
  cases hr : fsGsLdtReloadNeeded c with
  | true =>
    have key : (runOnce (some g) c v).1 = { afterSwitch (beforeEntry c v).2.vmcs v.bp (g.run (entered c v)).cr0 c with
        msr := (runOnce (some g) c v).1.msr
        fsBase := (g.run (entered c v)).descBase c.fs
        gsBase := vmcsReadl (beforeEntry c v).2.vmcs .hostGsBase
        dr := (g.run (entered c v)).dr
        descBase := (g.run (entered c v)).descBase } := by
      unfold runOnce afterExit afterSwitch
      simp only [hr, Bool.false_eq_true, if_false, if_true]
      rfl
    rw [key, hmsr, hgs, hdr, hdesc]
    unfold afterSwitch
    simp only [hr, if_true]
  | false =>
    have key : (runOnce (some g) c v).1 = { afterSwitch (beforeEntry c v).2.vmcs v.bp (g.run (entered c v)).cr0 c with
        msr := (runOnce (some g) c v).1.msr
        fs := vmcsRead16 (beforeEntry c v).2.vmcs .hostFsSelector
        gs := vmcsRead16 (beforeEntry c v).2.vmcs .hostGsSelector
        ldt := 0
        fsBase := vmcsReadl (beforeEntry c v).2.vmcs .hostFsBase
        gsBase := vmcsReadl (beforeEntry c v).2.vmcs .hostGsBase
        dr := (g.run (entered c v)).dr
        descBase := (g.run (entered c v)).descBase } := by
      unfold runOnce afterExit afterSwitch
      simp only [hr, Bool.false_eq_true, if_false]
      rfl
    rw [key, hmsr, hfs, hgs, hdr, hdesc, (hostSelectors_beforeEntry hr).1, (hostSelectors_beforeEntry hr).2,
      ← ldt_of_not_reload hr]
    unfold afterSwitch
    simp only [hr, Bool.false_eq_true, if_false]

theorem MsrArrays.take (h : MsrArrays K v) (n : Nat) :
    (v.hostMsrs.take n).map (·.index) = (v.guestMsrs.take n).map (·.index) := by
  rw [List.map_take, List.map_take, h.host, h.guest]

theorem runOnce_fails (h : MsrArrays K v) (c : HostProcessor Fx) :
    (runOnce (none : Option (GuestSpan K Fx)) c v).1 = { c with dr := v.bp.getD c.dr } := by
  have hmsr : (runOnce (none : Option (GuestSpan K Fx)) c v).1.msr = c.msr := by
    funext i
    show (loadMsrs ((saveMsrs v.hostMsrs c).take nrBadMsrs) (beforeEntry c v).1).msr i = _
    rw [show (saveMsrs v.hostMsrs c).take nrBadMsrs = saveMsrs (v.hostMsrs.take nrBadMsrs) c from List.map_take.symm]
    by_cases hi : i ∈ (v.hostMsrs.take nrBadMsrs).map (·.index)
    · exact msr_loadMsrs_saveMsrs hi
    · rw [msr_loadMsrs_of_not_mem (by rwa [map_index_saveMsrs])]
      exact msr_loadMsrs_of_not_mem (by rwa [← h.take])
  have key : (runOnce (none : Option (GuestSpan K Fx)) c v).1 = { c with
      dr := v.bp.getD c.dr
      msr := (runOnce (none : Option (GuestSpan K Fx)) c v).1.msr } := rfl
  rw [key, hmsr]

/-! ### The guest -/

theorem nodup_guestMsrs (h : MsrArrays K v) : (v.guestMsrs.map (·.index)).Nodup := h.guest ▸ nodup_msrs

/-- The MSRs at the front of an array are not among the others. -/
theorem not_mem_drop {es : List VmxMsrEntry} (h : (es.map (·.index)).Nodup) {n : Nat} {e : VmxMsrEntry}
    (he : e ∈ es.take n) :
    e.index ∉ (es.drop n).map (·.index) := by
  rw [← List.take_append_drop n es, List.map_append] at h
  exact (List.nodup_append.1 h).2.2 e.index (List.mem_map_of_mem he) |> fun hne hmem => hne e.index hmem rfl

/-- The guest starts with the MSRs of its array. -/
theorem msr_entered_guest (h : MsrArrays K v) {e : VmxMsrEntry} (he : e ∈ v.guestMsrs) :
    (entered c v).msr e.index = e.data := by
  have hnd := nodup_guestMsrs h
  rw [← List.take_append_drop nrBadMsrs v.guestMsrs] at he
  rcases List.mem_append.1 he with he | he
  · refine (msr_loadMsrs_of_not_mem (not_mem_drop hnd he)).trans (msr_loadMsrs ?_ he)
    rw [List.map_take]
    exact hnd.sublist (List.take_sublist ..)
  · refine msr_loadMsrs ?_ he
    rw [List.map_drop]
    exact hnd.sublist (List.drop_sublist ..)

theorem length_take_guestMsrs (h : MsrArrays K v) : (v.guestMsrs.take nrBadMsrs).length = nrBadMsrs := by
  have hlen : v.guestMsrs.length = K.msrs.length := by rw [← h.guest, List.length_map]
  rw [List.length_take, hlen]
  exact Nat.min_eq_left K.badMsrs

theorem guestMsrs_exits (h : MsrArrays K v) (g : GuestSpan K Fx) (c : HostProcessor Fx) :
    (runOnce (some g) c v).2.guestMsrs = saveMsrs v.guestMsrs (g.run (entered c v)) := by
  have hlen := length_take_guestMsrs h
  generalize hx : g.run (entered c v) = x
  have hdrop : (v.hostMsrs.drop nrBadMsrs).map (·.index) = (v.guestMsrs.drop nrBadMsrs).map (·.index) := by
    rw [List.map_drop, List.map_drop, h.host, h.guest]
  -- the exit has loaded the other MSRs of the host only
  have hbad : saveMsrs (v.guestMsrs.take nrBadMsrs) (vmExit x (beforeEntry c v).2).1 =
      saveMsrs (v.guestMsrs.take nrBadMsrs) x := by
    refine List.map_congr_left fun e he => ?_
    congr 1
    show (loadMsrs ((saveMsrs v.hostMsrs c).drop nrBadMsrs) { x with }).msr e.index = x.msr e.index
    rw [show (saveMsrs v.hostMsrs c).drop nrBadMsrs = saveMsrs (v.hostMsrs.drop nrBadMsrs) c from List.map_drop.symm]
    refine msr_loadMsrs_of_not_mem ?_
    rw [map_index_saveMsrs, hdrop]
    exact not_mem_drop (nodup_guestMsrs h) he
  have hguest : (runOnce (some g) c v).2.guestMsrs =
      saveMsrs ((v.guestMsrs.take nrBadMsrs ++ saveMsrs (v.guestMsrs.drop nrBadMsrs) x).take nrBadMsrs)
        (vmExit x (beforeEntry c v).2).1 ++
      (v.guestMsrs.take nrBadMsrs ++ saveMsrs (v.guestMsrs.drop nrBadMsrs) x).drop nrBadMsrs := by
    rw [← hx]
    rfl
  rw [hguest, List.take_left' hlen, List.drop_left' hlen, hbad]
  unfold saveMsrs
  rw [← List.map_append, List.take_append_drop]

theorem guestMsrs_fails (h : MsrArrays K v) (c : HostProcessor Fx) :
    (runOnce (none : Option (GuestSpan K Fx)) c v).2.guestMsrs = v.guestMsrs := by
  have hnd := nodup_guestMsrs h
  have hsame : saveMsrs (v.guestMsrs.take nrBadMsrs) (beforeEntry c v).1 = v.guestMsrs.take nrBadMsrs := by
    refine (List.map_congr_left fun e he => ?_).trans (List.map_id _)
    have hload : (beforeEntry c v).1.msr e.index = e.data := by
      refine msr_loadMsrs ?_ he
      rw [List.map_take]
      exact hnd.sublist (List.take_sublist ..)
    rw [hload]
    rfl
  show saveMsrs (v.guestMsrs.take nrBadMsrs) (beforeEntry c v).1 ++ v.guestMsrs.drop nrBadMsrs = v.guestMsrs
  rw [hsame, List.take_append_drop]

end Lemmas

/-! ### Runs on several processors -/

section Runs

variable {Cpu Fx : Type} [DecidableEq Cpu] {K : HostKernel}

/-- A vcpu among the processors; `loaded` is where it is between `vcpu_load` and `vcpu_put`. -/
structure HostSystem (Cpu Fx : Type) where
  cpus : Cpu → HostProcessor Fx
  vcpu : RunVcpu Cpu Fx
  loaded : Option Cpu

/-- Linux has one TSS, GDT and SYSENTER stack for each processor. -/
structure SameProcessor (c c' : HostProcessor Fx) : Prop where
  tr : c'.tr = c.tr
  trBase : c'.trBase = c.trBase
  descBase : c'.descBase c'.tr = c.descBase c.tr
  gdtrBase : c'.gdtrBase = c.gdtrBase
  sysenterEsp : c'.sysenterEsp = c.sysenterEsp

/-- The fields that `kvm_vcpu_setup` writes once. -/
def setupFields (K : HostKernel) (c : HostProcessor Fx) : List (VmcsField × BitVec 64) :=
  [(.hostCr0, c.cr0), (.hostCr4, c.cr4), (.hostCr3, c.cr3), (.hostCsSelector, K.kernelCs.setWidth 64),
    (.hostDsSelector, K.kernelDs.setWidth 64), (.hostEsSelector, K.kernelDs.setWidth 64),
    (.hostSsSelector, K.kernelDs.setWidth 64), (.hostTrSelector, K.tss.setWidth 64), (.hostIdtrBase, c.idtrBase),
    (.hostIa32SysenterCs, c.sysenterCs.setWidth 64), (.hostIa32SysenterEip, c.sysenterEip)]

/-- The fields for what each processor has of its own. -/
def processorFields (c : HostProcessor Fx) : List (VmcsField × BitVec 64) :=
  [(.hostTrBase, c.trBase), (.hostGdtrBase, c.gdtrBase), (.hostIa32SysenterEsp, c.sysenterEsp)]

/-- The fields have these values. -/
def HasFields (v : Vmcs) (l : List (VmcsField × BitVec 64)) : Prop := ∀ x ∈ l, vmcsReadl v x.1 = x.2

def hostFields : List VmcsField :=
  [.hostCr0, .hostCr4, .hostCr3, .hostCsSelector, .hostDsSelector, .hostEsSelector, .hostSsSelector, .hostTrSelector,
    .hostIdtrBase, .hostIa32SysenterCs, .hostIa32SysenterEip, .hostTrBase, .hostGdtrBase, .hostIa32SysenterEsp]

/-- What the handlers of exits leave alone. -/
structure SameSwitch (v v' : RunVcpu Cpu Fx) : Prop where
  cpu : v'.cpu = v.cpu
  vmcs : ∀ f ∈ hostFields, vmcsReadl v'.vmcs f = vmcsReadl v.vmcs f
  hostMsrs : v'.hostMsrs.map (·.index) = v.hostMsrs.map (·.index)
  guestMsrs : v'.guestMsrs.map (·.index) = v.guestMsrs.map (·.index)

/-- The vcpu moves; `host` is anything else that happens on a processor: other tasks, other vcpus. -/
inductive HostMove : HostSystem Cpu Fx → HostSystem Cpu Fx → Prop
  | load {σ : HostSystem Cpu Fx} (k : Cpu) (h : σ.loaded = none) :
      HostMove σ { σ with vcpu := vcpuLoad k (σ.cpus k) σ.vcpu, loaded := some k }
  | put (σ : HostSystem Cpu Fx) : HostMove σ { σ with loaded := none }
  | host {σ : HostSystem Cpu Fx} {k : Cpu} {c : HostProcessor Fx} (h : SameProcessor (σ.cpus k) c) :
      HostMove σ { σ with cpus := Function.update σ.cpus k c }

/-- The vcpu runs on the processor once. -/
def HostSystem.run (σ : HostSystem Cpu Fx) (k : Cpu) (out : Option (GuestSpan K Fx)) : HostSystem Cpu Fx :=
  { σ with
    cpus := Function.update σ.cpus k (runOnce out (σ.cpus k) σ.vcpu).1
    vcpu := (runOnce out (σ.cpus k) σ.vcpu).2 }

inductive HostStep (K : HostKernel) : HostSystem Cpu Fx → HostSystem Cpu Fx → Prop
  | move {σ σ' : HostSystem Cpu Fx} (h : HostMove σ σ') : HostStep K σ σ'
  | run {σ : HostSystem Cpu Fx} {k : Cpu} (h : σ.loaded = some k) (out : Option (GuestSpan K Fx)) :
      HostStep K σ (σ.run k out)
  | handler {σ : HostSystem Cpu Fx} {v : RunVcpu Cpu Fx} (h : SameSwitch σ.vcpu v) : HostStep K σ { σ with vcpu := v }

/-- The task register has the TSS of the kernel, with the base that the GDT says. -/
def SaneTss (K : HostKernel) (c : HostProcessor Fx) : Prop := c.tr = K.tss ∧ c.trBase = c.descBase c.tr

/-- The states of the runs from `kvm_dev_ioctl_create_vcpu` on a processor in the state `c₀`. -/
inductive HostReachable (K : HostKernel) (c₀ : HostProcessor Fx) : HostSystem Cpu Fx → Prop
  | create {cpus : Cpu → HostProcessor Fx} {k : Cpu} {v : RunVcpu Cpu Fx} (hcpu : v.cpu = none) (hk : cpus k = c₀)
      (hsane : ∀ k, SaneTss K (cpus k)) : HostReachable K c₀ ⟨cpus, setupHost K c₀ (vcpuLoad k c₀ v), none⟩
  | step {σ σ' : HostSystem Cpu Fx} (h : HostReachable K c₀ σ) (hs : HostStep K σ σ') : HostReachable K c₀ σ'

/-- What holds between two steps. -/
structure HostInv (K : HostKernel) (c₀ : HostProcessor Fx) (σ : HostSystem Cpu Fx) : Prop where
  sane : ∀ k, SaneTss K (σ.cpus k)
  arrays : MsrArrays K σ.vcpu
  setup : HasFields σ.vcpu.vmcs (setupFields K c₀)
  processor : ∀ k, σ.vcpu.cpu = some k → HasFields σ.vcpu.vmcs (processorFields (σ.cpus k))
  loaded : ∀ k, σ.loaded = some k → σ.vcpu.cpu = some k

variable {c₀ c c' : HostProcessor Fx} {v v' : RunVcpu Cpu Fx} {σ σ' : HostSystem Cpu Fx} {k : Cpu}

theorem HasFields.congr {w w' : Vmcs} {l : List (VmcsField × BitVec 64)} (h : HasFields w l)
    (hw : ∀ f ∈ hostFields, vmcsReadl w' f = vmcsReadl w f) (hl : ∀ x ∈ l, x.1 ∈ hostFields) : HasFields w' l :=
  fun x hx => (hw x.1 (hl x hx)).trans (h x hx)

theorem setupFields_mem : ∀ x ∈ setupFields K c, x.1 ∈ hostFields := by
  simp [setupFields, hostFields]

theorem processorFields_mem : ∀ x ∈ processorFields c, x.1 ∈ hostFields := by
  simp [processorFields, hostFields]

theorem SameProcessor.fields (h : SameProcessor c c') : processorFields c' = processorFields c := by
  unfold processorFields
  rw [h.trBase, h.gdtrBase, h.sysenterEsp]

theorem SameProcessor.sane (h : SameProcessor c c') (hs : SaneTss K c) : SaneTss K c' :=
  ⟨h.tr.trans hs.1, h.trBase.trans (hs.2.trans h.descBase.symm)⟩

omit [DecidableEq Cpu] in
/-- A round changes neither the fields nor the place of the vcpu. -/
theorem runOnce_sameSwitch (h : MsrArrays K v) (out : Option (GuestSpan K Fx)) (c : HostProcessor Fx) :
    SameSwitch v (runOnce out c v).2 := by
  have hvmcs : (runOnce out c v).2.vmcs = (beforeEntry c v).2.vmcs := by cases out <;> rfl
  have hhost : (runOnce out c v).2.hostMsrs = (beforeEntry c v).2.hostMsrs := by cases out <;> rfl
  refine ⟨by cases out <;> rfl, fun f hf => ?_, ?_, ?_⟩
  · rw [hvmcs]
    refine vmcsReadl_beforeEntry fun hmem => ?_
    revert f
    decide
  · rw [hhost]
    exact map_index_saveMsrs ..
  · cases out with
    | none => rw [guestMsrs_fails h]
    | some g => rw [guestMsrs_exits h, map_index_saveMsrs]

omit [DecidableEq Cpu] in
theorem SameSwitch.arrays (h : SameSwitch v v') (ha : MsrArrays K v) : MsrArrays K v' :=
  ⟨h.hostMsrs.trans ha.host, h.guestMsrs.trans ha.guest⟩

omit [DecidableEq Cpu] in
/-- The processor, after a round that began with its own fields. -/
theorem runOnce_sameProcessor (h : MsrArrays K v) (hsane : SaneTss K c) (hsetup : HasFields v.vmcs (setupFields K c₀))
    (hproc : HasFields v.vmcs (processorFields c)) (out : Option (GuestSpan K Fx)) :
    SameProcessor c (runOnce out c v).1 := by
  have htr : vmcsRead16 v.vmcs .hostTrSelector = c.tr := by
    unfold vmcsRead16
    rw [hsetup (.hostTrSelector, K.tss.setWidth 64) (by simp [setupFields]), hsane.1]
    simp
  have htrBase : vmcsReadl v.vmcs .hostTrBase = c.trBase := hproc (.hostTrBase, c.trBase) (by simp [processorFields])
  have hgdtr : vmcsReadl v.vmcs .hostGdtrBase = c.gdtrBase := hproc (.hostGdtrBase, c.gdtrBase) (by simp [processorFields])
  have hesp : vmcsReadl v.vmcs .hostIa32SysenterEsp = c.sysenterEsp :=
    hproc (.hostIa32SysenterEsp, c.sysenterEsp) (by simp [processorFields])
  cases out with
  | none =>
    rw [runOnce_fails h]
    exact ⟨rfl, rfl, rfl, rfl, rfl⟩
  | some g =>
    rw [runOnce_exits h]
    exact ⟨htr, htrBase, congrArg c.descBase htr, hgdtr, hesp⟩

theorem HostInv.update (h : HostInv K c₀ σ) (hc : SameProcessor (σ.cpus k) c) (hv : SameSwitch σ.vcpu v)
    {loaded : Option Cpu} (hl : ∀ k, loaded = some k → σ.loaded = some k) :
    HostInv K c₀ ⟨Function.update σ.cpus k c, v, loaded⟩ where
  sane j := by
    dsimp only
    rcases eq_or_ne j k with rfl | hne
    · rw [Function.update_self]
      exact hc.sane (h.sane j)
    · rw [Function.update_of_ne hne]
      exact h.sane j
  arrays := hv.arrays h.arrays
  setup := h.setup.congr hv.vmcs setupFields_mem
  processor j hj := by
    have hfields := (h.processor j (hv.cpu ▸ hj)).congr hv.vmcs processorFields_mem
    dsimp only
    rcases eq_or_ne j k with rfl | hne
    · rw [Function.update_self, hc.fields]
      exact hfields
    · rw [Function.update_of_ne hne]
      exact hfields
  loaded j hj := hv.cpu.trans (h.loaded j (hl j hj))

/-- `__vcpu_load` has the fields of the new processor. -/
theorem vcpuLoad_processor (hsane : SaneTss K c) (hproc : v.cpu = some k → HasFields v.vmcs (processorFields c)) :
    (vcpuLoad k c v).cpu = some k ∧ HasFields (vcpuLoad k c v).vmcs (processorFields c) := by
  unfold vcpuLoad
  split
  · rename_i hk
    exact ⟨hk, hproc hk⟩
  · refine ⟨rfl, ?_⟩
    simp only [HasFields, processorFields, vmcsWrites, List.foldl_cons, List.foldl_nil, List.forall_mem_cons,
      List.not_mem_nil, false_imp_iff, implies_true, and_true, vmcsReadl_vmcsWritel, reduceCtorEq, if_false, if_true]
    rw [hsane.2]

theorem vcpuLoad_arrays (h : MsrArrays K v) (k : Cpu) (c : HostProcessor Fx) : MsrArrays K (vcpuLoad k c v) := by
  unfold vcpuLoad
  split
  · exact h
  · exact ⟨h.host, h.guest⟩

theorem vcpuLoad_setup (h : HasFields v.vmcs (setupFields K c₀)) :
    HasFields (vcpuLoad k c v).vmcs (setupFields K c₀) := by
  unfold vcpuLoad
  split
  · exact h
  · intro x hx
    have hne : x.1 ≠ .hostTrBase ∧ x.1 ≠ .hostGdtrBase ∧ x.1 ≠ .hostIa32SysenterEsp := by
      revert x
      simp [setupFields]
    simp only [vmcsWrites, List.foldl_cons, List.foldl_nil, vmcsReadl_vmcsWritel, hne, if_false]
    exact h x hx

theorem HostInv.load (h : HostInv K c₀ σ) (k : Cpu) :
    HostInv K c₀ { σ with vcpu := vcpuLoad k (σ.cpus k) σ.vcpu, loaded := some k } where
  sane := h.sane
  arrays := vcpuLoad_arrays h.arrays k (σ.cpus k)
  setup := vcpuLoad_setup h.setup
  processor j hj := by
    obtain ⟨hk, hfields⟩ := vcpuLoad_processor (h.sane k) (h.processor k)
    obtain rfl := Option.some.inj (hk.symm.trans hj)
    exact hfields
  loaded j hj := by
    obtain rfl := Option.some.inj hj
    exact (vcpuLoad_processor (h.sane k) (h.processor k)).1

theorem setupHost_inv {cpus : Cpu → HostProcessor Fx} (hcpu : v.cpu = none) (hk : cpus k = c₀)
    (hsane : ∀ k, SaneTss K (cpus k)) :
    HostInv K c₀ ⟨cpus, setupHost K c₀ (vcpuLoad k c₀ v), none⟩ := by
  subst hk
  obtain ⟨hload, hfields⟩ := vcpuLoad_processor (k := k) (v := v) (hsane k) (fun h => by rw [hcpu] at h; cases h)
  have harray : (K.msrs.map fun i => (⟨i, (cpus k).msr i⟩ : VmxMsrEntry)).map (·.index) = K.msrs := by
    rw [List.map_map]
    exact List.map_id _
  refine ⟨hsane, ⟨harray, harray⟩, ?_, fun j hj => ?_, fun j hj => nomatch hj⟩
  · simp [HasFields, setupFields, setupHost, vmcsWrites, vmcsReadl_vmcsWritel]
  · obtain rfl := Option.some.inj (hload.symm.trans hj)
    simp only [HasFields, processorFields, List.forall_mem_cons, List.not_mem_nil, false_imp_iff, implies_true, and_true]
      at hfields ⊢
    obtain ⟨htr, hgdtr, -⟩ := hfields
    simpa [setupHost, vmcsWrites, vmcsReadl_vmcsWritel] using ⟨htr, hgdtr⟩

theorem HostInv.move (h : HostInv K c₀ σ) (hm : HostMove σ σ') : HostInv K c₀ σ' := by
  cases hm with
  | load k hload => exact h.load k
  | put => exact ⟨h.sane, h.arrays, h.setup, h.processor, fun k hk => nomatch hk⟩
  | @host k c hc => exact h.update (v := σ.vcpu) hc ⟨rfl, fun _ _ => rfl, rfl, rfl⟩ fun _ h => h

theorem HostInv.run (h : HostInv K c₀ σ) (hk : σ.loaded = some k) (out : Option (GuestSpan K Fx)) :
    HostInv K c₀ (σ.run k out) :=
  h.update (runOnce_sameProcessor h.arrays (h.sane k) h.setup (h.processor k (h.loaded k hk)) out)
    (runOnce_sameSwitch h.arrays out (σ.cpus k)) fun _ hl => hl

theorem HostReachable.inv (h : HostReachable K c₀ σ) : HostInv K c₀ σ := by
  induction h with
  | create hcpu hk hsane => exact setupHost_inv hcpu hk hsane
  | @step σ σ' _ hs ih =>
    cases hs with
    | move hm => exact ih.move hm
    | run hk out => exact ih.run hk out
    | @handler v hv =>
      exact ⟨ih.sane, hv.arrays ih.arrays, ih.setup.congr hv.vmcs setupFields_mem,
        fun j hj => (ih.processor j (hv.cpu ▸ hj)).congr hv.vmcs processorFields_mem,
        fun j hj => hv.cpu.trans (ih.loaded j hj)⟩

/-- The processor after a round, with `cr0` from the guest: what the host does not get back is in the fields given here.
CD and NW are the guest's, CR3 is that of the process that created the vcpu, the base of FS comes from the descriptor
tables if selectors had to be reloaded, the debug registers are lost. -/
def restoredHost (K : HostKernel) (c₀ : HostProcessor Fx) (bp : Option (Fin 4 → BitVec 64)) (cr0 : BitVec 64)
    (c : HostProcessor Fx) : HostProcessor Fx :=
  { c with
    cr0 := (c₀.cr0 &&& ~~~cr0Unmodified) ||| (cr0 &&& cr0Unmodified)
    cr3 := c₀.cr3
    cr4 := c₀.cr4
    cs := K.kernelCs
    ss := K.kernelDs
    ds := K.kernelDs
    es := K.kernelDs
    fsBase := if fsGsLdtReloadNeeded c then c.descBase c.fs else c.fsBase
    gdtrLimit := 0xffff
    idtrBase := c₀.idtrBase
    idtrLimit := 0xffff
    sysenterCs := c₀.sysenterCs
    sysenterEip := c₀.sysenterEip
    dr := bp.getD c.dr
    dr7 := 0x400
    debugctl := 0 }

/-- **The host is restored.**  In every run, on whatever processor the vcpu is. -/
theorem host_restored (h : HostReachable K c₀ σ) (hk : σ.loaded = some k) :
    (∀ g : GuestSpan K Fx, (runOnce (some g) (σ.cpus k) σ.vcpu).1 =
      restoredHost K c₀ σ.vcpu.bp (g.run (entered (σ.cpus k) σ.vcpu)).cr0 (σ.cpus k)) ∧
    (runOnce (none : Option (GuestSpan K Fx)) (σ.cpus k) σ.vcpu).1 =
      { σ.cpus k with dr := σ.vcpu.bp.getD (σ.cpus k).dr } := by
  have hinv := h.inv
  refine ⟨fun g => ?_, runOnce_fails hinv.arrays _⟩
  have hproc := hinv.processor k (hinv.loaded k hk)
  have hsetup := hinv.setup
  rw [runOnce_exits hinv.arrays]
  simp only [HasFields, setupFields, processorFields, List.forall_mem_cons, List.not_mem_nil, false_imp_iff, implies_true,
    and_true] at hsetup hproc
  unfold afterSwitch restoredHost vmcsRead16 vmcsRead32
  simp [hsetup, hproc, ← (hinv.sane k).1]

/-! ### The guest on its way -/

/-- What travels with the vcpu. -/
theorem HostMove.kept (h : HostMove σ σ') :
    σ'.vcpu.guestMsrs = σ.vcpu.guestMsrs ∧ σ'.vcpu.guestFx = σ.vcpu.guestFx := by
  cases h with
  | load k =>
    unfold vcpuLoad
    split <;> exact ⟨rfl, rfl⟩
  | put => exact ⟨rfl, rfl⟩
  | host => exact ⟨rfl, rfl⟩

/-- **The guest keeps its state.**  It enters with the MSRs and the x87 state of its last exit, on whatever processor,
unless handlers have changed them. -/
theorem guest_kept (h : HostReachable K c₀ σ) (hk : σ.loaded = some k) (g : GuestSpan K Fx)
    (hmoves : Relation.ReflTransGen HostMove (σ.run k (some g)) σ') (k' : Cpu) :
    (∀ i ∈ K.msrs, (entered (σ'.cpus k') σ'.vcpu).msr i = (g.run (entered (σ.cpus k) σ.vcpu)).msr i) ∧
      (entered (σ'.cpus k') σ'.vcpu).fpu = (g.run (entered (σ.cpus k) σ.vcpu)).fpu := by
  have hinv := h.inv
  have hkept : HostInv K c₀ σ' ∧ σ'.vcpu.guestMsrs = (σ.run k (some g)).vcpu.guestMsrs ∧
      σ'.vcpu.guestFx = (σ.run k (some g)).vcpu.guestFx := by
    induction hmoves with
    | refl => exact ⟨hinv.run hk _, rfl, rfl⟩
    | tail _ hm ih => exact ⟨ih.1.move hm, hm.kept.1.trans ih.2.1, hm.kept.2.trans ih.2.2⟩
  obtain ⟨hinv', hmsrs, hfx⟩ := hkept
  refine ⟨fun i hi => ?_, hfx⟩
  have hguest : σ'.vcpu.guestMsrs = saveMsrs σ.vcpu.guestMsrs (g.run (entered (σ.cpus k) σ.vcpu)) :=
    hmsrs.trans (guestMsrs_exits hinv.arrays g (σ.cpus k))
  rw [← hinv.arrays.guest] at hi
  obtain ⟨e, he, rfl⟩ := List.mem_map.1 hi
  refine msr_entered_guest hinv'.arrays (e := { e with data := (g.run (entered (σ.cpus k) σ.vcpu)).msr e.index }) ?_
  rw [hguest]
  exact List.mem_map_of_mem he

/-! ### A vcpu that moves -/

theorem nrBadMsrs_le_all : nrBadMsrs ≤ (vmxMsrIndex.filter fun _ => true).length := by decide

/-- All MSRs are there. -/
def someKernel : HostKernel := ⟨0x10, 0x18, 0x40, fun _ => true, nrBadMsrs_le_all⟩

/-- A processor with `n` in what it has of its own. -/
def someCpu (n : BitVec 64) : HostProcessor Unit where
  cr0 := 0x80050033
  cr3 := 0x1000
  cr4 := 0x20a0
  cs := 0x10
  ss := 0x18
  ds := 0
  es := 0
  fs := 0
  gs := 0
  tr := 0x40
  ldt := 0
  fsBase := 0x7000
  gsBase := n
  trBase := n
  gdtrBase := n
  gdtrLimit := 0x7f
  idtrBase := 0x2000
  idtrLimit := 0xfff
  sysenterCs := 0x10
  sysenterEsp := n
  sysenterEip := 0x3000
  dr := fun _ => 0
  dr7 := 0x400
  debugctl := 0
  msr := fun _ => n
  fpu := ()
  descBase := fun _ => n

def someVcpu : RunVcpu Bool Unit := ⟨none, false, fun _ => 0, (), (), [], [], none⟩

def clearGuest (c : HostProcessor Unit) : HostProcessor Unit :=
  { c with cr3 := 0, gsBase := 0, msr := fun i => if someKernel.msrs.contains i then 0 else c.msr i }

theorem msr_clearGuest (c : HostProcessor Unit) (i : BitVec 32) (h : i ∉ someKernel.msrs) :
    (clearGuest c).msr i = c.msr i :=
  if_neg fun hi => h (List.contains_iff_mem.1 hi)

theorem dr_clearGuest (c : HostProcessor Unit) : (clearGuest c).dr = c.dr := rfl

theorem descBase_clearGuest (c : HostProcessor Unit) : (clearGuest c).descBase = c.descBase := rfl

/-- A guest that clears its MSRs and some registers. -/
def someGuest : GuestSpan someKernel Unit := ⟨clearGuest, msr_clearGuest, dr_clearGuest, descBase_clearGuest⟩

/-- The vcpu has been created on one processor and is loaded on the other. -/
def movedSystem : HostSystem Bool Unit where
  cpus b := someCpu (if b then 0x5000 else 0x6000)
  vcpu := vcpuLoad true (someCpu 0x5000) (setupHost someKernel (someCpu 0x6000) (vcpuLoad false (someCpu 0x6000) someVcpu))
  loaded := some true

theorem movedSystem_reachable : HostReachable someKernel (someCpu 0x6000) movedSystem := by
  have hcreate : HostReachable someKernel (someCpu 0x6000) ⟨fun b => someCpu (if b then 0x5000 else 0x6000),
      setupHost someKernel (someCpu 0x6000) (vcpuLoad false (someCpu 0x6000) someVcpu), none⟩ :=
    .create rfl rfl fun k => ⟨rfl, rfl⟩
  exact hcreate.step (.move (.load true rfl))

theorem host_restored_moved : (runOnce (some someGuest) (movedSystem.cpus true) movedSystem.vcpu).1 =
    restoredHost someKernel (someCpu 0x6000) none 0x80050033 (someCpu 0x5000) :=
  (host_restored movedSystem_reachable rfl).1 someGuest

theorem guest_kept_moved :
    (entered (someCpu 0x6000) (vcpuLoad false (someCpu 0x6000) (movedSystem.run true (some someGuest)).vcpu)).msr msrLstar =
      (someGuest.run (entered (movedSystem.cpus true) movedSystem.vcpu)).msr msrLstar := by
  have hput : HostMove (movedSystem.run true (some someGuest))
      { movedSystem.run true (some someGuest) with loaded := none } :=
    .put _
  have hload : HostMove { movedSystem.run true (some someGuest) with loaded := none } _ := .load false rfl
  exact (guest_kept movedSystem_reachable rfl someGuest (.tail (.single hput) hload) false).1 msrLstar
    (List.mem_filter.2 ⟨by decide, rfl⟩)

end Runs

end LearnKvm
