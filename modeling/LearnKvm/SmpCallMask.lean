import LearnKvm.Lib.ThreadPool
import Mathlib.Data.Finset.Sort
import Mathlib.Logic.Relation

/-!
# Calling a function on other CPUs (`kvm_smp_call_function_mask`)

The caller puts what is to be called into an object on its stack, sends a request to every target CPU and waits until the
counters of the object say that the handlers no longer need it.  A state of `SmpState` is one call: what the caller does
next, the object, and the handlers of the requests it has sent, each of which runs `kvm_ack_smp_call` at its own pace.

`SmpInv` holds in every state of a run (`SmpInv.run`), and `kvmSmpCallFunctionMask_run` reads the result off it.
-/

namespace LearnKvm

variable {Cpu F I : Type}

/-! ### `struct kvm_call_data_struct` -/

structure KvmCallData (F I : Type) where
  func : F
  info : I
  started : Int
  finished : Int
  wait : Bool

/-- The arguments of a call, the CPU it is made on and the CPUs that are online. -/
structure SmpCall (Cpu F I : Type) where
  mask : Finset Cpu
  func : F
  info : I
  wait : Bool
  online : Finset Cpu
  me : Cpu

/-! ### `kvm_ack_smp_call` -/

/-- What a handler has done: the values it holds are its own copies. -/
inductive AckPc (F I : Type) where
  | entered
  | readFunc (func : F)
  | readInfo (func : F) (info : I)
  | readWait (func : F) (info : I) (wait : Bool)
  | acked (func : F) (info : I) (wait : Bool)
  | calling (func : F) (info : I) (wait : Bool)
  | called (wait : Bool)
  | done

inductive AckLabel (F I : Type) where
  /-- The object on the caller's stack is read or written. -/
  | access
  | call (func : F) (info : I)
  | ret (func : F) (info : I)
  | leave

def kvmAckSmpCall (data : KvmCallData F I) : AckPc F I → Option (AckLabel F I × KvmCallData F I × AckPc F I)
  | .entered => some (.access, data, .readFunc data.func)
  | .readFunc func => some (.access, data, .readInfo func data.info)
  | .readInfo func info => some (.access, data, .readWait func info data.wait)
  | .readWait func info wait => some (.access, { data with started := data.started + 1 }, .acked func info wait)
  | .acked func info wait => some (.call func info, data, .calling func info wait)
  | .calling func info wait => some (.ret func info, data, .called wait)
  | .called true => some (.access, { data with finished := data.finished + 1 }, .done)
  | .called false => some (.leave, data, .done)
  | .done => none

/-! ### `kvm_smp_call_function_mask` -/

/-- What the caller does next. -/
inductive Caller (Cpu : Type) where
  | entered
  | setInfo
  | setStarted
  | setWait
  | setFinished
  | sending (rest : List Cpu)
  | waitStarted
  | waitFinished
  | returned

def Caller.hasReturned : Caller Cpu → Bool
  | .returned => true
  | _ => false

structure Handler (Cpu F I : Type) where
  cpu : Cpu
  pc : AckPc F I

structure SmpState (Cpu F I : Type) where
  caller : Caller Cpu
  data : KvmCallData F I
  handlers : List (Handler Cpu F I)
  /-- The calls of functions that have begun, and those that have returned. -/
  calls : List (Cpu × F × I)
  rets : List (Cpu × F × I)
  /-- A handler has accessed the object after the caller had returned. -/
  stale : Bool

section Code

variable [LinearOrder Cpu] (call : SmpCall Cpu F I)

/-- `mask` without the caller and the CPUs that are not online, in the order of `first_cpu` and `next_cpu`. -/
def SmpCall.targets : List Cpu := (call.mask ∩ call.online.erase call.me).sort (· ≤ ·)

/-- `cpus_weight` of these CPUs. -/
def SmpCall.cpus : Int := call.targets.length

def SmpState.record (s : SmpState Cpu F I) (cpu : Cpu) : AckLabel F I → SmpState Cpu F I
  | .access => { s with stale := s.stale || s.caller.hasReturned }
  | .call func info => { s with calls := s.calls ++ [(cpu, func, info)] }
  | .ret func info => { s with rets := s.rets ++ [(cpu, func, info)] }
  | .leave => s

inductive SmpStep : SmpState Cpu F I → SmpState Cpu F I → Prop
  | nobody {s} (h : s.caller = .entered) (hcpus : call.cpus = 0) : SmpStep s { s with caller := .returned }
  | setFunc {s} (h : s.caller = .entered) (hcpus : call.cpus ≠ 0) :
      SmpStep s { s with caller := .setInfo, data := { s.data with func := call.func } }
  | setInfo {s} (h : s.caller = .setInfo) :
      SmpStep s { s with caller := .setStarted, data := { s.data with info := call.info } }
  | setStarted {s} (h : s.caller = .setStarted) :
      SmpStep s { s with caller := .setWait, data := { s.data with started := 0 } }
  | setWait {s} (h : s.caller = .setWait) :
      SmpStep s { s with
        caller := if call.wait then .setFinished else .sending call.targets
        data := { s.data with wait := call.wait } }
  | setFinished {s} (h : s.caller = .setFinished) :
      SmpStep s { s with caller := .sending call.targets, data := { s.data with finished := 0 } }
  /-- `smp_call_function_single`: the request is delivered later. -/
  | send {s cpu rest} (h : s.caller = .sending (cpu :: rest)) :
      SmpStep s { s with caller := .sending rest, handlers := s.handlers ++ [⟨cpu, .entered⟩] }
  | sent {s} (h : s.caller = .sending []) : SmpStep s { s with caller := .waitStarted }
  | started {s} (h : s.caller = .waitStarted) (hcpus : s.data.started = call.cpus) :
      SmpStep s { s with caller := if call.wait then .waitFinished else .returned }
  | finished {s} (h : s.caller = .waitFinished) (hcpus : s.data.finished = call.cpus) :
      SmpStep s { s with caller := .returned }
  | handler {s handlers cpu pc label data pc'} (h : Replaces ⟨cpu, pc⟩ ⟨cpu, pc'⟩ s.handlers handlers)
      (hstep : kvmAckSmpCall s.data pc = some (label, data, pc')) :
      SmpStep s ({ s with data := data, handlers := handlers }.record cpu label)
  /-- The stack of a caller that has returned is used for other things. -/
  | reuse {s} (h : s.caller = .returned) (data : KvmCallData F I) : SmpStep s { s with data := data }

/-- The object on the stack is not initialised. -/
structure SmpStart (s : SmpState Cpu F I) : Prop where
  caller : s.caller = .entered
  handlers : s.handlers = []
  calls : s.calls = []
  rets : s.rets = []
  stale : s.stale = false

def SmpReachable (s : SmpState Cpu F I) : Prop := ∃ s₀, SmpStart s₀ ∧ Relation.ReflTransGen (SmpStep call) s₀ s

/-! ### The invariant -/

/-- What the caller has put into the object. -/
def Filled (data : KvmCallData F I) : Caller Cpu → Prop
  | .entered | .returned => True
  | .setInfo => data.func = call.func
  | .setStarted => data.func = call.func ∧ data.info = call.info
  | .setWait => data.func = call.func ∧ data.info = call.info ∧ data.started = 0
  | .setFinished => data.func = call.func ∧ data.info = call.info ∧ data.started = 0 ∧ data.wait = call.wait
  | .sending _ | .waitStarted | .waitFinished =>
    data.func = call.func ∧ data.info = call.info ∧ data.wait = call.wait

/-- The CPUs to which no request has been sent yet. -/
def Caller.rest : Caller Cpu → List Cpu
  | .sending rest => rest
  | .waitStarted | .waitFinished | .returned => []
  | .entered | .setInfo | .setStarted | .setWait | .setFinished => call.targets

/-- The counters of the object are in use. -/
def Caller.counting : Caller Cpu → Bool
  | .sending _ | .waitStarted | .waitFinished => true
  | _ => false

/-- The caller has seen every handler start. -/
def Caller.sawStarted : Caller Cpu → Bool
  | .waitFinished | .returned => true
  | _ => false

/-- The copies that a handler has made are those of the call. -/
def AckPc.Copies : AckPc F I → Prop
  | .entered | .done => True
  | .readFunc func => func = call.func
  | .readInfo func info => func = call.func ∧ info = call.info
  | .readWait func info wait | .acked func info wait | .calling func info wait =>
    func = call.func ∧ info = call.info ∧ wait = call.wait
  | .called wait => wait = call.wait

def AckPc.started : AckPc F I → Bool
  | .entered | .readFunc _ | .readInfo _ _ | .readWait _ _ _ => false
  | .acked _ _ _ | .calling _ _ _ | .called _ | .done => true

def AckPc.finished : AckPc F I → Bool
  | .done => true
  | _ => false

def AckPc.begun : AckPc F I → Bool
  | .calling _ _ _ | .called _ | .done => true
  | _ => false

def AckPc.ended : AckPc F I → Bool
  | .called _ | .done => true
  | _ => false

/-- The call that a handler has begun, and the one that has returned. -/
def Handler.calls (h : Handler Cpu F I) : Option (Cpu × F × I) :=
  if h.pc.begun then some (h.cpu, call.func, call.info) else none

def Handler.rets (h : Handler Cpu F I) : Option (Cpu × F × I) :=
  if h.pc.ended then some (h.cpu, call.func, call.info) else none

/-- The call that a handler makes next, from its own copies. -/
def Handler.due (h : Handler Cpu F I) : Option (Cpu × F × I) :=
  match h.pc with
  | .acked func info _ => some (h.cpu, func, info)
  | _ => none

/-- The calls that handlers which have acknowledged the request have yet to begin. -/
def SmpState.due (s : SmpState Cpu F I) : List (Cpu × F × I) := s.handlers.filterMap Handler.due

structure SmpInv (s : SmpState Cpu F I) : Prop where
  filled : Filled call s.data s.caller
  sent : s.handlers.map Handler.cpu ++ s.caller.rest call = call.targets
  copies : ∀ h ∈ s.handlers, h.pc.Copies call
  started : s.caller.counting = true → s.data.started = s.handlers.countP fun h => h.pc.started
  finished : s.caller.counting = true → call.wait = true → s.data.finished = s.handlers.countP fun h => h.pc.finished
  allStarted : s.caller.sawStarted = true → ∀ h ∈ s.handlers, h.pc.started = true
  allFinished : s.caller = .returned → call.wait = true → ∀ h ∈ s.handlers, h.pc.finished = true
  calls : s.calls.Perm (s.handlers.filterMap (Handler.calls call))
  rets : s.rets.Perm (s.handlers.filterMap (Handler.rets call))
  stale : s.stale = false

theorem SmpStart.inv {s : SmpState Cpu F I} (h : SmpStart s) : SmpInv call s := by
  obtain ⟨hcaller, hhandlers, hcalls, hrets, hstale⟩ := h
  constructor <;> simp [hcaller, hhandlers, hcalls, hrets, hstale, Filled, Caller.rest, Caller.counting, Caller.sawStarted]

/-- As long as the caller fills the object there are no handlers. -/
theorem SmpInv.no_handlers {s : SmpState Cpu F I} (h : SmpInv call s) (hrest : s.caller.rest call = call.targets) :
    s.handlers = [] := by
  have hlen := congrArg List.length h.sent
  rw [hrest, List.length_append, List.length_map] at hlen
  exact List.length_eq_zero_iff.1 (by omega)

/-- The caller's own steps leave the handlers and the logs alone. -/
theorem SmpInv.fill {s : SmpState Cpu F I} (h : SmpInv call s) {caller : Caller Cpu} {data : KvmCallData F I}
    (hfilled : Filled call data caller) (hold : s.caller.rest call = call.targets) (hnew : caller.rest call = call.targets)
    (hstarted : caller.counting = true → data.started = 0)
    (hfinished : caller.counting = true → call.wait = true → data.finished = 0) :
    SmpInv call { s with caller := caller, data := data } := by
  have hnil := h.no_handlers call hold
  constructor
  · exact hfilled
  · simp [hnil, hnew]
  · exact h.copies
  · simpa [hnil] using hstarted
  · simpa [hnil] using hfinished
  · simp [hnil]
  · simp [hnil]
  · exact h.calls
  · exact h.rets
  · exact h.stale

theorem SmpInv.send {s : SmpState Cpu F I} (h : SmpInv call s) {cpu : Cpu} {rest : List Cpu}
    (hcaller : s.caller = .sending (cpu :: rest)) :
    SmpInv call { s with caller := .sending rest, handlers := s.handlers ++ [⟨cpu, .entered⟩] } := by
  obtain ⟨hfilled, hsent, hcopies, hstarted, hfinished, -, -, hcalls, hrets, hstale⟩ := h
  rw [hcaller] at hfilled hsent hstarted hfinished
  constructor
  · exact hfilled
  · simpa [Caller.rest] using hsent
  · intro h' hh'
    rcases List.mem_append.1 hh' with hold | hnew
    · exact hcopies h' hold
    · rw [List.mem_singleton.1 hnew]
      trivial
  · intro _
    rw [hstarted rfl, List.countP_append]
    rfl
  · intro _ hwait
    rw [hfinished rfl hwait, List.countP_append]
    rfl
  · simp [Caller.sawStarted]
  · simp
  · simpa [Handler.calls, AckPc.begun] using hcalls
  · simpa [Handler.rets, AckPc.ended] using hrets
  · exact hstale

/-- A test that holds of as many handlers as there are targets holds of all. -/
theorem SmpInv.all_of_count {s : SmpState Cpu F I} (h : SmpInv call s) (hrest : s.caller.rest call = [])
    {p : Handler Cpu F I → Bool} (hcount : (s.handlers.countP p : Int) = call.cpus) : ∀ h ∈ s.handlers, p h = true := by
  have hlen := congrArg List.length h.sent
  rw [hrest, List.append_nil, List.length_map] at hlen
  unfold SmpCall.cpus at hcount
  exact List.countP_eq_length.1 (by omega)

theorem SmpInv.seen {s : SmpState Cpu F I} (h : SmpInv call s) {caller : Caller Cpu}
    (hfilled : Filled call s.data caller) (hrest : caller.rest call = s.caller.rest call)
    (hcounting : caller.counting = true → s.caller.counting = true)
    (hstarted : caller.sawStarted = true → ∀ h ∈ s.handlers, h.pc.started = true)
    (hfinished : caller = .returned → call.wait = true → ∀ h ∈ s.handlers, h.pc.finished = true) :
    SmpInv call { s with caller := caller } where
  filled := hfilled
  sent := hrest ▸ h.sent
  copies := h.copies
  started hc := h.started (hcounting hc)
  finished hc := h.finished (hcounting hc)
  allStarted := hstarted
  allFinished := hfinished
  calls := h.calls
  rets := h.rets
  stale := h.stale

/-! ### Handlers -/

/-- While a handler reads the object, the caller is there and has filled it. -/
theorem SmpInv.reading {s : SmpState Cpu F I} (h : SmpInv call s) {hd : Handler Cpu F I} (hmem : hd ∈ s.handlers)
    (hpc : hd.pc.started = false) :
    s.caller.counting = true ∧ s.data.func = call.func ∧ s.data.info = call.info ∧ s.data.wait = call.wait := by
  have hrest : s.caller.rest call ≠ call.targets := fun heq => by
    rw [h.no_handlers call heq] at hmem
    simp at hmem
  have hsaw : s.caller.sawStarted ≠ true := fun heq => by
    rw [h.allStarted heq hd hmem] at hpc
    simp at hpc
  have hfilled := h.filled
  cases hc : s.caller <;> simp_all [Caller.rest, Caller.sawStarted, Caller.counting, Filled]

theorem SmpInv.move {s : SmpState Cpu F I} (h : SmpInv call s) {cpu : Cpu} {pc pc' : AckPc F I}
    {handlers : List (Handler Cpu F I)} (hR : Replaces ⟨cpu, pc⟩ ⟨cpu, pc'⟩ s.handlers handlers)
    {data : KvmCallData F I} {calls rets : List (Cpu × F × I)} (hfilled : Filled call data s.caller)
    (hcopies : pc'.Copies call)
    (hstarted : s.caller.counting = true → data.started = handlers.countP fun h => h.pc.started)
    (hfinished : s.caller.counting = true → call.wait = true → data.finished = handlers.countP fun h => h.pc.finished)
    (hstart : pc.started = true → pc'.started = true) (hfinish : pc.finished = true → pc'.finished = true)
    (hcalls : calls.Perm (handlers.filterMap (Handler.calls call)))
    (hrets : rets.Perm (handlers.filterMap (Handler.rets call))) :
    SmpInv call { s with data := data, handlers := handlers, calls := calls, rets := rets } where
  filled := hfilled
  sent := by
    have hcpus : handlers.map Handler.cpu = s.handlers.map Handler.cpu := hR.map_eq rfl
    exact hcpus ▸ h.sent
  copies := hR.forall_mem h.copies hcopies
  started := hstarted
  finished := hfinished
  allStarted hs := hR.forall_mem (h.allStarted hs) (hstart (h.allStarted hs _ hR.mem))
  allFinished hc hw := hR.forall_mem (h.allFinished hc hw) (hfinish (h.allFinished hc hw _ hR.mem))
  calls := hcalls
  rets := hrets
  stale := h.stale

/-- Reading the object changes nothing but the copies. -/
theorem SmpInv.copy {s : SmpState Cpu F I} (h : SmpInv call s) {cpu : Cpu} {pc pc' : AckPc F I}
    {handlers : List (Handler Cpu F I)} (hR : Replaces ⟨cpu, pc⟩ ⟨cpu, pc'⟩ s.handlers handlers)
    (hcopies : pc'.Copies call) (hpc : pc.begun = false) (hpc' : pc'.started = false) (hst : pc.started = false) :
    SmpInv call { s with handlers := handlers } := by
  have hcalm : pc'.begun = false ∧ pc'.ended = false ∧ pc'.finished = false ∧ pc.ended = false ∧ pc.finished = false := by
    cases pc <;> cases pc' <;> simp_all [AckPc.begun, AckPc.started, AckPc.ended, AckPc.finished]
  obtain ⟨hb', he', hf', he, hf⟩ := hcalm
  refine h.move call hR h.filled hcopies ?_ ?_ ?_ ?_ ?_ ?_
  · intro hc
    rw [h.started hc, hR.countP_eq]
    exact hpc'.trans hst.symm
  · intro hc hw
    rw [h.finished hc hw, hR.countP_eq]
    exact hf'.trans hf.symm
  · simp [hst]
  · simp [hf]
  · rw [hR.filterMap_eq]
    · exact h.calls
    · simp [Handler.calls, hb', hpc]
  · rw [hR.filterMap_eq]
    · exact h.rets
    · simp [Handler.rets, he', he]

/-- An access finds the caller still there. -/
theorem SmpInv.access {s : SmpState Cpu F I} (h : SmpInv call s) (cpu : Cpu) (hcount : s.caller.counting = true) :
    SmpInv call (s.record cpu .access) := by
  have hthere : s.caller.hasReturned = false := by
    cases hc : s.caller <;> simp_all [Caller.hasReturned, Caller.counting]
  have hsame : s.record cpu .access = s := by
    simp only [SmpState.record, hthere, Bool.or_false]
  rw [hsame]
  exact h

/-- `atomic_inc(&data->started)`. -/
theorem SmpInv.ack {s : SmpState Cpu F I} (h : SmpInv call s) {cpu : Cpu} {func : F} {info : I} {wait : Bool}
    {handlers : List (Handler Cpu F I)}
    (hR : Replaces ⟨cpu, .readWait func info wait⟩ ⟨cpu, .acked func info wait⟩ s.handlers handlers) :
    SmpInv call { s with data := { s.data with started := s.data.started + 1 }, handlers := handlers } := by
  obtain ⟨hcount, hfunc, hinfo, hwait⟩ := h.reading call hR.mem rfl
  refine h.move call hR ?_ (h.copies _ hR.mem) ?_ ?_ (fun _ => rfl) (fun hf => hf) ?_ ?_
  · cases hc : s.caller <;> simp_all [Filled, Caller.counting]
  · intro hc
    rw [hR.countP_succ rfl rfl, h.started hc]
    push_cast
    rfl
  · intro hc hw
    rw [hR.countP_eq]
    · exact h.finished hc hw
    · rfl
  · rw [hR.filterMap_eq]
    · exact h.calls
    · rfl
  · rw [hR.filterMap_eq]
    · exact h.rets
    · rfl

/-- The function is called with the handler's own copies. -/
theorem SmpInv.begin {s : SmpState Cpu F I} (h : SmpInv call s) {cpu : Cpu} {func : F} {info : I} {wait : Bool}
    {handlers : List (Handler Cpu F I)}
    (hR : Replaces ⟨cpu, .acked func info wait⟩ ⟨cpu, .calling func info wait⟩ s.handlers handlers) :
    SmpInv call { s with handlers := handlers, calls := s.calls ++ [(cpu, func, info)] } := by
  obtain ⟨rfl, rfl, -⟩ : func = call.func ∧ info = call.info ∧ wait = call.wait := h.copies _ hR.mem
  refine h.move call hR h.filled (h.copies _ hR.mem) ?_ ?_ (fun _ => rfl) (fun hf => hf) ?_ ?_
  · intro hc
    rw [h.started hc, hR.countP_eq]
    rfl
  · intro hc hw
    rw [h.finished hc hw, hR.countP_eq]
    rfl
  · exact (h.calls.append_right _).trans (hR.filterMap_perm rfl rfl)
  · rw [hR.filterMap_eq]
    · exact h.rets
    · rfl

/-- The function returns. -/
theorem SmpInv.ret {s : SmpState Cpu F I} (h : SmpInv call s) {cpu : Cpu} {func : F} {info : I} {wait : Bool}
    {handlers : List (Handler Cpu F I)}
    (hR : Replaces ⟨cpu, .calling func info wait⟩ ⟨cpu, .called wait⟩ s.handlers handlers) :
    SmpInv call { s with handlers := handlers, rets := s.rets ++ [(cpu, func, info)] } := by
  obtain ⟨rfl, rfl, hwait⟩ : func = call.func ∧ info = call.info ∧ wait = call.wait := h.copies _ hR.mem
  refine h.move call hR h.filled hwait ?_ ?_ (fun _ => rfl) (fun hf => hf) ?_ ?_
  · intro hc
    rw [h.started hc, hR.countP_eq]
    rfl
  · intro hc hw
    rw [h.finished hc hw, hR.countP_eq]
    rfl
  · rw [hR.filterMap_eq]
    · exact h.calls
    · rfl
  · exact (h.rets.append_right _).trans (hR.filterMap_perm rfl rfl)

/-- A handler that is waited for still has the caller there. -/
theorem SmpInv.called_counting {s : SmpState Cpu F I} (h : SmpInv call s) {cpu : Cpu}
    (hmem : ⟨cpu, .called true⟩ ∈ s.handlers) : s.caller.counting = true := by
  have hwait : true = call.wait := h.copies _ hmem
  have hrest : s.caller.rest call ≠ call.targets := fun heq => by
    rw [h.no_handlers call heq] at hmem
    simp at hmem
  have hret : s.caller ≠ .returned := fun heq => by
    have := h.allFinished heq hwait.symm _ hmem
    simp [AckPc.finished] at this
  cases hc : s.caller <;> simp_all [Caller.rest, Caller.counting]

/-- The end of a handler. -/
theorem SmpInv.leave {s : SmpState Cpu F I} (h : SmpInv call s) {cpu : Cpu} {wait : Bool}
    {handlers : List (Handler Cpu F I)} (hR : Replaces ⟨cpu, .called wait⟩ ⟨cpu, .done⟩ s.handlers handlers)
    {data : KvmCallData F I} (hfilled : Filled call data s.caller) (hstarted : data.started = s.data.started)
    (hfinished : s.caller.counting = true → call.wait = true → data.finished = s.data.finished + 1) :
    SmpInv call { s with data := data, handlers := handlers } := by
  refine h.move call hR hfilled trivial ?_ ?_ (fun _ => rfl) (fun _ => rfl) ?_ ?_
  · intro hc
    rw [hstarted, h.started hc, hR.countP_eq]
    rfl
  · intro hc hw
    rw [hfinished hc hw, h.finished hc hw, hR.countP_succ rfl rfl]
    push_cast
    rfl
  · rw [hR.filterMap_eq]
    · exact h.calls
    · rfl
  · rw [hR.filterMap_eq]
    · exact h.rets
    · rfl

theorem SmpInv.handle {s : SmpState Cpu F I} (h : SmpInv call s) {cpu : Cpu} {pc pc' : AckPc F I}
    {label : AckLabel F I} {data : KvmCallData F I} {handlers : List (Handler Cpu F I)}
    (hR : Replaces ⟨cpu, pc⟩ ⟨cpu, pc'⟩ s.handlers handlers) (hstep : kvmAckSmpCall s.data pc = some (label, data, pc')) :
    SmpInv call ({ s with data := data, handlers := handlers }.record cpu label) := by
  cases pc with
  | entered =>
    cases hstep
    obtain ⟨hcount, hfunc, -, -⟩ := h.reading call hR.mem rfl
    exact (h.copy call hR hfunc rfl rfl rfl).access call cpu hcount
  | readFunc func =>
    cases hstep
    obtain ⟨hcount, -, hinfo, -⟩ := h.reading call hR.mem rfl
    exact (h.copy call hR ⟨h.copies _ hR.mem, hinfo⟩ rfl rfl rfl).access call cpu hcount
  | readInfo func info =>
    cases hstep
    obtain ⟨hcount, -, -, hwait⟩ := h.reading call hR.mem rfl
    have hcopies : func = call.func ∧ info = call.info := h.copies _ hR.mem
    exact (h.copy call hR ⟨hcopies.1, hcopies.2, hwait⟩ rfl rfl rfl).access call cpu hcount
  | readWait func info wait =>
    cases hstep
    exact (h.ack call hR).access call cpu (h.reading call hR.mem rfl).1
  | acked func info wait =>
    cases hstep
    exact h.begin call hR
  | calling func info wait =>
    cases hstep
    exact h.ret call hR
  | called wait =>
    cases wait with
    | true =>
      cases hstep
      have hcount := h.called_counting call hR.mem
      have hfilled : Filled call { s.data with finished := s.data.finished + 1 } s.caller := by
        have hold := h.filled
        cases hc : s.caller <;> simp_all [Filled, Caller.counting]
      exact (h.leave call hR hfilled rfl fun _ _ => rfl).access call cpu hcount
    | false =>
      cases hstep
      have hwait : false = call.wait := h.copies _ hR.mem
      exact h.leave call hR h.filled rfl fun _ hw => by simp [hw] at hwait
  | done => cases hstep

theorem SmpInv.step {s s' : SmpState Cpu F I} (h : SmpInv call s) (hstep : SmpStep call s s') : SmpInv call s' := by
  have hfilled := h.filled
  cases hstep with
  | nobody hc hcpus =>
    have hnil : call.targets = [] := List.length_eq_zero_iff.1 (by unfold SmpCall.cpus at hcpus; omega)
    exact h.fill call trivial (by rw [hc]; rfl) hnil.symm (by simp [Caller.counting]) (by simp [Caller.counting])
  | setFunc hc hcpus =>
    exact h.fill call rfl (by rw [hc]; rfl) rfl (by simp [Caller.counting]) (by simp [Caller.counting])
  | setInfo hc =>
    rw [hc] at hfilled
    exact h.fill call ⟨hfilled, rfl⟩ (by rw [hc]; rfl) rfl (by simp [Caller.counting]) (by simp [Caller.counting])
  | setStarted hc =>
    rw [hc] at hfilled
    exact h.fill call ⟨hfilled.1, hfilled.2, rfl⟩ (by rw [hc]; rfl) rfl (by simp [Caller.counting])
      (by simp [Caller.counting])
  | setWait hc =>
    rw [hc] at hfilled
    obtain ⟨hfunc, hinfo, hstarted⟩ := hfilled
    by_cases hwait : call.wait = true
    · rw [if_pos hwait]
      exact h.fill call ⟨hfunc, hinfo, hstarted, rfl⟩ (by rw [hc]; rfl) rfl (by simp [Caller.counting])
        (by simp [Caller.counting])
    · rw [if_neg hwait]
      exact h.fill call ⟨hfunc, hinfo, rfl⟩ (by rw [hc]; rfl) rfl (fun _ => hstarted) (fun _ hw => absurd hw hwait)
  | setFinished hc =>
    rw [hc] at hfilled
    obtain ⟨hfunc, hinfo, hstarted, hwait⟩ := hfilled
    exact h.fill call ⟨hfunc, hinfo, hwait⟩ (by rw [hc]; rfl) rfl (fun _ => hstarted) (fun _ _ => rfl)
  | send hc => exact h.send call hc
  | sent hc =>
    rw [hc] at hfilled
    exact h.seen call hfilled (by rw [hc]; rfl) (fun _ => by rw [hc]; rfl) (by simp [Caller.sawStarted]) (by simp)
  | started hc hcpus =>
    rw [hc] at hfilled
    have hall := h.all_of_count call (by rw [hc]; rfl) ((h.started (by rw [hc]; rfl)).symm.trans hcpus)
    by_cases hwait : call.wait = true
    · rw [if_pos hwait]
      exact h.seen call hfilled (by rw [hc]; rfl) (fun _ => by rw [hc]; rfl) (fun _ => hall) (by simp)
    · rw [if_neg hwait]
      exact h.seen call trivial (by rw [hc]; rfl) (by simp [Caller.counting]) (fun _ => hall) fun _ hw => absurd hw hwait
  | finished hc hcpus =>
    have hall := h.allStarted (by rw [hc]; rfl)
    refine h.seen call trivial (by rw [hc]; rfl) (by simp [Caller.counting]) (fun _ => hall) fun _ hw => ?_
    exact h.all_of_count call (by rw [hc]; rfl) ((h.finished (by rw [hc]; rfl) hw).symm.trans hcpus)
  | handler hR hstep => exact h.handle call hR hstep
  | reuse hc data =>
    obtain ⟨-, hsent, hcopies, -, -, hallStarted, hallFinished, hcalls, hrets, hstale⟩ := h
    exact {
      filled := by rw [hc]; trivial
      sent := hsent
      copies := hcopies
      started := by simp [hc, Caller.counting]
      finished := by simp [hc, Caller.counting]
      allStarted := hallStarted
      allFinished := hallFinished
      calls := hcalls
      rets := hrets
      stale := hstale }

theorem SmpInv.run {s : SmpState Cpu F I} (h : SmpReachable call s) : SmpInv call s := by
  obtain ⟨s₀, hstart, hrun⟩ := h
  induction hrun with
  | refl => exact hstart.inv call
  | tail _ hstep ih => exact ih.step call hstep

/-! ### What the caller finds when it returns -/

/-- The calls that are to be made. -/
def SmpCall.invocations : List (Cpu × F × I) := call.targets.map fun cpu => (cpu, call.func, call.info)

theorem mem_invocations (cpu : Cpu) (func : F) (info : I) :
    (cpu, func, info) ∈ call.invocations ↔
      (cpu ∈ call.mask ∧ cpu ∈ call.online ∧ cpu ≠ call.me) ∧ func = call.func ∧ info = call.info := by
  unfold SmpCall.invocations SmpCall.targets
  simp only [List.mem_map, Finset.mem_sort, Finset.mem_inter, Finset.mem_erase, Prod.mk.injEq]
  constructor
  · rintro ⟨c, ⟨hmask, hme, honline⟩, rfl, rfl, rfl⟩
    exact ⟨⟨hmask, honline, hme⟩, rfl, rfl⟩
  · rintro ⟨⟨hmask, honline, hme⟩, rfl, rfl⟩
    exact ⟨cpu, ⟨hmask, hme, honline⟩, rfl, rfl, rfl⟩

omit [LinearOrder Cpu] in
/-- A handler that has acknowledged has begun the call or is about to. -/
theorem calls_due_perm {handlers : List (Handler Cpu F I)} (hstarted : ∀ h ∈ handlers, h.pc.started = true)
    (hcopies : ∀ h ∈ handlers, h.pc.Copies call) :
    (handlers.filterMap (Handler.calls call) ++ handlers.filterMap Handler.due).Perm
      ((handlers.map Handler.cpu).map fun cpu => (cpu, call.func, call.info)) := by
  induction handlers with
  | nil => exact .refl _
  | cons h handlers ih =>
    have ih := ih (fun x hx => hstarted x (List.mem_cons_of_mem _ hx)) fun x hx => hcopies x (List.mem_cons_of_mem _ hx)
    have hs := hstarted h List.mem_cons_self
    have hc := hcopies h List.mem_cons_self
    obtain ⟨cpu, pc⟩ := h
    cases pc with
    | entered | readFunc _ | readInfo _ _ | readWait _ _ _ => simp [AckPc.started] at hs
    | acked func info wait =>
      obtain ⟨rfl, rfl, -⟩ := hc
      exact List.perm_middle.trans (ih.cons _)
    | calling _ _ _ | called _ | done => exact ih.cons _

omit [LinearOrder Cpu] in
theorem filterMap_finished {handlers : List (Handler Cpu F I)} (hfinished : ∀ h ∈ handlers, h.pc.finished = true) :
    handlers.filterMap (Handler.calls call) = (handlers.map Handler.cpu).map (fun cpu => (cpu, call.func, call.info)) ∧
      handlers.filterMap (Handler.rets call) = (handlers.map Handler.cpu).map fun cpu => (cpu, call.func, call.info) := by
  induction handlers with
  | nil => exact ⟨rfl, rfl⟩
  | cons h handlers ih =>
    obtain ⟨ihcalls, ihrets⟩ := ih fun x hx => hfinished x (List.mem_cons_of_mem _ hx)
    have hf := hfinished h List.mem_cons_self
    obtain ⟨cpu, pc⟩ := h
    cases pc with
    | done => exact ⟨congrArg (List.cons _) ihcalls, congrArg (List.cons _) ihrets⟩
    | entered | readFunc _ | readInfo _ _ | readWait _ _ _ | acked _ _ _ | calling _ _ _ | called _ =>
      simp [AckPc.finished] at hf

/-- No handler touches the caller's stack after the call has returned.  When it returns, the request has been acknowledged
on exactly the CPUs it was for, once on each: the function has been called there or is what the handler calls next; with
`wait` it has been called and has returned. -/
theorem kvmSmpCallFunctionMask_run {s : SmpState Cpu F I} (h : SmpReachable call s) :
    s.stale = false ∧
      (s.caller = .returned →
        (s.calls ++ s.due).Perm call.invocations ∧
          (call.wait = true → s.calls.Perm call.invocations ∧ s.rets.Perm call.invocations)) := by
  have hinv := SmpInv.run call h
  refine ⟨hinv.stale, fun hret => ?_⟩
  have hcpus : s.handlers.map Handler.cpu = call.targets := by
    have hsent := hinv.sent
    rw [hret] at hsent
    exact (List.append_nil _).symm.trans hsent
  unfold SmpCall.invocations
  rw [← hcpus]
  constructor
  · exact (hinv.calls.append_right _).trans
      (calls_due_perm call (hinv.allStarted (by rw [hret]; rfl)) hinv.copies)
  · intro hwait
    obtain ⟨hcalls, hrets⟩ := filterMap_finished call (hinv.allFinished hret hwait)
    exact ⟨hcalls ▸ hinv.calls, hrets ▸ hinv.rets⟩

end Code

/-! ### A call that does not wait -/

/-- CPU 0 calls CPU 1. -/
def callOther : SmpCall Nat Unit Unit := ⟨{0, 1}, (), (), false, {0, 1}, 0⟩

theorem targets_callOther : callOther.targets = [1] := by
  have hset : callOther.mask ∩ callOther.online.erase callOther.me = {1} := by decide
  unfold SmpCall.targets
  rw [hset, Finset.sort_singleton]

/-- The caller has returned, and the handler has not called the function yet. -/
def returnedEarly : SmpState Nat Unit Unit :=
  ⟨.returned, ⟨(), (), 1, 0, false⟩, [⟨1, .acked () () false⟩], [], [], false⟩

theorem returnedEarly_reachable : SmpReachable callOther returnedEarly := by
  have hcpus : callOther.cpus = 1 := by
    unfold SmpCall.cpus
    rw [targets_callOther]
    rfl
  refine ⟨⟨.entered, ⟨(), (), 0, 0, false⟩, [], [], [], false⟩, ⟨rfl, rfl, rfl, rfl, rfl⟩, ?_⟩
  refine .head (.setFunc rfl (by rw [hcpus]; decide)) ?_
  refine .head (.setInfo rfl) ?_
  refine .head (.setStarted rfl) ?_
  refine .head (.setWait rfl) ?_
  rw [targets_callOther]
  refine .head (.send rfl) ?_
  refine .head (.sent rfl) ?_
  refine .head (.handler ⟨[], [], rfl, rfl⟩ rfl) ?_
  refine .head (.handler ⟨[], [], rfl, rfl⟩ rfl) ?_
  refine .head (.handler ⟨[], [], rfl, rfl⟩ rfl) ?_
  refine .head (.handler ⟨[], [], rfl, rfl⟩ rfl) ?_
  exact .single (.started rfl hcpus.symm)

theorem kvmSmpCallFunctionMask_run_returnedEarly :
    returnedEarly.stale = false ∧
      (returnedEarly.caller = .returned →
        (returnedEarly.calls ++ returnedEarly.due).Perm callOther.invocations ∧
          (callOther.wait = true →
            returnedEarly.calls.Perm callOther.invocations ∧ returnedEarly.rets.Perm callOther.invocations)) :=
  kvmSmpCallFunctionMask_run callOther returnedEarly_reachable

/-- Without `wait` the call can return before the function has been called. -/
theorem kvmSmpCallFunctionMask_early :
    ¬ ∀ (call : SmpCall Nat Unit Unit) (s : SmpState Nat Unit Unit), SmpReachable call s →
      s.stale = false ∧
        (s.caller = .returned →
          s.calls.Perm call.invocations ∧ (call.wait = true → s.rets.Perm call.invocations)) := by
  intro hall
  have hcalls := ((hall callOther returnedEarly returnedEarly_reachable).2 rfl).1
  have hlen : callOther.invocations.length = 0 := hcalls.length_eq.symm
  unfold SmpCall.invocations at hlen
  rw [targets_callOther] at hlen
  exact absurd hlen (by decide)

end LearnKvm
