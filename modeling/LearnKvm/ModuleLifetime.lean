import LearnKvm.Lib.AllocTrace
import LearnKvm.Lib.Bits
import Mathlib.Tactic.Abel

/-!
# Loading and unloading of the module (`kvm_main.c`)

`kvm_init` gives each processor an area for VMX operation, switches all of them to VMX operation and registers the reboot
notifier and the device; `kvm_exit` undoes all this.  A load that fails in `misc_register` or for the bad page does not:
the notifier stays registered, in the second case with the device, and the processors stay in VMX operation with areas
that have been freed.  What the machine still has after any number of loads and unloads is counted by these failures
(`module_run_live`).
-/

namespace LearnKvm

open AllocTrace

section Lifetime

variable (Page : Type)

/-- What a module takes from the kernel. -/
inductive ModuleResource where
  | debugfs
  | vmxarea (p : Page)
  | rebootNotifier
  | miscDevice
  | badPage (p : Page)
  deriving DecidableEq

variable {Page} (Cpu : Type)

/-- IA32_FEATURE_CONTROL, CR4.VMXE, and the region of VMX operation, if the processor is in it. -/
structure VmxCpu (Page : Type) where
  featureControl : BitVec 64
  vmxe : Bool
  vmx : Option Page

/-- `vmxarea` and `badPage` are variables of the module. -/
structure ModuleHost (Page : Type) where
  cpus : Cpu → VmxCpu Page
  vmxarea : Cpu → Option Page
  badPage : Option Page
  trace : List (Event (ModuleResource Page))

variable {Cpu}

def ModuleHost.note (s : ModuleHost Cpu Page) (es : List (Event (ModuleResource Page))) : ModuleHost Cpu Page :=
  { s with trace := s.trace ++ es }

/-- What the kernel and the processors answer to a load: the CPUID bit, what `alloc_vmcs_cpu` gives for each processor,
the error of `misc_register` and the bad page. -/
structure LoadEnv (Cpu Page : Type) where
  support : Bool
  areas : Cpu → Option Page
  miscError : Int
  page : Option Page

/-- VMX operation is locked, but not enabled. -/
def vmxDisabledByBios (msr : BitVec 64) : Bool := msr &&& 5 == 1

/-- `free_pages` of a null pointer does nothing. -/
def freeVmcsEvents : Option Page → List (Event (ModuleResource Page))
  | none => []
  | some p => [.free (some (.vmxarea p))]

def freeKvmArea (online : List Cpu) (s : ModuleHost Cpu Page) : ModuleHost Cpu Page :=
  s.note (online.flatMap fun c => freeVmcsEvents (s.vmxarea c))

section Processors

variable [DecidableEq Cpu]

def ModuleHost.setArea (s : ModuleHost Cpu Page) (c : Cpu) (p : Page) : ModuleHost Cpu Page :=
  { s with vmxarea := Function.update s.vmxarea c (some p) }

/-- The loop of `alloc_kvm_area`; it returns whether it succeeds. -/
def allocKvmArea (online : List Cpu) (env : LoadEnv Cpu Page) :
    List Cpu → ModuleHost Cpu Page → Bool × ModuleHost Cpu Page
  | [], s => (true, s)
  | c :: cs, s =>
    match env.areas c with
    | none => (false, freeKvmArea online s)
    | some p => allocKvmArea online env cs ((s.note [.alloc (.vmxarea p)]).setArea c p)

/-- A general protection fault, if VMX operation is not enabled and locked; in VMX operation VMXON fails, which is not
noticed. -/
def vmxon (area : Option Page) (c : VmxCpu Page) : Option (VmxCpu Page) :=
  if c.featureControl &&& 5 = 5 then some { c with vmx := c.vmx.or area } else none

def kvmEnable (area : Option Page) (c : VmxCpu Page) : Option (VmxCpu Page) :=
  let old := c.featureControl
  let c := if old &&& 5 = 0 then { c with featureControl := old ||| 5 } else c
  vmxon area { c with vmxe := true }

/-- VMXOFF, an invalid opcode outside of VMX operation. -/
def kvmDisable (c : VmxCpu Page) : Option (VmxCpu Page) :=
  match c.vmx with
  | none => none
  | some _ => some { c with vmx := none }

def onEachCpu (f : Cpu → VmxCpu Page → Option (VmxCpu Page)) :
    List Cpu → ModuleHost Cpu Page → Option (ModuleHost Cpu Page)
  | [], s => some s
  | c :: cs, s => do
    let x ← f c (s.cpus c)
    onEachCpu f cs { s with cpus := Function.update s.cpus c x }

/-- How `kvm_init` ends. -/
inductive LoadResult where
  | ok
  /-- -EOPNOTSUPP -/
  | refused
  /-- `alloc_kvm_area` has failed: -ENOMEM -/
  | noArea
  /-- `misc_register` has failed, and its error is returned. -/
  | noDevice
  /-- There is no bad page: -ENOMEM -/
  | noBadPage
  deriving DecidableEq

/-- `kvm_init` on the processor `c`, after the module has been brought to memory; `none` stands for a fault. -/
def kvmInit (online : List Cpu) (c : Cpu) (env : LoadEnv Cpu Page) (s : ModuleHost Cpu Page) :
    Option (LoadResult × ModuleHost Cpu Page) :=
  let s := { s with vmxarea := fun _ => none, badPage := none }
  if !env.support || vmxDisabledByBios (s.cpus c).featureControl then some (.refused, s)
  else
    let s := s.note [.alloc .debugfs]
    match allocKvmArea online env online s with
    | (false, s) => some (.noArea, s.note [.free (some .debugfs)])
    | (true, s) => do
      let s ← onEachCpu (fun c => kvmEnable (s.vmxarea c)) online s
      let s := s.note [.alloc .rebootNotifier]
      if env.miscError ≠ 0 then some (.noDevice, (freeKvmArea online s).note [.free (some .debugfs)])
      else
        let s := s.note [.alloc .miscDevice]
        match env.page with
        | none => some (.noBadPage, (freeKvmArea online s).note [.free (some .debugfs)])
        | some p => some (.ok, { s.note [.alloc (.badPage p)] with badPage := some p })

def kvmExit (online : List Cpu) (s : ModuleHost Cpu Page) : Option (ModuleHost Cpu Page) := do
  let s := s.note [.free (some .debugfs), .free (some .miscDevice), .free (some .rebootNotifier)]
  let s ← onEachCpu (fun _ => kvmDisable) online s
  some ((freeKvmArea online s).note [.free (s.badPage.map .badPage)])

end Processors

/-! ### What a load takes -/

variable {online : List Cpu} {env : LoadEnv Cpu Page} {s s' : ModuleHost Cpu Page}
  {live live' : Multiset (ModuleResource Page)}
  {es : List (Event (ModuleResource Page))} {c : Cpu} {r : LoadResult}
  {rs : List LoadResult}

/-- The areas of some processors. -/
def areasOf (s : ModuleHost Cpu Page) (cs : List Cpu) : List (ModuleResource Page) := (cs.filterMap s.vmxarea).map .vmxarea

theorem areasOf_append (cs cs' : List Cpu) : areasOf s (cs ++ cs') = areasOf s cs ++ areasOf s cs' := by
  unfold areasOf
  rw [List.filterMap_append, List.map_append]

theorem areasOf_singleton {p : Page} (h : s.vmxarea c = some p) : areasOf s [c] = [.vmxarea p] := by
  unfold areasOf
  rw [List.filterMap_cons_some h]
  rfl

theorem areasOf_eq_nil {cs : List Cpu} (h : ∀ c ∈ cs, s.vmxarea c = none) : areasOf s cs = [] := by
  unfold areasOf
  rw [List.filterMap_eq_nil_iff.2 h, List.map_nil]

theorem areasOf_congr {cs : List Cpu} (h : ∀ c ∈ cs, s'.vmxarea c = s.vmxarea c) : areasOf s' cs = areasOf s cs :=
  congrArg (List.map _) (List.filterMap_congr h)

theorem freeKvmArea_events (cs : List Cpu) : cs.flatMap (fun c => freeVmcsEvents (s.vmxarea c)) =
    (areasOf s cs).map fun x => .free (some x) := by
  induction cs with
  | nil => rfl
  | cons c cs ih =>
    unfold areasOf at ih ⊢
    rw [List.flatMap_cons, ih]
    cases hc : s.vmxarea c with
    | none => rw [List.filterMap_cons_none hc]; rfl
    | some p => rw [List.filterMap_cons_some hc]; rfl

/-! ### VMX operation -/

/-- VMX operation is not locked, or it is enabled. -/
def VmxCpu.Allowed (c : VmxCpu Page) : Prop := c.featureControl &&& 5 = 0 ∨ c.featureControl &&& 5 = 5

theorem kvmEnable_some {area : Option Page} {x : VmxCpu Page} (h : x.Allowed) :
    ∃ y, kvmEnable area x = some y ∧ y.Allowed ∧ y.vmx = x.vmx.or area := by
  have hon : (x.featureControl ||| 5) &&& 5 = 5 := by
    apply BitVec.eq_of_hasBit
    intro i _
    rw [BitVec.hasBit_and, BitVec.hasBit_or]
    cases (5#64).hasBit i <;> simp
  obtain ⟨msr, vmxe, vmx⟩ := x
  unfold kvmEnable vmxon
  rcases h with h | h
  · have h0 : msr &&& 5 = 0 := h
    dsimp only
    rw [if_pos h0, if_pos hon]
    exact ⟨_, rfl, Or.inr hon, rfl⟩
  · have h5 : msr &&& 5 = 5 := h
    have h0 : ¬msr &&& 5 = 0 := by
      rw [h5]
      decide
    dsimp only
    rw [if_neg h0, if_pos h5]
    exact ⟨_, rfl, Or.inr h5, rfl⟩

theorem kvmDisable_some {x : VmxCpu Page} (h : x.vmx ≠ none) : kvmDisable x = some { x with vmx := none } := by
  unfold kvmDisable
  cases hx : x.vmx with
  | none => exact absurd hx h
  | some p => rfl

section Processors

variable [DecidableEq Cpu]

theorem vmxarea_setArea_of_ne {d : Cpu} (h : d ≠ c) (p : Page) : (s.setArea c p).vmxarea d = s.vmxarea d :=
  Function.update_of_ne h _ _

theorem vmxarea_setArea_self (p : Page) : (s.setArea c p).vmxarea c = some p := Function.update_self ..

theorem onEachCpu_some {f : Cpu → VmxCpu Page → Option (VmxCpu Page)} {g : Cpu → VmxCpu Page} {cs : List Cpu}
    (hd : cs.Nodup) (h : ∀ c ∈ cs, f c (s.cpus c) = some (g c)) :
    onEachCpu f cs s = some { s with cpus := fun c => if c ∈ cs then g c else s.cpus c } := by
  induction cs generalizing s with
  | nil => simp [onEachCpu]
  | cons c cs ih =>
    rw [List.nodup_cons] at hd
    unfold onEachCpu
    rw [h c (List.mem_cons_self ..), Option.bind_eq_bind, Option.bind_some, ih hd.2]
    · simp only [Option.some_inj, ModuleHost.mk.injEq, and_true]
      funext d
      by_cases hdc : d = c
      · subst hdc
        simp [hd.1]
      · simp [hdc]
    · intro d hmem
      show f d (Function.update s.cpus c (g c) d) = _
      rw [Function.update_of_ne (ne_of_mem_of_not_mem hmem hd.1)]
      exact h d (List.mem_cons_of_mem _ hmem)

end Processors

/-! ### What is live -/

section Pages

variable [DecidableEq Page]

def Has (s : ModuleHost Cpu Page) (live : Multiset (ModuleResource Page)) : Prop := run 0 s.trace = some live

theorem Has.note (h : Has s live) (hes : run live es = some live') : Has (s.note es) live' := by
  unfold Has ModuleHost.note
  rw [run_append_of_eq h, hes]

theorem Has.congr (h : Has s live) (heq : live = live') : Has s live' := heq ▸ h

theorem Has.alloc (h : Has s live) (x : ModuleResource Page) : Has (s.note [.alloc x]) (x ::ₘ live) := h.note rfl

theorem Has.free {x : ModuleResource Page} (h : Has s (x ::ₘ live)) : Has (s.note [.free (some x)]) live :=
  h.note (run_free x)

theorem Has.freeKvmArea {areas : List (ModuleResource Page)} (hareas : areasOf s online = areas)
    (h : Has s ((areas : Multiset (ModuleResource Page)) + live)) : Has (freeKvmArea online s) live := by
  refine h.note ?_
  rw [freeKvmArea_events, hareas]
  exact run_frees _

variable [DecidableEq Cpu]

/-- `alloc_kvm_area` takes an area for each processor, or nothing. -/
structure AreasTaken (online : List Cpu) (live : Multiset (ModuleResource Page)) (s : ModuleHost Cpu Page)
    (out : Bool × ModuleHost Cpu Page) : Prop where
  cpus : out.2.cpus = s.cpus
  fails : out.1 = false → Has out.2 live
  takes : out.1 = true → Has out.2 ((areasOf out.2 online : Multiset (ModuleResource Page)) + live) ∧
    ∀ c ∈ online, out.2.vmxarea c ≠ none

theorem allocKvmArea_spec {pre cs : List Cpu} (hd : (pre ++ cs).Nodup) (honline : online = pre ++ cs)
    (hpre : ∀ c ∈ pre, s.vmxarea c ≠ none) (hcs : ∀ c ∈ cs, s.vmxarea c = none)
    (h : Has s ((areasOf s pre : Multiset (ModuleResource Page)) + live)) :
    AreasTaken online live s (allocKvmArea online env cs s) := by
  induction cs generalizing pre s with
  | nil =>
    rw [List.append_nil] at honline
    subst honline
    exact ⟨rfl, nofun, fun _ => ⟨h, hpre⟩⟩
  | cons c cs ih =>
    unfold allocKvmArea
    cases hc : env.areas c with
    | none =>
      refine ⟨rfl, fun _ => h.freeKvmArea ?_, nofun⟩
      rw [honline, areasOf_append, areasOf_eq_nil hcs, List.append_nil]
    | some p =>
      have hnot : c ∉ pre ++ cs := (List.nodup_cons.1 (List.nodup_middle.1 hd)).1
      rw [List.mem_append, not_or] at hnot
      have hareas : areasOf ((s.note [.alloc (.vmxarea p)]).setArea c p) (pre ++ [c]) = areasOf s pre ++ [.vmxarea p] := by
        rw [areasOf_append, areasOf_singleton (vmxarea_setArea_self p)]
        exact congrArg (· ++ _) (areasOf_congr fun d hmem => vmxarea_setArea_of_ne (ne_of_mem_of_not_mem hmem hnot.1) p)
      have hnext := @ih ((s.note [.alloc (.vmxarea p)]).setArea c p) (pre ++ [c])
        (by rw [← List.append_cons]; exact hd) (by rw [← List.append_cons]; exact honline) ?_ ?_ ?_
      · exact ⟨hnext.cpus, hnext.fails, hnext.takes⟩
      · intro d hmem
        rcases List.mem_append.1 hmem with hmem | hmem
        · rw [vmxarea_setArea_of_ne (ne_of_mem_of_not_mem hmem hnot.1) p]
          exact hpre d hmem
        · rw [List.mem_singleton.1 hmem, vmxarea_setArea_self]
          exact Option.some_ne_none p
      · intro d hmem
        rw [vmxarea_setArea_of_ne (ne_of_mem_of_not_mem hmem hnot.2) p]
        exact hcs d (List.mem_cons_of_mem _ hmem)
      · rw [hareas]
        have hadd : ((areasOf s pre ++ [.vmxarea p] : List (ModuleResource Page)) : Multiset (ModuleResource Page)) + live =
            .vmxarea p ::ₘ ((areasOf s pre : Multiset (ModuleResource Page)) + live) := by
          rw [← Multiset.coe_add, ← Multiset.singleton_add, Multiset.coe_singleton]
          abel
        rw [hadd]
        exact h.alloc _

/-! ### Loads and unloads -/

/-- What a loaded module holds. -/
def heldBy (online : List Cpu) (s : ModuleHost Cpu Page) (p : Page) : Multiset (ModuleResource Page) :=
  (areasOf s online : Multiset (ModuleResource Page)) + {.badPage p, .miscDevice, .rebootNotifier, .debugfs}

/-- How loads have ended: what they have left behind. -/
def leftBy : LoadResult → Multiset (ModuleResource Page)
  | .noDevice => {.rebootNotifier}
  | .noBadPage => {.rebootNotifier, .miscDevice}
  | _ => 0

/-- The load has switched VMX operation on and failed then. -/
def LoadResult.isLate : LoadResult → Bool
  | noDevice => true
  | noBadPage => true
  | _ => false

/-- The states between loads and unloads, with the results of the loads up to now. -/
inductive ModuleRuns (online : List Cpu) (s₀ : ModuleHost Cpu Page) :
    ModuleHost Cpu Page → Bool → List LoadResult → Prop
  | boot : ModuleRuns online s₀ s₀ false []
  | load {s s' : ModuleHost Cpu Page} {rs : List LoadResult} {r : LoadResult} (h : ModuleRuns online s₀ s false rs)
      (c : Cpu) (env : LoadEnv Cpu Page) (hload : kvmInit online c env s = some (r, s')) :
      ModuleRuns online s₀ s' (r = .ok) (r :: rs)
  | unload {s s' : ModuleHost Cpu Page} {rs : List LoadResult} (h : ModuleRuns online s₀ s true rs)
      (hunload : kvmExit online s = some s') : ModuleRuns online s₀ s' false rs

/-- A loaded module: what it holds, and the processors in VMX operation. -/
structure LoadedModule (online : List Cpu) (left : Multiset (ModuleResource Page)) (clean : Prop)
    (s : ModuleHost Cpu Page) : Prop where
  live : ∃ p, s.badPage = some p ∧ Has s (heldBy online s p + left)
  areas : ∀ c ∈ online, s.vmxarea c ≠ none
  on : ∀ c ∈ online, (s.cpus c).vmx ≠ none
  own : clean → ∀ c ∈ online, (s.cpus c).vmx = s.vmxarea c

/-- What holds between loads and unloads, of which `rs` have been the results. -/
structure ModuleInv (online : List Cpu) (s : ModuleHost Cpu Page) (loaded : Bool) (rs : List LoadResult) : Prop where
  allowed : ∀ c ∈ online, (s.cpus c).Allowed
  unloaded : loaded = false → Has s (rs.map leftBy).sum ∧
    ((∀ r ∈ rs, r.isLate = false) → ∀ c ∈ online, (s.cpus c).vmx = none)
  loaded : loaded = true → LoadedModule online (rs.map leftBy).sum (∀ r ∈ rs, r.isLate = false) s

omit [DecidableEq Page] in
theorem sum_leftBy_cons : ((r :: rs).map leftBy).sum = (leftBy r : Multiset (ModuleResource Page)) + (rs.map leftBy).sum := by
  rw [List.map_cons, List.sum_cons]

omit [DecidableEq Cpu] in
/-- A load that has failed early, or late. -/
theorem ModuleInv.failed (hr : r ≠ .ok) (hallowed : ∀ c ∈ online, (s'.cpus c).Allowed)
    (hlive : Has s' (leftBy r + (rs.map leftBy).sum))
    (hoff : (∀ r' ∈ r :: rs, r'.isLate = false) → ∀ c ∈ online, (s'.cpus c).vmx = none) :
    ModuleInv online s' (r = .ok) (r :: rs) := by
  refine ⟨hallowed, fun _ => ⟨?_, hoff⟩, fun h => absurd (of_decide_eq_true h) hr⟩
  rw [sum_leftBy_cons]
  exact hlive

omit [DecidableEq Page] in
/-- The processors after `kvm_enable`. -/
theorem enableAll_spec (hd : online.Nodup) (hallowed : ∀ c ∈ online, (s.cpus c).Allowed)
    (hareas : ∀ c ∈ online, s.vmxarea c ≠ none) :
    ∃ cpus, onEachCpu (fun c => kvmEnable (s.vmxarea c)) online s = some { s with cpus := cpus } ∧
      ∀ c ∈ online, (cpus c).Allowed ∧ (cpus c).vmx ≠ none ∧
        ((s.cpus c).vmx = none → (cpus c).vmx = s.vmxarea c) := by
  have hon : ∀ c, ∃ y, c ∈ online → kvmEnable (s.vmxarea c) (s.cpus c) = some y ∧ y.Allowed ∧
      y.vmx = (s.cpus c).vmx.or (s.vmxarea c) := fun c => by
    by_cases hc : c ∈ online
    · exact (kvmEnable_some (hallowed c hc)).imp fun _ hy _ => hy
    · exact ⟨s.cpus c, fun h => absurd h hc⟩
  choose g hg using hon
  refine ⟨_, onEachCpu_some hd fun c hc => (hg c hc).1, fun c hc => ?_⟩
  obtain ⟨-, hal, hvmx⟩ := hg c hc
  rw [if_pos hc]
  refine ⟨hal, ?_, fun hoff => ?_⟩
  · rw [hvmx]
    exact fun hnone => hareas c hc (Option.or_eq_none_iff.1 hnone).2
  · rw [hvmx, hoff, Option.none_or]

/-- A load never faults. -/
theorem kvmInit_spec (hd : online.Nodup) (h : ModuleInv online s false rs) (c : Cpu) (env : LoadEnv Cpu Page) :
    ∃ r s', kvmInit online c env s = some (r, s') ∧ ModuleInv online s' (r = .ok) (r :: rs) := by
  obtain ⟨hlive, hoff⟩ := h.unloaded rfl
  have hlive : Has { s with vmxarea := fun _ => none, badPage := none } (rs.map leftBy).sum := hlive
  have hlate : ∀ {r}, (∀ r' ∈ r :: rs, r'.isLate = false) → ∀ c ∈ online, (s.cpus c).vmx = none := fun hcl =>
    hoff fun r' hr' => hcl r' (List.mem_cons_of_mem _ hr')
  unfold kvmInit
  dsimp only
  split
  · exact ⟨_, _, rfl, ModuleInv.failed (by decide) h.allowed (hlive.congr (zero_add _).symm) hlate⟩
  · have htaken : AreasTaken online _ _ (allocKvmArea online env online
        (ModuleHost.note { s with vmxarea := fun _ => none, badPage := none } [.alloc .debugfs])) :=
      allocKvmArea_spec (show ([] ++ online).Nodup from hd) rfl (List.forall_mem_nil _) (fun _ _ => rfl) ((hlive.alloc .debugfs).congr (zero_add _).symm)
    rcases hout : allocKvmArea online env online
      (ModuleHost.note { s with vmxarea := fun _ => none, badPage := none } [.alloc .debugfs]) with ⟨ok, t⟩
    rw [hout] at htaken
    obtain ⟨hcpus, hfails, htakes⟩ := htaken
    have hcpus : t.cpus = s.cpus := hcpus
    cases ok with
    | false =>
      refine ⟨_, _, rfl, ModuleInv.failed (by decide) (fun c hc => ?_) ?_ fun hcl c hc => ?_⟩
      · show (t.cpus c).Allowed
        rw [hcpus]
        exact h.allowed c hc
      · exact (hfails rfl).free.congr (zero_add _).symm
      · show (t.cpus c).vmx = none
        rw [hcpus]
        exact hlate hcl c hc
    | true =>
      obtain ⟨hhas, hareas⟩ := htakes rfl
      obtain ⟨cpus, hen, hspec⟩ := enableAll_spec hd (fun c hc => by rw [hcpus]; exact h.allowed c hc) hareas
      simp only [hen, Option.bind_eq_bind, Option.bind_some]
      have hnotified := Has.alloc (s := { t with cpus := cpus }) hhas .rebootNotifier
      split
      · refine ⟨_, _, rfl, ModuleInv.failed (by decide) (fun c hc => (hspec c hc).1) ?_ fun hcl => ?_⟩
        · refine Has.free (Has.freeKvmArea (rfl : _ = areasOf t online) (hnotified.congr ?_))
          simp only [leftBy, ← Multiset.singleton_add]
          abel
        · exact absurd (hcl _ (List.mem_cons_self ..)) (by decide)
      · cases hpage : env.page with
        | none =>
          refine ⟨_, _, rfl, ModuleInv.failed (by decide) (fun c hc => (hspec c hc).1) ?_ fun hcl => ?_⟩
          · refine Has.free (Has.freeKvmArea (rfl : _ = areasOf t online) ((hnotified.alloc .miscDevice).congr ?_))
            simp only [leftBy, Multiset.insert_eq_cons, ← Multiset.singleton_add]
            abel
          · exact absurd (hcl _ (List.mem_cons_self ..)) (by decide)
        | some p =>
          refine ⟨_, _, rfl, fun c hc => (hspec c hc).1, nofun,
            fun _ => ⟨⟨p, rfl, ?_⟩, hareas, fun c hc => (hspec c hc).2.1, ?_⟩⟩
          · refine ((hnotified.alloc .miscDevice).alloc (.badPage p)).congr ?_
            rw [sum_leftBy_cons]
            show _ = (areasOf t online : Multiset (ModuleResource Page)) + _ + _
            simp only [leftBy, Multiset.insert_eq_cons, ← Multiset.singleton_add]
            abel
          · intro hcl c hc
            exact (hspec c hc).2.2 (by rw [hcpus]; exact hlate hcl c hc)

theorem kvmExit_spec (hd : online.Nodup) (h : ModuleInv online s true rs) :
    ∃ s', kvmExit online s = some s' ∧ ModuleInv online s' false rs := by
  obtain ⟨⟨p, hp, hlive⟩, hareas, hon, -⟩ := h.loaded rfl
  have hgone : Has (s.note [.free (some .debugfs), .free (some .miscDevice), .free (some .rebootNotifier)])
      ((areasOf s online : Multiset (ModuleResource Page)) + (.badPage p ::ₘ (rs.map leftBy).sum)) := by
    have heq : heldBy online s p + (rs.map leftBy).sum = .debugfs ::ₘ .miscDevice ::ₘ .rebootNotifier ::ₘ
        ((areasOf s online : Multiset (ModuleResource Page)) + (.badPage p ::ₘ (rs.map leftBy).sum)) := by
      simp only [heldBy, Multiset.insert_eq_cons, ← Multiset.singleton_add]
      abel
    refine (hlive.congr heq).note ?_
    rw [run_free, run_free, run_free, run_nil]
  have hdis := onEachCpu_some (f := fun _ => kvmDisable)
    (s := s.note [.free (some .debugfs), .free (some .miscDevice), .free (some .rebootNotifier)]) hd
    fun c hc => kvmDisable_some (hon c hc)
  unfold kvmExit
  simp only [hdis, Option.bind_eq_bind, Option.bind_some]
  refine ⟨_, rfl, fun c hc => ?_, fun _ => ⟨?_, fun _ c hc => ?_⟩, nofun⟩
  · show VmxCpu.Allowed (if c ∈ online then _ else _)
    rw [if_pos hc]
    exact h.allowed c hc
  · show Has ((freeKvmArea online _).note [.free (s.badPage.map .badPage)]) _
    rw [hp]
    exact Has.free (Has.freeKvmArea (rfl : _ = areasOf s online) hgone)
  · show VmxCpu.vmx (if c ∈ online then _ else _) = none
    rw [if_pos hc]

theorem ModuleRuns.inv {s₀ : ModuleHost Cpu Page} {loaded : Bool} (hd : online.Nodup)
    (hstart : ∀ c ∈ online, (s₀.cpus c).Allowed ∧ (s₀.cpus c).vmx = none) (hempty : s₀.trace = [])
    (h : ModuleRuns online s₀ s loaded rs) : ModuleInv online s loaded rs := by
  induction h with
  | boot =>
    refine ⟨fun c hc => (hstart c hc).1, fun _ => ⟨?_, fun _ c hc => (hstart c hc).2⟩, nofun⟩
    show run 0 s₀.trace = some 0
    rw [hempty]
    rfl
  | load _ c env hload ih =>
    obtain ⟨r', s1, hrun, hinv⟩ := kvmInit_spec hd ih c env
    rw [hrun] at hload
    cases hload
    exact hinv
  | unload _ hunload ih =>
    obtain ⟨s1, hrun, hinv⟩ := kvmExit_spec hd ih
    rw [hrun] at hunload
    cases hunload
    exact hinv

end Pages

end Lifetime

end LearnKvm
