import LearnKvm.Interrupts
import LearnKvm.GuestWrites

/-!
# The delivery of interrupts (`kvm_main.c`)

`kvm_do_inject_irq` takes the vector out of the set before it delivers it.  In protected mode the delivery cannot fail.
In real mode `inject_rmode_irq` gives up when it cannot read the vector or write the stack, and computes a wrong stack
pointer when the 16-bit stack pointer wraps (`RmodeReady`); the interrupt is lost then (`unmapped_stack_loses`).  In a run
without such injections the set follows a machine that loses nothing (`no_irq_lost`).
-/

namespace LearnKvm

open EventRun

variable {arch : Arch}

/-! ### Writing a word -/

/-- A word is mapped.  A word that crosses into another page is written in two steps. -/
def WordMapped (s : Vcpu) (addr x : BitVec 64) : Prop :=
  GvaMapped s addr ∧ (restOfPage addr = 1 →
    GvaMapped { s with mem := copyBytes s.mem (guestBuf (gvaToHpa s addr) addr) ((bytesOf 2 x).take 1) } (addr + 1))

/-- `kvm_write_guest` writes both bytes of a word exactly when they are mapped. -/
theorem stores_iff {s : Vcpu} {addr x : BitVec 64} : (∃ t, Stores s addr x t) ↔ WordMapped s addr x := by
  have hbytes : bytesOf 2 x = [Bits.field 0 8 x, Bits.field 8 8 x] := rfl
  unfold Stores WordMapped GvaMapped
  rw [hbytes]
  cases herr : isErrorHpa (gvaToHpa s addr) with
  | true =>
    have hzero : kvmWriteGuest s addr [Bits.field 0 8 x, Bits.field 8 8 x] = (s, 0) := by
      unfold kvmWriteGuest
      simp [herr]
    rw [hzero]
    simp
  | false =>
    have hpos := restOfPage_pos addr
    by_cases hrest : restOfPage addr = 1
    · generalize hs1 : { s with mem := copyBytes s.mem (guestBuf (gvaToHpa s addr) addr) [Bits.field 0 8 x] } = s1
      have hsplit : kvmWriteGuest s addr [Bits.field 0 8 x, Bits.field 8 8 x] =
          ((kvmWriteGuest s1 (addr + 1) [Bits.field 8 8 x]).1, 1 + (kvmWriteGuest s1 (addr + 1) [Bits.field 8 8 x]).2) := by
        rw [kvmWriteGuest, ← hs1]
        simp [herr, hrest]
      have hlast := @kvmWriteGuest_inPage s1 (addr + 1) [Bits.field 8 8 x] (by simp) (restOfPage_pos _)
      have htake : [Bits.field 0 8 x, Bits.field 8 8 x].take 1 = [Bits.field 0 8 x] := rfl
      rw [hsplit, hlast, htake, hs1]
      cases herr1 : isErrorHpa (gvaToHpa s1 (addr + 1)) with
      | true => simp [hrest]
      | false => simp
    · rw [kvmWriteGuest_inPage (by simp) (by show 2 ≤ _; omega), herr]
      simp [hrest]

theorem Stores.eq {s t : Vcpu} {addr x : BitVec 64} (h : Stores s addr x t) : t = { s with mem := t.mem } := by
  have hframe := kvmWriteGuest_frame s addr (bytesOf 2 x)
  rw [show kvmWriteGuest s addr (bytesOf 2 x) = (t, 2) from h] at hframe
  exact hframe

/-- Without paging the translation does not depend on the memory of the guest. -/
theorem wordMapped_nonpaging {s : Vcpu} (hops : s.mmu.ops = .nonpaging) {addr x : BitVec 64} :
    WordMapped s addr x ↔ GvaMapped s addr ∧ (restOfPage addr = 1 → GvaMapped s (addr + 1)) := by
  unfold WordMapped GvaMapped gvaToHpa mmuGvaToGpa
  simp only [hops]

/-! ### Injection in real mode -/

/-- The stack after the words before the `n`-th one are pushed. -/
def pushWord (s : Vcpu) (addr x : BitVec 64) : Vcpu := (kvmWriteGuest s addr (bytesOf 2 x)).1

/-- The six bytes below the stack pointer are mapped. -/
structure StackMapped (s : KvmVcpu) : Prop where
  flags : WordMapped s.toVcpu (stackWord s.vmcs 1) (vmcsReadl s.vmcs .guestRflags)
  cs : WordMapped (pushWord s.toVcpu (stackWord s.vmcs 1) (vmcsReadl s.vmcs .guestRflags)) (stackWord s.vmcs 2) (rmodeCs s.vmcs)
  ip : WordMapped (pushWord (pushWord s.toVcpu (stackWord s.vmcs 1) (vmcsReadl s.vmcs .guestRflags)) (stackWord s.vmcs 2)
    (rmodeCs s.vmcs)) (stackWord s.vmcs 3) (vmcsReadl s.vmcs .guestRip)

theorem gvaMapped_pushWord {s : Vcpu} (hops : s.mmu.ops = .nonpaging) (a x b : BitVec 64) :
    (pushWord s a x).mmu.ops = .nonpaging ∧ (GvaMapped (pushWord s a x) b ↔ GvaMapped s b) := by
  have hframe : pushWord s a x = { s with mem := (pushWord s a x).mem } := kvmWriteGuest_frame ..
  rw [hframe]
  refine ⟨hops, ?_⟩
  unfold GvaMapped gvaToHpa mmuGvaToGpa
  simp only [hops]

/-- Without paging the words may be looked up before anything is pushed. -/
theorem stackMapped_nonpaging {s : KvmVcpu} (hops : s.mmu.ops = .nonpaging) : StackMapped s ↔
    ∀ n ∈ [1, 2, 3], GvaMapped s.toVcpu (stackWord s.vmcs n) ∧
      (restOfPage (stackWord s.vmcs n) = 1 → GvaMapped s.toVcpu (stackWord s.vmcs n + 1)) := by
  have h1 := gvaMapped_pushWord hops (stackWord s.vmcs 1) (vmcsReadl s.vmcs .guestRflags)
  have hops1 := (h1 0).1
  have h2 := gvaMapped_pushWord hops1 (stackWord s.vmcs 2) (rmodeCs s.vmcs)
  have hops2 := (h2 0).1
  have hiff : StackMapped s ↔
      WordMapped s.toVcpu (stackWord s.vmcs 1) (vmcsReadl s.vmcs .guestRflags) ∧ WordMapped _ _ _ ∧ WordMapped _ _ _ :=
    ⟨fun h => ⟨h.flags, h.cs, h.ip⟩, fun h => ⟨h.1, h.2.1, h.2.2⟩⟩
  rw [hiff, wordMapped_nonpaging hops, wordMapped_nonpaging hops1, wordMapped_nonpaging hops2]
  simp only [(h1 _).2, (h2 _).2, List.forall_mem_cons, List.not_mem_nil, false_imp_iff, implies_true, and_true]

/-- An interrupt can be delivered in real mode: its vector is mapped, the stack pointer is within the limit of the stack
and does not wrap, and there is memory below it. -/
structure RmodeReady (s : KvmVcpu) (irq : Nat) : Prop where
  sp : 6 ≤ ((vmcsReadl s.vmcs .guestRsp).setWidth 16).toNat
  limit : ((vmcsReadl s.vmcs .guestRsp).setWidth 16).toNat ≤ (vmcsRead32 s.vmcs .guestSsLimit).toNat
  vector : GvaMapped s.toVcpu (BitVec.ofNat 64 (irq * 4))
  stack : StackMapped s

theorem stackMapped_iff {s : KvmVcpu} : StackMapped s ↔
    ∃ m1 m2 m3, Stores s.toVcpu (stackWord s.vmcs 1) (vmcsReadl s.vmcs .guestRflags) m1 ∧
      Stores m1 (stackWord s.vmcs 2) (rmodeCs s.vmcs) m2 ∧
      Stores m2 (stackWord s.vmcs 3) (vmcsReadl s.vmcs .guestRip) m3 := by
  have hpush : ∀ {m t : Vcpu} {addr x : BitVec 64}, Stores m addr x t → pushWord m addr x = t := fun h => congrArg Prod.fst h
  constructor
  · rintro ⟨hflags, hcs, hip⟩
    obtain ⟨m1, h1⟩ := stores_iff.2 hflags
    rw [hpush h1] at hcs hip
    obtain ⟨m2, h2⟩ := stores_iff.2 hcs
    rw [hpush h2] at hip
    obtain ⟨m3, h3⟩ := stores_iff.2 hip
    exact ⟨m1, m2, m3, h1, h2, h3⟩
  · rintro ⟨m1, m2, m3, h1, h2, h3⟩
    refine ⟨stores_iff.1 ⟨m1, h1⟩, ?_, ?_⟩
    · rw [hpush h1]
      exact stores_iff.1 ⟨m2, h2⟩
    · rw [hpush h1, hpush h2]
      exact stores_iff.1 ⟨m3, h3⟩

theorem stackPointer_sub {sp : BitVec 16} (h : 6 ≤ sp.toNat) {n : Nat} (hn : n ≤ 6) :
    (sp - BitVec.ofNat 16 n).setWidth 64 = sp.setWidth 64 - BitVec.ofNat 64 n := by
  have hsp := sp.isLt
  apply BitVec.eq_of_toNat_eq
  rw [BitVec.toNat_setWidth, BitVec.toNat_sub, BitVec.toNat_sub, BitVec.toNat_setWidth, BitVec.toNat_ofNat,
    BitVec.toNat_ofNat]
  omega

theorem stackWord_eq {v : Vmcs} (h : 6 ≤ ((vmcsReadl v .guestRsp).setWidth 16).toNat) {n : Nat} (hn : n ≤ 3) :
    stackWord v n = vmcsReadl v .guestSsBase + ((vmcsReadl v .guestRsp).setWidth 16).setWidth 64 - BitVec.ofNat 64 (2 * n) := by
  unfold stackWord
  rw [stackPointer_sub h (by omega)]
  simp only [BitVec.sub_eq_add_neg, BitVec.add_assoc]

theorem bytesOf_two (x : BitVec 64) : bytesOf 2 ((x.setWidth 16).setWidth 64) = bytesOf 2 x := by
  have hfield : ∀ i < 2, Bits.field (8 * i) 8 ((x.setWidth 16).setWidth 64) = Bits.field (8 * i) 8 x := by
    intro i hi
    apply Bits.field_congr
    intro j hlo hhi
    simp only [BitVec.hasBit_setWidth, show j < 64 by omega, show j < 16 by omega, decide_true, Bool.true_and]
  unfold bytesOf
  exact List.map_congr_left fun i hi => hfield i (List.mem_range.1 hi)

theorem restOfPage_vector {irq : Nat} (h : irq < 256) : 4 ≤ restOfPage (BitVec.ofNat 64 (irq * 4)) := by
  have hle : (BitVec.ofNat 64 (irq * 4) &&& ~~~pageMask).toNat ≤ (BitVec.ofNat 64 (irq * 4)).toNat := by
    rw [BitVec.toNat_and]
    exact Nat.and_le_left
  have hval : (BitVec.ofNat 64 (irq * 4)).toNat = irq * 4 := by
    rw [BitVec.toNat_ofNat]
    omega
  have hsize : pageSize.toNat = 4096 := rfl
  unfold restOfPage
  omega

/-- The vector can be read exactly when its page is mapped. -/
theorem read_vector_iff {s : Vcpu} {irq : Nat} (hirq : irq < 256) :
    (∃ e0 e1 e2 e3, kvmReadGuest s (BitVec.ofNat 64 (irq * 4)) 4 = [e0, e1, e2, e3]) ↔ GvaMapped s (BitVec.ofNat 64 (irq * 4)) := by
  rw [kvmReadGuest_inPage (by decide) (restOfPage_vector hirq)]
  unfold GvaMapped
  cases isErrorHpa (gvaToHpa s (BitVec.ofNat 64 (irq * 4))) with
  | true => simp
  | false =>
    simp only [iff_true]
    exact ⟨_, _, _, _, rfl⟩

/-- Every step of `inject_rmode_irq` succeeds, or the VMCS stays as it is. -/
theorem injectRmodeIrq_cases {s : KvmVcpu} (hsp : 6 ≤ ((vmcsReadl s.vmcs .guestRsp).setWidth 16).toNat) {irq : Nat}
    (hirq : irq < 256) : (injectRmodeIrq s irq).vmcs = s.vmcs ∧ ¬RmodeReady s irq ∨
      RmodeReady s irq ∧
      ∃ e0 e1 e2 e3 m1 m2 m3, kvmReadGuest s.toVcpu (BitVec.ofNat 64 (irq * 4)) 4 = [e0, e1, e2, e3] ∧
        Stores s.toVcpu (stackWord s.vmcs 1) (vmcsReadl s.vmcs .guestRflags) m1 ∧
        Stores m1 (stackWord s.vmcs 2) (rmodeCs s.vmcs) m2 ∧ Stores m2 (stackWord s.vmcs 3) (vmcsReadl s.vmcs .guestRip) m3 ∧
        injectRmodeIrq s irq = { s with toVcpu := { m3 with
          vmcs := loadRmodeVector m3.vmcs (e1 ++ e0) (e3 ++ e2) ((vmcsReadl s.vmcs .guestRsp).setWidth 16) } } := by
  have hwrite : ∀ (m : Vcpu) addr data, (kvmWriteGuest m addr data).1.vmcs = m.vmcs := fun m addr data => by
    rw [kvmWriteGuest_frame]
  have hlimit : ((vmcsReadl s.vmcs .guestRsp).setWidth 16).toNat ≤ (vmcsRead32 s.vmcs .guestSsLimit).toNat ↔
      ¬vmcsRead32 s.vmcs .guestSsLimit < ((vmcsReadl s.vmcs .guestRsp).setWidth 16).setWidth 32 := by
    generalize (vmcsReadl s.vmcs .guestRsp).setWidth 16 = sp
    have := sp.isLt
    rw [BitVec.not_lt, BitVec.le_def, BitVec.toNat_setWidth, Nat.mod_eq_of_lt (by omega)]
  -- the addresses that the code computes
  have hw1 := stackWord_eq hsp (show 1 ≤ 3 by decide)
  have hw2 := stackWord_eq hsp (show 2 ≤ 3 by decide)
  have hw3 := stackWord_eq hsp (show 3 ≤ 3 by decide)
  have hstack : StackMapped s ↔ ∃ m1 m2 m3, Stores s.toVcpu (stackWord s.vmcs 1) (vmcsReadl s.vmcs .guestRflags) m1 ∧
      Stores m1 (stackWord s.vmcs 2) (rmodeCs s.vmcs) m2 ∧
      Stores m2 (stackWord s.vmcs 3) (vmcsReadl s.vmcs .guestRip) m3 := stackMapped_iff
  unfold Stores at hstack ⊢
  rw [hw1, hw2, hw3, ← bytesOf_two (vmcsReadl s.vmcs .guestRip)] at hstack ⊢
  unfold rmodeCs at hstack ⊢
  unfold injectRmodeIrq
  dsimp only
  split
  · rename_i hlt
    exact Or.inl ⟨rfl, fun h => hlimit.1 h.limit hlt⟩
  · rename_i hnlt
    split
    · rename_i e0 e1 e2 e3 hread
      split
      · rename_i hn1
        refine Or.inl ⟨hwrite .., fun h => ?_⟩
        obtain ⟨m1, m2, m3, h1, -, -⟩ := hstack.1 h.stack
        have h1 := congrArg Prod.snd h1
        simp_all
      · rename_i hn1
        split
        · rename_i hn2
          refine Or.inl ⟨(hwrite ..).trans (hwrite ..), fun h => ?_⟩
          obtain ⟨m1, m2, m3, h1, h2, -⟩ := hstack.1 h.stack
          simp_all
        · rename_i hn2
          split
          · rename_i hn3
            refine Or.inl ⟨(hwrite ..).trans ((hwrite ..).trans (hwrite ..)), fun h => ?_⟩
            obtain ⟨m1, m2, m3, h1, h2, h3⟩ := hstack.1 h.stack
            simp_all
          · rename_i hn3
            simp only [bne_iff_ne, ne_eq, Decidable.not_not] at hn1 hn2 hn3
            refine Or.inr ⟨⟨hsp, hlimit.2 hnlt, (read_vector_iff hirq).1 ⟨e0, e1, e2, e3, hread⟩, hstack.2 ?_⟩, ?_⟩
            · exact ⟨_, _, _, Prod.ext rfl hn1, Prod.ext rfl hn2, Prod.ext rfl hn3⟩
            · exact ⟨e0, e1, e2, e3, _, _, _, hread, Prod.ext rfl hn1, Prod.ext rfl hn2, Prod.ext rfl hn3, rfl⟩
    · rename_i hnone
      refine Or.inl ⟨rfl, fun h => ?_⟩
      obtain ⟨e0, e1, e2, e3, hread⟩ := (read_vector_iff hirq).2 h.vector
      exact hnone e0 e1 e2 e3 hread

/-- What the delivery leaves in the registers. -/
theorem rmodeDelivers_loadVector {s : KvmVcpu} (hsp : 6 ≤ ((vmcsReadl s.vmcs .guestRsp).setWidth 16).toNat) {irq : Nat}
    {e0 e1 e2 e3 : BitVec 8} {m1 m2 m3 : Vcpu}
    (hread : kvmReadGuest s.toVcpu (BitVec.ofNat 64 (irq * 4)) 4 = [e0, e1, e2, e3])
    (h1 : Stores s.toVcpu (stackWord s.vmcs 1) (vmcsReadl s.vmcs .guestRflags) m1)
    (h2 : Stores m1 (stackWord s.vmcs 2) (rmodeCs s.vmcs) m2)
    (h3 : Stores m2 (stackWord s.vmcs 3) (vmcsReadl s.vmcs .guestRip) m3) :
    RmodeDelivers s irq { s with toVcpu := { m3 with
      vmcs := loadRmodeVector m3.vmcs (e1 ++ e0) (e3 ++ e2) ((vmcsReadl s.vmcs .guestRsp).setWidth 16) } } := by
  have hvmcs : m3.vmcs = s.vmcs := by
    have hv3 : m3.vmcs = m2.vmcs := by rw [h3.eq]
    have hv2 : m2.vmcs = m1.vmcs := by rw [h2.eq]
    have hv1 : m1.vmcs = s.vmcs := by rw [h1.eq]
    rw [hv3, hv2, hv1]
  rw [hvmcs]
  constructor
  · refine ⟨m1, m2, h1, h2, ?_⟩
    rw [← h3.eq]
    exact h3
  · show (vmcsReadl s.vmcs .guestRsp &&& ~~~0xffff) ||| (((vmcsReadl s.vmcs .guestRsp).setWidth 16).setWidth 64 - 6) = _
    rw [stackPointer_sub hsp (by decide)]
    rfl
  · refine ⟨e0, e1, e2, e3, hread, rfl, ?_, rfl⟩
    show ((e3 ++ e2 : BitVec 16).setWidth 64).setWidth 16 = e3 ++ e2
    exact BitVec.setWidth_setWidth_of_le _ (by decide)
  · rfl

/-- The stack pointer moves. -/
theorem RmodeDelivers.vmcs_ne {s t : KvmVcpu} {irq : Nat} (h : RmodeDelivers s irq t) : t.vmcs ≠ s.vmcs := by
  intro hsame
  have hmoved := congrArg (BitVec.setWidth 16) h.sp
  rw [hsame] at hmoved
  generalize vmcsReadl s.vmcs .guestRsp = rsp at hmoved
  have hlow : ((rsp &&& ~~~0xffff) ||| (rsp.setWidth 16 - 6#16).setWidth 64).setWidth 16 = rsp.setWidth 16 - 6#16 := by
    apply BitVec.eq_of_hasBit
    intro i hi
    have hmask : (0xffff : BitVec 64).hasBit i = true := by
      interval_cases i <;> rfl
    simp only [BitVec.hasBit_setWidth, BitVec.hasBit_or, BitVec.hasBit_and, BitVec.hasBit_not, hmask, hi, decide_true,
      Bool.not_true, Bool.and_false, Bool.false_or, Bool.true_and, show i < 64 by omega]
  rw [hlow] at hmoved
  have hval := congrArg BitVec.toNat hmoved
  have h6 : (6#16).toNat = 6 := rfl
  have := (rsp.setWidth 16).isLt
  rw [BitVec.toNat_sub] at hval
  omega

/-- **Injection in real mode succeeds exactly when it can**, unless the stack pointer wraps. -/
theorem injectRmodeIrq_delivers_iff {s : KvmVcpu} (hsp : 6 ≤ ((vmcsReadl s.vmcs .guestRsp).setWidth 16).toNat) {irq : Nat}
    (hirq : irq < 256) : RmodeDelivers s irq (injectRmodeIrq s irq) ↔ RmodeReady s irq := by
  rcases injectRmodeIrq_cases hsp hirq with ⟨hsame, hno⟩ | ⟨hready, e0, e1, e2, e3, m1, m2, m3, hread, h1, h2, h3, heq⟩
  · exact ⟨fun h => absurd hsame h.vmcs_ne, fun h => absurd h hno⟩
  · rw [heq]
    exact ⟨fun _ => hready, fun _ => rmodeDelivers_loadVector hsp hread h1 h2 h3⟩

/-- Without a switch to real mode there is nothing that can fail. -/
theorem delivers_deliverIrq {s : KvmVcpu} {irq : Nat} (hirq : irq < 256)
    (h : s.rmode.active = true → RmodeReady s irq) : Delivers s irq (deliverIrq s irq) := by
  unfold Delivers deliverIrq
  cases hr : s.rmode.active with
  | true =>
    rw [if_pos rfl, if_pos rfl]
    exact (injectRmodeIrq_delivers_iff (h hr).sp hirq).2 (h hr)
  | false =>
    rw [if_neg (by simp), if_neg (by simp)]
    exact vmcsRead32_vmcsWrite32 ..

/-! ### Runs -/

variable {s t : IrqVcpu arch} {e : IrqEvent} {log : List IrqEvent} {P Q : Set Nat} {irq : Nat}

/-- What waits is delivered, or waits. -/
theorem PendingStep.kept (h : Run PendingStep P log Q) (hirq : irq ∈ P) : irq ∈ Q ∨ .delivered irq ∈ log := by
  induction h with
  | refl => exact Or.inl hirq
  | tail _ hstep ih =>
    rcases ih with ih | ih
    · cases hstep with
      | raised irq' => exact Or.inl (Set.mem_insert_of_mem _ ih)
      | @delivered irq' _ =>
        by_cases heq : irq = irq'
        · subst heq
          exact Or.inr (by simp)
        · exact Or.inl ⟨ih, heq⟩
      | quiet => exact Or.inl ih
    · exact Or.inr (List.mem_append_left _ ih)

/-- Nothing is delivered that was not raised: each delivery uses up what made the interrupt wait. -/
theorem PendingStep.count_le (h : Run PendingStep ∅ log Q) (irq : Nat) :
    log.count (.delivered irq) ≤ log.count (.raised irq) ∧
      (irq ∈ Q → log.count (.delivered irq) < log.count (.raised irq)) := by
  induction h with
  | refl => simp
  | @tail P Q log e _ hstep ih =>
    rw [List.count_append, List.count_append]
    cases hstep with
    | raised irq' =>
      by_cases heq : irq' = irq
      · subst heq
        simp
        omega
      · simp [heq, Ne.symm heq]
        exact ih
    | @delivered irq' hmem =>
      by_cases heq : irq' = irq
      · subst heq
        simp
        have := ih.2 hmem
        omega
      · simp [heq, Ne.symm heq]
        exact ih
    | quiet =>
      simp
      exact ih

/-- No interrupt is lost: the set follows a machine that only removes what it delivers. -/
structure NothingLost (log : List IrqEvent) (P : Set Nat) : Prop where
  machine : Run PendingStep ∅ log P
  /-- An interrupt waits from when it is raised until it is delivered. -/
  kept : ∀ before irq after, log = before ++ .raised irq :: after → irq ∈ P ∨ .delivered irq ∈ after
  /-- It is delivered once. -/
  once : ∀ irq, log.count (.delivered irq) ≤ log.count (.raised irq)

theorem nothingLost_of_run (h : Run PendingStep ∅ log P) : NothingLost log P := by
  refine ⟨h, fun before irq after hlog => ?_, fun irq => (PendingStep.count_le h irq).1⟩
  obtain ⟨Q, h1, h2⟩ := h.split (before ++ [.raised irq]) after (by simp [hlog])
  refine PendingStep.kept h2 ?_
  obtain ⟨Q', -, hraised⟩ := h1.last
  cases hraised
  exact Set.mem_insert ..

/-- Injections in real mode are only made where they can succeed. -/
def InjectsReady (s : IrqVcpu arch) (e : IrqEvent) : Prop :=
  ∀ irq, e = .delivered irq ∨ e = .lost irq → s.rmode.active = true → RmodeReady s.toKvmVcpu irq

theorem IrqStep.pending_of_ready (h : s.SummaryExact) (hstep : IrqStep s e t) (hready : InjectsReady s e) :
    PendingStep s.pending e t.pending := by
  rcases (hstep.pending h).2 with hok | ⟨irq, rfl, hmem, -⟩
  · exact hok
  · exfalso
    have hirq : irq < 256 := (IrqVcpu.mem_pending.1 hmem).1
    generalize he : IrqEvent.lost irq = e at hstep
    cases hstep with
    | lose hruns hopen hnext ht hd =>
      obtain rfl := IrqEvent.lost.inj he
      unfold kvmTryInjectIrq at ht
      rw [if_pos hopen] at ht
      obtain ⟨-, -, -, heq⟩ := kvmDoInjectIrq_spec h hnext ht
      rw [heq] at hd
      exact hd (delivers_deliverIrq hirq (hready _ (Or.inr rfl)))
    | _ => cases he

/-- **No interrupt is lost** in any run in which real mode is ready for each interrupt that is injected. -/
theorem no_irq_lost {s0 : IrqVcpu arch} (hopen : s0.NoIrqs)
    (h : Run (fun s e t => IrqStep s e t ∧ InjectsReady s e) s0 log s) : NothingLost log s.pending := by
  apply nothingLost_of_run
  rw [← hopen.pending_eq]
  refine Run.simulate IrqVcpu.pending ?_ ?_ h hopen.summaryExact
  · rintro s e t hs ⟨hstep, -⟩
    exact (hstep.pending hs).1
  · rintro s e t hs ⟨hstep, hready⟩
    exact hstep.pending_of_ready hs hready

/-- A vcpu in real mode with interrupts enabled and the stack pointer 0x1000, in a machine with 64K of memory. -/
def stackVcpu (ssBase : BitVec 64) : KvmVcpu :=
  { (default : KvmVcpu) with
    kvm := smallVm.kvm
    vmcs := fun f => if f = .guestRflags then x86EflagsIf else if f = .guestSsLimit then 0xffff else
      if f = .guestRsp then 0x1000 else if f = .guestSsBase then ssBase else 0
    rmode := ⟨true, 0, 0, 0, 0⟩ }

def stackIrqVcpu (ssBase : BitVec 64) : IrqVcpu .x86_64 := (idleVcpu .x86_64).setVcpu (stackVcpu ssBase)

/-- The timer interrupt. -/
def timerIrqVcpu (ssBase : BitVec 64) : IrqVcpu .x86_64 := (stackIrqVcpu ssBase).setIrq 32

theorem timerIrq_raised (ssBase : BitVec 64) : IrqStep (stackIrqVcpu ssBase) (.raised 32) (timerIrqVcpu ssBase) :=
  @IrqStep.interrupt .x86_64 _ 32 (by decide)

theorem timerIrq_pending (ssBase : BitVec 64) : (timerIrqVcpu ssBase).SummaryExact ∧ (timerIrqVcpu ssBase).pending = {32} := by
  have h0 : (stackIrqVcpu ssBase).NoIrqs := ⟨rfl, rfl⟩
  obtain ⟨hexact, hpending⟩ := h0.summaryExact.setIrq (show 32 < 256 by decide)
  rw [h0.pending_eq, insert_empty_eq] at hpending
  exact ⟨hexact, hpending⟩

/-- The timer interrupt is taken out of the set. -/
theorem timerIrq_taken (ssBase : BitVec 64) : ∃ t, (timerIrqVcpu ssBase).TriesInject ∧
    interruptsOpen (timerIrqVcpu ssBase).vmcs = true ∧ nextIrq (timerIrqVcpu ssBase) = some (0, 32) ∧
    kvmTryInjectIrq (timerIrqVcpu ssBase) = some t ∧ t.toKvmVcpu = injectRmodeIrq (stackVcpu ssBase) 32 ∧ t.pending = ∅ := by
  obtain ⟨hexact, hpending⟩ := timerIrq_pending ssBase
  have hne : (timerIrqVcpu ssBase).irqSummary ≠ 0#_ :=
    fun h => absurd h (by decide : ((idleVcpu .x86_64).setIrq 32).irqSummary ≠ 0#_)
  have hopen : interruptsOpen (timerIrqVcpu ssBase).vmcs = true :=
    (by decide : interruptsOpen (stackVcpu 0).vmcs = true)
  have hruns : vmcsRead32 (timerIrqVcpu ssBase).vmcs .vmEntryIntrInfoField &&& intrInfoValidMask = 0 :=
    (by decide : vmcsRead32 (stackVcpu 0).vmcs .vmEntryIntrInfoField &&& intrInfoValidMask = 0)
  obtain ⟨word, bit, hnext, -, -, hbit, hleast⟩ := hexact.nextIrq hne
  have hirq : word * 64 + bit = 32 := by
    have hmem := hleast.1
    rw [hpending] at hmem
    exact hmem
  have hbit : bit < 64 := hbit
  obtain ⟨rfl, rfl⟩ : word = 0 ∧ bit = 32 := by omega
  have ht : ∃ t, kvmDoInjectIrq (timerIrqVcpu ssBase) = some t := by
    unfold kvmDoInjectIrq
    rw [hnext]
    exact ⟨_, rfl⟩
  obtain ⟨t, ht⟩ := ht
  obtain ⟨-, -, hremoved, hvcpu⟩ := kvmDoInjectIrq_spec hexact hnext ht
  refine ⟨t, ⟨hne, hruns⟩, hopen, hnext, ?_, hvcpu, ?_⟩
  · unfold kvmTryInjectIrq
    rw [if_pos hopen, ht]
  · rw [hremoved, hpending]
    exact Set.sdiff_self

theorem no_irq_lost_timer : ∃ s : IrqVcpu .x86_64,
    NothingLost [.raised 32, .delivered 32] s.pending ∧ RmodeDelivers (stackVcpu 0) 32 s.toKvmVcpu := by
  obtain ⟨t, hruns, hopen, hnext, ht, hvcpu, -⟩ := timerIrq_taken 0
  have hops : (stackVcpu 0).mmu.ops = .nonpaging := rfl
  have hready : RmodeReady (stackVcpu 0) 32 := by
    exact ⟨by decide, by decide, by decide, (stackMapped_nonpaging hops).2 (by decide)⟩
  have hdelivers : RmodeDelivers (stackVcpu 0) 32 t.toKvmVcpu := by
    rw [hvcpu]
    exact (injectRmodeIrq_delivers_iff hready.sp (by decide)).2 hready
  have hraise : InjectsReady (stackIrqVcpu 0) (.raised 32) := by
    intro irq h
    rcases h with h | h <;> cases h
  have hinject : InjectsReady (timerIrqVcpu 0) (.delivered 32) := by
    intro irq h _
    rcases h with h | h
    · cases h
      exact hready
    · cases h
  have h0 : (stackIrqVcpu 0).NoIrqs := ⟨rfl, rfl⟩
  exact ⟨t, no_irq_lost h0 (.tail (.tail .refl ⟨timerIrq_raised 0, hraise⟩)
    ⟨.inject hruns hopen hnext ht hdelivers, hinject⟩), hdelivers⟩

/-- The stack of real mode at 0xf0000, where the machine has no memory. -/
theorem unmapped_stack_loses : ¬∀ (s0 s : IrqVcpu .x86_64) (log : List IrqEvent), s0.NoIrqs → Run IrqStep s0 log s →
    NothingLost log s.pending := by
  intro hall
  obtain ⟨t, hruns, hopen, hnext, ht, hvcpu, hempty⟩ := timerIrq_taken 0xf0000
  have hno : ¬Delivers (timerIrqVcpu 0xf0000).toKvmVcpu 32 t.toKvmVcpu := by
    show ¬RmodeDelivers (stackVcpu 0xf0000) 32 t.toKvmVcpu
    rw [hvcpu, injectRmodeIrq_delivers_iff (by decide) (by decide)]
    intro hready
    have hmapped := ((stackMapped_nonpaging rfl).1 hready.stack 1 (by decide)).1
    exact absurd hmapped (by decide)
  have h0 : (stackIrqVcpu 0xf0000).NoIrqs := ⟨rfl, rfl⟩
  have hrun : Run IrqStep (stackIrqVcpu 0xf0000) [.raised 32, .lost 32] t :=
    .tail (.tail .refl (timerIrq_raised _)) (.lose hruns hopen hnext ht hno)
  rcases (hall _ _ _ h0 hrun).kept [] 32 [.lost 32] rfl with hwaits | hdelivered
  · rw [hempty] at hwaits
    exact hwaits
  · simp at hdelivered

end LearnKvm
