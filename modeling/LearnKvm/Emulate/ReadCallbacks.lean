import LearnKvm.Emulate.Progress
import LearnKvm.GuestCopy

/-!
# The read callbacks (`kvm_main.c`)

`x86_emulate.h` asks of a read callback that it returns the bytes of the range as a little-endian word, zero-extended.
`emulator_read_std` finds the right bytes, on one page or on two (`readStdLoop_result`), and so do the two ways in which
`emulator_read_emulated` is served.  But the bytes are copied over the low end of the word of the caller, and the rest of
this word stays as it was: the contract is met when the caller's word had no bits there (`readCallbacks_iff`).
-/

namespace LearnKvm

variable {s : Vcpu} {addr : BitVec 64} {bytes : Nat}

/-! ### The contract -/

/-- The memory of the guest at its virtual addresses. -/
def guestVirt (s : Vcpu) : ByteMem.Mem 64 := fun gva => s.mem (gvaToHpa s gva)

/-- The paging entries of the guest do not map the address. -/
def GuestUnmaps (s : Vcpu) (gva : BitVec 64) : Prop :=
  s.mmu.ops ≠ .nonpaging ∧ (guestPte s.mmu.ops.ptType s gva 1).hasBit 0 = false

/-- The first byte of the range that is not available. -/
def FirstFailing (s : Vcpu) (addr : BitVec 64) (bytes i : Nat) : Prop :=
  i < bytes ∧ CopyReaches s addr i ∧ ¬GvaMapped s (addr + BitVec.ofNat 64 i)

/-- What `x86_emulate_ops` asks of `read_std`. -/
structure StdContract (s : Vcpu) (addr val : BitVec 64) (bytes : Nat) : Prop where
  available : (∃ v, emulatorReadStd s addr val bytes = .ok v) ↔ CopyReaches s addr bytes
  value : ∀ v, emulatorReadStd s addr val bytes = .ok v → v = ByteMem.load (guestVirt s) addr bytes
  propagate : emulatorReadStd s addr val bytes = .error .propagateFault ↔
    ∃ i, FirstFailing s addr bytes i ∧ GuestUnmaps s (addr + BitVec.ofNat 64 i)
  unhandleable : emulatorReadStd s addr val bytes = .error .unhandleable ↔
    ∃ i, FirstFailing s addr bytes i ∧ ¬GuestUnmaps s (addr + BitVec.ofNat 64 i)

/-- What it asks of `read_emulated`, for a reply that is there and for a range in memory. -/
structure ServedContract (s : MmioVcpu) (addr val : BitVec 64) (bytes : Nat) : Prop where
  reply : s.mmioReadCompleted = true →
    (emulatorReadEmulated s addr val bytes).1 = .ok (@lowBytes .x86_64 bytes s.mmioData)
  memory : s.mmioReadCompleted = false → CopyReaches s.toVcpu addr bytes →
    (emulatorReadEmulated s addr val bytes).1 = .ok (ByteMem.load (guestVirt s.toVcpu) addr bytes)

/-! ### The bytes of a range -/

/-- `gva_to_gpa` also takes the last address of a guest without paging for unmapped. -/
theorem mmuGvaToGpa_unmapped (s : Vcpu) (gva : BitVec 64) :
    mmuGvaToGpa s gva = unmappedGva ↔ GuestUnmaps s gva ∨ (s.mmu.ops = .nonpaging ∧ gva = unmappedGva) := by
  have hpaging : ∀ pt, gvaToGpa pt s gva = unmappedGva ↔ (guestPte pt s gva 1).hasBit 0 = false := fun pt =>
    ⟨fun h => Bool.eq_false_iff.2 fun hp => gvaToGpa_of_present hp h, gvaToGpa_of_not_present⟩
  unfold mmuGvaToGpa GuestUnmaps
  cases s.mmu.ops with
  | nonpaging => simp
  | paging64 => simpa [MmuOps.ptType] using hpaging .pt64
  | paging32 => simpa [MmuOps.ptType] using hpaging .pt32

/-- What the loop over the pages finds in a range. -/
def RangeResult (s : Vcpu) (addr : BitVec 64) (bytes : Nat) : Except X86EmulError (BitVec 64) → Prop
  | .ok v => CopyReaches s addr bytes ∧ v = ByteMem.load (guestVirt s) addr bytes
  | .error rc => ∃ i, FirstFailing s addr bytes i ∧
      rc = if mmuGvaToGpa s (addr + BitVec.ofNat 64 i) = unmappedGva then .propagateFault else .unhandleable

/-- A failure in the rest of a range is one of the range. -/
theorem FirstFailing.shift {m i : Nat} (hm : CopyReaches s addr m) (hle : m ≤ bytes)
    (h : FirstFailing s (addr + BitVec.ofNat 64 m) (bytes - m) i) : FirstFailing s addr bytes (m + i) := by
  obtain ⟨h1, h2, h3⟩ := h
  rw [ByteMem.add_ofNat] at h3
  exact ⟨by omega, copyReaches_add.2 ⟨hm, h2⟩, h3⟩

theorem firstFailing_zero (hpos : 0 < bytes) (h : gvaFrame s addr = none) : FirstFailing s addr bytes 0 := by
  refine ⟨hpos, fun j hj => absurd hj (Nat.not_lt_zero j), fun hmapped => ?_⟩
  rw [add_zero_addr] at hmapped
  obtain ⟨f, hf⟩ := gvaMapped_iff.1 hmapped
  rw [h] at hf
  cases hf

/-- The bytes that are copied from one page. -/
theorem load_page (hlast : LastPageUnbacked s.kvm) {f : Pfn} (hf : gvaFrame s addr = some f) {n : Nat}
    (hn : n ≤ restOfPage addr) :
    ByteMem.load s.mem (hpaOf f + (addr &&& ~~~pageMask)) n = ByteMem.load (guestVirt s) addr n := by
  have hmask : ~~~pageMask = pageSize - 1#64 := BitVec.not_not
  refine ByteMem.load_congr fun j hj => ?_
  unfold guestVirt
  rw [gvaToHpa_add hlast hf (by omega), gvaToHpa_of_some hf, hpaOf_or_offset, hmask]

theorem readStdLoop_result (hlast : LastPageUnbacked s.kvm) {rounds : Nat} (h : bytes ≤ rounds) :
    RangeResult s addr bytes (readStdLoop s rounds addr bytes) := by
  induction rounds generalizing addr bytes with
  | zero =>
    obtain rfl : bytes = 0 := by omega
    exact ⟨fun j hj => absurd hj (Nat.not_lt_zero j), rfl⟩
  | succ rounds ih =>
    by_cases h0 : bytes = 0
    · subst h0
      exact ⟨fun j hj => absurd hj (Nat.not_lt_zero j), rfl⟩
    have hpos := restOfPage_pos addr
    unfold readStdLoop
    dsimp only
    rw [if_neg h0]
    by_cases hgpa : mmuGvaToGpa s addr = unmappedGva
    · have hnone : gvaFrame s addr = none := if_pos hgpa
      rw [if_pos hgpa]
      refine ⟨0, firstFailing_zero (Nat.pos_of_ne_zero h0) hnone, ?_⟩
      rw [add_zero_addr, if_pos hgpa]
    rw [if_neg hgpa]
    cases hslot : gfnToMemslot s.kvm (gfnOf (mmuGvaToGpa s addr)) with
    | none =>
      have hnone : gvaFrame s addr = none := by
        unfold gvaFrame gpaFrame
        rw [if_neg hgpa, hslot]
        rfl
      refine ⟨0, firstFailing_zero (Nat.pos_of_ne_zero h0) hnone, ?_⟩
      rw [add_zero_addr, if_neg hgpa]
    | some memslot =>
      have hf : gvaFrame s addr = some (gfnToPage s.kvm memslot (gfnOf (mmuGvaToGpa s addr))) := by
        unfold gvaFrame gpaFrame
        rw [if_neg hgpa, hslot]
        rfl
      generalize htocopy : min bytes (restOfPage addr) = tocopy
      have hle : tocopy ≤ bytes := htocopy ▸ Nat.min_le_left ..
      have hrest : tocopy ≤ restOfPage addr := htocopy ▸ Nat.min_le_right ..
      have hreach := copyReaches_restOfPage hlast hf hrest
      have hih := @ih (addr + BitVec.ofNat 64 tocopy) (bytes - tocopy) (by omega)
      dsimp only
      cases hr : readStdLoop s rounds (addr + BitVec.ofNat 64 tocopy) (bytes - tocopy) with
      | ok rest =>
        rw [hr] at hih
        obtain ⟨h1, h2⟩ := hih
        have hsum : tocopy + (bytes - tocopy) = bytes := Nat.add_sub_cancel' hle
        refine ⟨hsum ▸ copyReaches_add.2 ⟨hreach, h1⟩, ?_⟩
        rw [load_page hlast hf hrest, h2, ← ByteMem.load_add, hsum]
      | error rc =>
        rw [hr] at hih
        obtain ⟨i, h1, h2⟩ := hih
        rw [ByteMem.add_ofNat] at h2
        exact ⟨tocopy + i, h1.shift hreach hle, h2⟩

/-! ### The word of the caller -/

/-- A word over which the low bytes of another are stored is this word, zero-extended, if it had no higher bits. -/
theorem setLow_eq_lowBytes_iff {arch : Arch} (bytes : Nat) (old x : ULong arch) :
    setLow bytes old x = lowBytes bytes x ↔ old.toNat < 2 ^ (8 * bytes) := by
  constructor
  · intro h
    refine Nat.lt_pow_two_of_testBit _ fun i hi => ?_
    have hbit := congrArg (fun w : ULong arch => w.hasBit i) h
    simp only [hasBit_setLow, hasBit_lowBytes, show ¬i < 8 * bytes by omega, if_false, decide_false, Bool.and_false] at hbit
    exact hbit
  · intro h
    apply BitVec.eq_of_hasBit
    intro i _
    rw [hasBit_setLow, hasBit_lowBytes]
    by_cases hi : i < 8 * bytes
    · simp [hi]
    · have hold : old.hasBit i = false :=
        Nat.testBit_lt_two_pow (h.trans_le (Nat.pow_le_pow_right Nat.two_pos (by omega)))
      simp [hi, hold]

theorem lowBytes_load (m : ByteMem.Mem 64) (a : BitVec 64) (n : Nat) :
    @lowBytes .x86_64 n (ByteMem.load m a n) = ByteMem.load m a n := by
  apply BitVec.eq_of_hasBit
  intro i _
  refine (@hasBit_lowBytes .x86_64 n (ByteMem.load m a n) i).trans ?_
  by_cases hi : i < 8 * n
  · simp [hi]
  · have hzero : (ByteMem.load m a n).hasBit i = false := by
      rw [ByteMem.hasBit_load]
      simp [hi]
    simp only [hi, decide_false, Bool.and_false]
    exact hzero.symm

theorem setLow_load_iff (m : ByteMem.Mem 64) (a : BitVec 64) (n : Nat) (val : BitVec 64) :
    @setLow .x86_64 n val (ByteMem.load m a n) = ByteMem.load m a n ↔ val.toNat < 2 ^ (8 * n) := by
  have h := @setLow_eq_lowBytes_iff .x86_64 n val (ByteMem.load m a n)
  rwa [lowBytes_load] at h

/-! ### The callbacks -/

theorem FirstFailing.not_reaches {i : Nat} (h : FirstFailing s addr bytes i) : ¬CopyReaches s addr bytes := fun hall =>
  h.2.2 (hall i h.1)

theorem FirstFailing.unique {i j : Nat} (hi : FirstFailing s addr bytes i) (hj : FirstFailing s addr bytes j) : i = j := by
  rcases Nat.lt_trichotomy i j with hlt | heq | hlt
  · exact absurd (hj.2.1 i hlt) hi.2.2
  · exact heq
  · exact absurd (hi.2.1 j hlt) hj.2.2

/-- Where the last address of a guest without paging fails first, the range starts there. -/
theorem FirstFailing.last (hlast : LastPageUnbacked s.kvm) {i : Nat} (h : FirstFailing s addr bytes i)
    (heq : addr + BitVec.ofNat 64 i = unmappedGva) (hops : s.mmu.ops = .nonpaging) : addr = unmappedGva := by
  cases i with
  | zero => rwa [add_zero_addr] at heq
  | succ i =>
    -- the byte before lies in the same page, which has no frame
    exfalso
    have hsame : SamePage (addr + BitVec.ofNat 64 i) unmappedGva := by
      refine samePage_of_toNat ?_
      have hval := congrArg BitVec.toNat heq
      rw [← ByteMem.add_ofNat, BitVec.toNat_add] at hval
      have hun : unmappedGva.toNat = 2 ^ 64 - 1 := by decide
      have hone : (BitVec.ofNat 64 1).toNat = 1 := by decide
      rw [hun, hone] at hval
      rw [hun]
      have := (addr + BitVec.ofNat 64 i).isLt
      omega
    have hnone : gvaFrame s unmappedGva = none := by
      unfold gvaFrame mmuGvaToGpa
      rw [hops]
      exact if_pos rfl
    obtain ⟨f, hf⟩ := gvaMapped_iff.1 (h.2.1 i (Nat.lt_succ_self i))
    rw [gvaFrame_congr hlast hsame, hnone] at hf
    cases hf

theorem stdContract_iff (hlast : LastPageUnbacked s.kvm) (hpos : 0 < bytes) (val : BitVec 64) :
    StdContract s addr val bytes ↔ (s.mmu.ops = .nonpaging → addr ≠ unmappedGva) ∧
      (¬CopyReaches s addr bytes ∨ val.toNat < 2 ^ (8 * bytes)) := by
  have hresult := @readStdLoop_result s addr bytes hlast bytes le_rfl
  have hread : ∀ r, readStdLoop s bytes addr bytes = r →
      emulatorReadStd s addr val bytes = r.map fun data => @setLow .x86_64 bytes val data := fun r hr => by
    unfold emulatorReadStd
    rw [hr]
    rfl
  cases hr : readStdLoop s bytes addr bytes with
  | ok v =>
    rw [hr] at hresult
    obtain ⟨hreach, rfl⟩ := hresult
    have hok : emulatorReadStd s addr val bytes = .ok _ := hread _ hr
    have hfail : ∀ i, ¬FirstFailing s addr bytes i := fun i hi => hi.not_reaches hreach
    have haddr : s.mmu.ops = .nonpaging → addr ≠ unmappedGva := by
      rintro hops rfl
      obtain ⟨f, hf⟩ := gvaMapped_iff.1 (hreach 0 hpos)
      rw [add_zero_addr] at hf
      unfold gvaFrame mmuGvaToGpa at hf
      rw [hops, if_pos rfl] at hf
      cases hf
    rw [and_iff_right haddr, or_iff_right (not_not.2 hreach), ← setLow_load_iff (guestVirt s) addr bytes val]
    constructor
    · exact fun h => h.value _ hok
    · intro h
      refine ⟨iff_of_true ⟨_, hok⟩ hreach, fun w hw => ?_, ?_, ?_⟩
      · rw [hok] at hw
        exact (Except.ok.inj hw).symm.trans h
      · rw [hok]
        exact iff_of_false (fun h => by cases h) fun ⟨i, hi, _⟩ => hfail i hi
      · rw [hok]
        exact iff_of_false (fun h => by cases h) fun ⟨i, hi, _⟩ => hfail i hi
  | error rc =>
    rw [hr] at hresult
    obtain ⟨i, hi, hrc⟩ := hresult
    have herr : emulatorReadStd s addr val bytes = .error rc := hread _ hr
    have hunique : ∀ P : BitVec 64 → Prop,
        (∃ j, FirstFailing s addr bytes j ∧ P (addr + BitVec.ofNat 64 j)) ↔ P (addr + BitVec.ofNat 64 i) := fun P =>
      ⟨fun ⟨j, hj, hp⟩ => hi.unique hj ▸ hp, fun hp => ⟨i, hi, hp⟩⟩
    have hcond : (s.mmu.ops = .nonpaging → addr ≠ unmappedGva) ↔
        (mmuGvaToGpa s (addr + BitVec.ofNat 64 i) = unmappedGva ↔ GuestUnmaps s (addr + BitVec.ofNat 64 i)) := by
      rw [mmuGvaToGpa_unmapped]
      constructor
      · refine fun h => or_iff_left fun ⟨hops, heq⟩ => h hops (hi.last hlast heq hops)
      · rintro h hops rfl
        have hzero : FirstFailing s unmappedGva bytes 0 := by
          refine firstFailing_zero hpos ?_
          unfold gvaFrame mmuGvaToGpa
          rw [hops]
          exact if_pos rfl
        obtain rfl := hi.unique hzero
        exact (h.1 (Or.inr ⟨hops, add_zero_addr _⟩)).1 hops
    rw [or_iff_left_of_imp fun _ => hi.not_reaches, and_iff_left hi.not_reaches, hcond]
    constructor
    · intro h
      have hp := h.propagate
      rw [herr, hunique, hrc] at hp
      rw [← hp]
      by_cases hgpa : mmuGvaToGpa s (addr + BitVec.ofNat 64 i) = unmappedGva
      · simp [hgpa]
      · simp [hgpa]
    · intro h
      refine ⟨iff_of_false ?_ hi.not_reaches, ?_, ?_, ?_⟩
      · rintro ⟨v, hv⟩
        rw [herr] at hv
        cases hv
      · intro v hv
        rw [herr] at hv
        cases hv
      · rw [herr, hunique, hrc, ← h]
        by_cases hgpa : mmuGvaToGpa s (addr + BitVec.ofNat 64 i) = unmappedGva
        · simp [hgpa]
        · simp [hgpa]
      · rw [herr, hunique (fun a => ¬GuestUnmaps s a), hrc, ← h]
        by_cases hgpa : mmuGvaToGpa s (addr + BitVec.ofNat 64 i) = unmappedGva
        · simp [hgpa]
        · simp [hgpa]

theorem servedContract_iff {s : MmioVcpu} (hlast : LastPageUnbacked s.kvm) (val : BitVec 64) :
    ServedContract s addr val bytes ↔
      (s.mmioReadCompleted = false ∧ ¬CopyReaches s.toVcpu addr bytes) ∨ val.toNat < 2 ^ (8 * bytes) := by
  cases hc : s.mmioReadCompleted with
  | true =>
    have hreply : (emulatorReadEmulated s addr val bytes).1 = .ok (@setLow .x86_64 bytes val s.mmioData) := by
      unfold emulatorReadEmulated
      rw [hc]
      rfl
    rw [or_iff_right (by simp)]
    refine Iff.trans ?_ (@setLow_eq_lowBytes_iff .x86_64 bytes val s.mmioData)
    constructor
    · exact fun h => Except.ok.inj (hreply.symm.trans (h.reply hc))
    · exact fun h => ⟨fun _ => hreply.trans (congrArg _ h), fun hno => by rw [hc] at hno; cases hno⟩
  | false =>
    have hresult := @readStdLoop_result s.toVcpu addr bytes hlast bytes le_rfl
    simp only [true_and]
    by_cases hreach : CopyReaches s.toVcpu addr bytes
    · cases hr : readStdLoop s.toVcpu bytes addr bytes with
      | error rc =>
        rw [hr] at hresult
        obtain ⟨i, hi, -⟩ := hresult
        exact absurd hreach hi.not_reaches
      | ok v =>
        rw [hr] at hresult
        obtain ⟨-, rfl⟩ := hresult
        have hmemory : (emulatorReadEmulated s addr val bytes).1 =
            .ok (@setLow .x86_64 bytes val (ByteMem.load (guestVirt s.toVcpu) addr bytes)) := by
          unfold emulatorReadEmulated emulatorReadStd
          rw [hc, hr]
          rfl
        rw [or_iff_right (not_not.2 hreach), ← setLow_load_iff (guestVirt s.toVcpu) addr bytes val]
        constructor
        · exact fun h => Except.ok.inj (hmemory.symm.trans (h.memory hc hreach))
        · exact fun h => ⟨fun hno => (by rw [hc] at hno; cases hno), fun _ _ => hmemory.trans (congrArg _ h)⟩
    · refine iff_of_true ⟨fun hno => ?_, fun _ h => absurd h hreach⟩ (Or.inl hreach)
      rw [hc] at hno
      cases hno

/-- The read callbacks meet their contract exactly when the word of the caller has no bits above the bytes that are
read, if there is something to read.  Without paging the last address counts as unmapped. -/
theorem readCallbacks_iff (s : MmioVcpu) (addr val : BitVec 64) (hlast : LastPageUnbacked s.kvm) (hbytes : bytes ∈ [1, 2, 4, 8]) :
    (StdContract s.toVcpu addr val bytes ↔ (s.mmu.ops = .nonpaging → addr ≠ unmappedGva) ∧
      (¬CopyReaches s.toVcpu addr bytes ∨ val.toNat < 2 ^ (8 * bytes))) ∧
    (ServedContract s addr val bytes ↔
      (s.mmioReadCompleted = false ∧ ¬CopyReaches s.toVcpu addr bytes) ∨ val.toNat < 2 ^ (8 * bytes)) := by
  have hpos : 0 < bytes := by
    simp only [List.mem_cons, List.not_mem_nil, or_false] at hbytes
    omega
  exact ⟨stdContract_iff hlast hpos val, servedContract_iff hlast val⟩

/-! ### A byte in a word -/

/-- A guest before paging that has two gigabytes of memory, with a reply of the device memory at hand. -/
def replyVcpu : MmioVcpu :=
  { movsVcpu with
    toVcpu := largeGuest
    mmioReadCompleted := true
    mmioData := 0x1234 }

theorem readCallbacks_iff_byte : StdContract largeGuest 0xfff 0 2 ∧ ServedContract replyVcpu 0xfff 0 1 :=
  ⟨(readCallbacks_iff replyVcpu 0xfff 0 largeGuest_lastPage (by decide)).1.2 ⟨fun _ => by decide, Or.inr (by decide)⟩,
    (readCallbacks_iff replyVcpu 0xfff 0 largeGuest_lastPage (by decide)).2.2 (Or.inr (by decide))⟩

/-- One byte is read over a word of ones: the upper seven bytes stay. -/
theorem stale_upper_bytes : ¬StdContract largeGuest 0xfff (~~~0) 1 ∧ ¬ServedContract replyVcpu 0xfff (~~~0) 1 := by
  rw [stdContract_iff largeGuest_lastPage Nat.one_pos, servedContract_iff (s := replyVcpu) largeGuest_lastPage]
  refine ⟨fun h => ?_, fun h => ?_⟩
  · have hreach : CopyReaches largeGuest 0xfff 1 := fun j hj => by
      obtain rfl : j = 0 := by omega
      exact largeGuest_mapped (i := 0xfff) (by decide)
    exact h.2.elim (fun hno => hno hreach) (by decide)
  · exact h.elim (fun hno => absurd hno.1 (by decide)) (by decide)

end LearnKvm
