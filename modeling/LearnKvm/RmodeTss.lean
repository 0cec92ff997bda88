import LearnKvm.GuestWrites
import LearnKvm.Pdptrs
import LearnKvm.RegionOverlap
import LearnKvm.SlotPages
import LearnKvm.Translation

/-!
# The task state segment of emulated real mode

The last three pages of slot 0 hold the task state segment that the processor uses in virtual-8086 mode: `init_rmode_tss`
fills them, and `enter_rmode` loads the base of TR with their address (`TssPlaced`).  The address passes through an `int`.
Below 2 GiB that is harmless; from there on the base is extended by the sign, and where this gives the address back, at the
top of the address space, it is the frame number that goes wrong (`rmodeTss_iff`).
-/

namespace LearnKvm

open Relation

variable {kvm : Kvm} {s s' : Vcpu} {m : MemSystem}

/-- The frame and the address where the last three pages of slot 0 start. -/
def tssGfn (kvm : Kvm) : Nat := (kvm.memslots 0).baseGfn + (kvm.memslots 0).npages - 3
def tssAddress (kvm : Kvm) : Nat := tssGfn kvm * 4096

/-- The guest physical address `o` bytes into them. -/
def tssByteAddress (kvm : Kvm) (o : Nat) : BitVec 64 := BitVec.ofNat 64 (tssAddress kvm + o)

/-- The offset of the I/O permission bitmap, the end of the bitmap, and zeros. -/
def rmodeTssByte (o : Nat) : BitVec 8 := if o = 0x66 then 0x88 else if o = rmodeTssSize.toNat - 1 then 0xff else 0

/-- The three pages, and only they, are initialised. -/
structure TssInitialised (s s' : Vcpu) : Prop where
  rest : s' = { s with mem := s'.mem }
  inside : ∀ o < 3 * 4096, gfnToMemslot s.kvm (gfnOf (tssByteAddress s.kvm o)) = some 0
  bytes : ∀ o < 3 * 4096, guestPhys s' (tssByteAddress s.kvm o) = rmodeTssByte o
  others : ∀ a, s'.mem a ≠ s.mem a → ∃ o < 3 * 4096, a = gpaToHpa s.kvm (tssByteAddress s.kvm o)

structure TssPlaced (s : KvmVcpu) : Prop where
  base : vmcsReadl (enterRmode s).vmcs .guestTrBase = BitVec.ofNat 64 (tssAddress s.kvm)
  init : ∃ s', initRmodeTss s.toVcpu = some s' ∧ TssInitialised s.toVcpu s'

/-! ### The three pages -/

def tssPage (kvm : Kvm) (k : Nat) : Pfn := kvm.pageArray (kvm.memslots 0).physMem ((kvm.memslots 0).npages - 3 + k)

/-- What the runs of the threads say about the slots. -/
structure TssLayout (kvm : Kvm) : Prop where
  npages : 3 ≤ (kvm.memslots 0).npages
  fits : ∀ i, (kvm.memslots i).baseGfn + (kvm.memslots i).npages < 2 ^ 52
  find : ∀ gfn i, gfnToMemslot kvm gfn = some i ↔ (kvm.memslots i).contains gfn = true
  distinct : ∀ j < 3, ∀ k < 3, tssPage kvm j = tssPage kvm k → j = k

theorem tssLayout (hrun : MemRun .opened m) (hn : 3 ≤ (m.kvm.memslots 0).npages) : TssLayout m.kvm := by
  obtain ⟨hi, ho⟩ := MemOwned.run hrun
  have hlaid := SlotsLaidOut.run hrun
  have hphys : (m.kvm.memslots 0).physMem ≠ 0 := fun h0 => by
    have := (ho.slots 0).array.2 h0
    omega
  refine ⟨hn, fun i => (hlaid.slots i).fits, gfnToMemslot_iff hi.slots hi.nmemslots, fun j hj k hk heq => ?_⟩
  have hinj := List.inj_on_of_nodup_map ((hlaid.slots 0).distinct hphys)
  have hmem : ∀ k < 3, (m.kvm.memslots 0).npages - 3 + k ∈ List.range (m.kvm.memslots 0).npages := fun k hk =>
    List.mem_range.2 (by omega)
  have := hinj (hmem j hj) (hmem k hk) heq
  omega

theorem TssLayout.tssGfn_lt (h : TssLayout kvm) : tssGfn kvm + 3 < 2 ^ 52 := by
  have := h.fits 0
  have := h.npages
  unfold tssGfn
  omega

theorem TssLayout.gfnToMemslot (h : TssLayout kvm) {k : Nat} (hk : k < 3) :
    gfnToMemslot kvm (tssGfn kvm + k) = some 0 := by
  have := h.npages
  rw [h.find]
  unfold KvmMemorySlot.contains tssGfn
  simp only [Bool.and_eq_true, decide_eq_true_eq]
  omega

theorem TssLayout.gfnToPage (h : TssLayout kvm) (k : Nat) : gfnToPage kvm 0 (tssGfn kvm + k) = tssPage kvm k := by
  have := h.npages
  unfold LearnKvm.gfnToPage tssPage tssGfn
  congr 1
  omega

theorem TssLayout.gfnToPageOrNull (h : TssLayout kvm) {k : Nat} (hk : k < 3) :
    gfnToPageOrNull kvm (BitVec.ofNat 64 (tssGfn kvm + k)) = some (tssPage kvm k) := by
  have hlt := h.tssGfn_lt
  unfold LearnKvm.gfnToPageOrNull
  rw [BitVec.toNat_ofNat, Nat.mod_eq_of_lt (by omega), h.gfnToMemslot hk, Option.map_some, h.gfnToPage]

/-- No slot has a frame at the top of the 64-bit numbers. -/
theorem TssLayout.gfnToPageOrNull_none (h : TssLayout kvm) {gfn : BitVec 64} (hgfn : 2 ^ 52 ≤ gfn.toNat) :
    LearnKvm.gfnToPageOrNull kvm gfn = none := by
  unfold LearnKvm.gfnToPageOrNull
  rw [Option.map_eq_none_iff, Option.eq_none_iff_forall_ne_some]
  intro i hi
  have hin := (h.find gfn.toNat i).1 hi
  have := h.fits i
  unfold KvmMemorySlot.contains at hin
  simp only [Bool.and_eq_true, decide_eq_true_eq] at hin
  omega

theorem TssLayout.gfnOf_byte (h : TssLayout kvm) {k off : Nat} (hk : k < 3) (hoff : off < 4096) :
    gfnOf (tssByteAddress kvm (4096 * k + off)) = tssGfn kvm + k := by
  have hlt := h.tssGfn_lt
  rw [gfnOf_eq]
  unfold tssByteAddress tssAddress
  rw [BitVec.toNat_ofNat]
  omega

theorem pageOffset_tssByte (kvm : Kvm) (k : Nat) {off : Nat} (hoff : off < 4096) :
    tssByteAddress kvm (4096 * k + off) &&& (pageSize - 1#64) = BitVec.ofNat 64 off := by
  apply BitVec.eq_of_toNat_eq
  rw [toNat_and_pageOffset]
  unfold tssByteAddress tssAddress
  rw [BitVec.toNat_ofNat, BitVec.toNat_ofNat]
  omega

theorem TssLayout.gpaFrame_byte (h : TssLayout kvm) {k off : Nat} (hk : k < 3) (hoff : off < 4096) :
    gpaFrame kvm (tssByteAddress kvm (4096 * k + off)) = some (tssPage kvm k) := by
  unfold gpaFrame
  rw [h.gfnOf_byte hk hoff, h.gfnToMemslot hk, Option.map_some, h.gfnToPage]

theorem TssLayout.gpaToHpa_byte (h : TssLayout kvm) {k off : Nat} (hk : k < 3) (hoff : off < 4096) :
    gpaToHpa kvm (tssByteAddress kvm (4096 * k + off)) = hpaOf (tssPage kvm k) + BitVec.ofNat 64 off := by
  rw [gpaToHpa_of_some (h.gpaFrame_byte hk hoff), hpaOf_or_offset, pageOffset_tssByte kvm k hoff]

/-! ### Bytes of host pages -/

theorem clearPage_at (s : Vcpu) (p q : Pfn) {off : Nat} (hoff : off < 4096) :
    (clearPage s p).mem (hpaOf q + BitVec.ofNat 64 off) = if q = p then 0 else s.mem (hpaOf q + BitVec.ofNat 64 off) := by
  have hiff : hpaOf q = hpaOf p ↔ q = p := by
    rw [← BitVec.toNat_inj, toNat_hpaOf, toNat_hpaOf, ← BitVec.toNat_inj]
    omega
  show (if (hpaOf q + BitVec.ofNat 64 off) &&& pageMask = hpaOf p then 0 else _) = _
  rw [hpaOf_add_and_pageMask q hoff]
  exact if_congr hiff rfl rfl

/-- A store that stays in its page. -/
theorem store_at (mem : ByteMem.Mem 64) (p q : Pfn) {d n off : Nat} (hd : d + n ≤ 4096) (hoff : off < 4096)
    (v : BitVec 64) : ByteMem.store mem (hpaOf p + BitVec.ofNat 64 d) n v (hpaOf q + BitVec.ofNat 64 off) =
      if q = p ∧ d ≤ off ∧ off < d + n then Bits.field (8 * (off - d)) 8 v else mem (hpaOf q + BitVec.ofNat 64 off) := by
  have hp := p.isLt
  have hq := q.isLt
  unfold ByteMem.store
  by_cases hn : n = 0
  · rw [if_neg (by omega), if_neg (by omega)]
  have hdist : (hpaOf q + BitVec.ofNat 64 off - (hpaOf p + BitVec.ofNat 64 d)).toNat =
      (2 ^ 64 - (p.toNat * 4096 + d) + (q.toNat * 4096 + off)) % 2 ^ 64 := by
    rw [BitVec.toNat_sub, toNat_hpaOf_add q hoff, toNat_hpaOf_add p (by omega)]
  by_cases hin : q = p ∧ d ≤ off ∧ off < d + n
  · obtain ⟨rfl, h1, h2⟩ := hin
    have hoffset : (hpaOf q + BitVec.ofNat 64 off - (hpaOf q + BitVec.ofNat 64 d)).toNat = off - d := by
      rw [hdist]
      omega
    rw [hoffset, if_pos (by omega), if_pos ⟨rfl, h1, h2⟩]
  · have hout : ¬(hpaOf q + BitVec.ofNat 64 off - (hpaOf p + BitVec.ofNat 64 d)).toNat < n := by
      rw [hdist]
      intro hlt
      refine hin ⟨BitVec.eq_of_toNat_eq ?_, ?_, ?_⟩ <;> omega
    rw [if_neg hout, if_neg hin]

/-- Each address is a byte of its page. -/
theorem eq_hpaOf_add {a : BitVec 64} {p : Pfn} (h : a &&& pageMask = hpaOf p) :
    ∃ off < 4096, a = hpaOf p + BitVec.ofNat 64 off := by
  have hnat := congrArg BitVec.toNat h
  rw [toNat_and_pageMask, toNat_hpaOf] at hnat
  refine ⟨a.toNat % 4096, Nat.mod_lt _ (by decide), BitVec.eq_of_toNat_eq ?_⟩
  rw [toNat_hpaOf_add p (Nat.mod_lt _ (by decide))]
  omega

theorem clearPage_changed {p : Pfn} {a : BitVec 64} (h : (clearPage s p).mem a ≠ s.mem a) :
    ∃ off < 4096, a = hpaOf p + BitVec.ofNat 64 off := by
  by_cases hp : a &&& pageMask = hpaOf p
  · exact eq_hpaOf_add hp
  · exact absurd (if_neg hp) h

theorem store_changed {mem : ByteMem.Mem 64} {p : Pfn} {d n : Nat} {v a : BitVec 64} (hd : d + n ≤ 4096)
    (h : ByteMem.store mem (hpaOf p + BitVec.ofNat 64 d) n v a ≠ mem a) :
    ∃ off < 4096, a = hpaOf p + BitVec.ofNat 64 off := by
  have hin : (a - (hpaOf p + BitVec.ofNat 64 d)).toNat < n := by
    by_contra hno
    exact h (if_neg hno)
  generalize hi : (a - (hpaOf p + BitVec.ofNat 64 d)).toNat = i at hin
  refine ⟨d + i, by omega, ?_⟩
  rw [← ByteMem.add_ofNat, ← hi, BitVec.ofNat_toNat, BitVec.setWidth_eq, BitVec.add_comm, BitVec.sub_add_cancel]

/-! ### What is initialised -/

/-- The memory after the three pages have been filled, one after the other. -/
def tssFilled (s : Vcpu) (p : Nat → Pfn) : ByteMem.Mem 64 :=
  let s := clearPage s (p 0)
  let s := { s with mem := ByteMem.store s.mem (hpaOf (p 0) + BitVec.ofNat 64 0x66) 2 0x88 }
  let s := clearPage (clearPage s (p 1)) (p 2)
  ByteMem.store s.mem (hpaOf (p 2) + BitVec.ofNat 64 136) 1 0xff

theorem TssLayout.initRmodeTss_eq (h : TssLayout s.kvm)
    (hfn : ((rmodeTssBase s.kvm).sshiftRight pageShift).signExtend 64 = BitVec.ofNat 64 (tssGfn s.kvm)) :
    ∃ s', initRmodeTss s = some s' ∧ s'.mem = tssFilled s (tssPage s.kvm) := by
  have h0 := h.gfnToPageOrNull (k := 0) (by decide)
  have h1 := h.gfnToPageOrNull (k := 1) (by decide)
  have h2 := h.gfnToPageOrNull (k := 2) (by decide)
  rw [Nat.add_zero] at h0
  rw [BitVec.ofNat_add] at h1 h2
  unfold initRmodeTss
  dsimp only
  rw [hfn, h0, h1, h2]
  exact ⟨_, rfl, rfl⟩

theorem tssFilled_at {p : Nat → Pfn} (hp : ∀ j < 3, ∀ k < 3, p j = p k → j = k) {k off : Nat} (hk : k < 3)
    (hoff : off < 4096) : tssFilled s p (hpaOf (p k) + BitVec.ofNat 64 off) = rmodeTssByte (4096 * k + off) := by
  have hpage : ∀ j < 3, (p k = p j ↔ k = j) := fun j hj => ⟨hp k hk j hj, fun heq => heq ▸ rfl⟩
  have hsize : rmodeTssSize.toNat - 1 = 4096 * 2 + 136 := by decide
  unfold tssFilled
  rw [store_at _ _ _ (by decide) hoff, clearPage_at _ _ _ hoff, clearPage_at _ _ _ hoff]
  dsimp only
  rw [store_at _ _ _ (by decide) hoff, clearPage_at _ _ _ hoff]
  simp only [hpage 0 (by decide), hpage 1 (by decide), hpage 2 (by decide)]
  unfold rmodeTssByte
  rw [hsize]
  obtain rfl | rfl | rfl : k = 0 ∨ k = 1 ∨ k = 2 := by omega
  · rw [if_neg (by omega), if_neg (by omega), if_neg (by omega), if_neg (show ¬4096 * 0 + off = 4096 * 2 + 136 by omega)]
    -- the word at 0x66 is 0x88
    by_cases h66 : off = 0x66
    · subst h66
      rfl
    · by_cases h67 : off = 0x67
      · subst h67
        rfl
      · rw [if_neg (by omega), if_pos rfl, if_neg (by omega)]
  · rw [if_neg (by omega), if_neg (by omega), if_pos rfl, if_neg (by omega), if_neg (by omega)]
  · by_cases hlast : off = 136
    · subst hlast
      rfl
    · rw [if_neg (by omega), if_pos rfl, if_neg (by omega), if_neg (by omega)]

/-- Each write changes bytes of one of the pages. -/
theorem tssFilled_changed {p : Nat → Pfn} {a : BitVec 64} (h : tssFilled s p a ≠ s.mem a) :
    ∃ k < 3, ∃ off < 4096, a = hpaOf (p k) + BitVec.ofNat 64 off := by
  by_contra hno
  have hnot : ∀ k < 3, ¬∃ off < 4096, a = hpaOf (p k) + BitVec.ofNat 64 off := fun k hk hex => hno ⟨k, hk, hex⟩
  refine h ?_
  unfold tssFilled
  rw [not_not.1 fun hne => hnot 2 (by decide) (store_changed (by decide) hne),
    not_not.1 fun hne => hnot 2 (by decide) (clearPage_changed hne),
    not_not.1 fun hne => hnot 1 (by decide) (clearPage_changed hne)]
  dsimp only
  rw [not_not.1 fun hne => hnot 0 (by decide) (store_changed (by decide) hne),
    not_not.1 fun hne => hnot 0 (by decide) (clearPage_changed hne)]

/-- When the frame number is right, the three pages are filled. -/
theorem TssLayout.initialised (h : TssLayout s.kvm)
    (hfn : ((rmodeTssBase s.kvm).sshiftRight pageShift).signExtend 64 = BitVec.ofNat 64 (tssGfn s.kvm)) :
    ∃ s', initRmodeTss s = some s' ∧ TssInitialised s s' := by
  obtain ⟨s', hs', hmem⟩ := h.initRmodeTss_eq hfn
  have hrest := initRmodeTss_lists hs'
  have hkvm : s'.kvm = s.kvm := by rw [hrest]
  have hsplit : ∀ o < 3 * 4096, ∃ k < 3, ∃ off < 4096, o = 4096 * k + off := fun o ho =>
    ⟨o / 4096, by omega, o % 4096, Nat.mod_lt _ (by decide), by omega⟩
  refine ⟨s', hs', hrest, fun o ho => ?_, fun o ho => ?_, fun a ha => ?_⟩
  · obtain ⟨k, hk, off, hoff, rfl⟩ := hsplit o ho
    rw [h.gfnOf_byte hk hoff, h.gfnToMemslot hk]
  · obtain ⟨k, hk, off, hoff, rfl⟩ := hsplit o ho
    unfold guestPhys
    rw [hkvm, h.gpaFrame_byte hk hoff]
    dsimp only
    rw [pageOffset_tssByte _ k hoff, hmem]
    exact tssFilled_at h.distinct hk hoff
  · rw [hmem] at ha
    obtain ⟨k, hk, off, hoff, rfl⟩ := tssFilled_changed ha
    exact ⟨4096 * k + off, by omega, (h.gpaToHpa_byte hk hoff).symm⟩

/-! ### The address as an `int` -/

theorem trBase_enterRmode (s : KvmVcpu) :
    vmcsReadl (enterRmode s).vmcs .guestTrBase = (rmodeTssBase s.kvm).signExtend 64 := rfl

theorem TssLayout.rmodeTssBase_eq (h : TssLayout kvm) : rmodeTssBase kvm = BitVec.ofNat 32 (tssAddress kvm) := by
  have hfits := h.fits 0
  have hn := h.npages
  apply BitVec.eq_of_toNat_eq
  unfold rmodeTssBase tssAddress tssGfn pageShift
  dsimp only
  rw [BitVec.toNat_setWidth, BitVec.toNat_shiftLeft, Nat.shiftLeft_eq, BitVec.toNat_sub, BitVec.toNat_add,
    BitVec.toNat_ofNat, BitVec.toNat_ofNat, BitVec.toNat_ofNat, BitVec.toNat_ofNat]
  omega

/-- The frame number is the address without its last twelve bits, sign included. -/
theorem toInt_tssFn (x : BitVec 32) : ((x.sshiftRight pageShift).signExtend 64).toInt = x.toInt / 4096 := by
  rw [BitVec.toInt_signExtend_of_le (by decide), BitVec.toInt_sshiftRight, Int.shiftRight_eq_div_pow]
  rfl

/-- **When the task state segment of real mode is placed right.**  In every machine that threads can have got into with at
least three pages in slot 0, the segment lies in its last three pages just if these end up below 2 GiB. -/
theorem rmodeTss_iff (s : KvmVcpu) (hrun : MemRun .opened m) (hkvm : s.kvm = m.kvm)
    (hn : 3 ≤ (m.kvm.memslots 0).npages) : TssPlaced s ↔ tssAddress s.kvm < 2 ^ 31 := by
  have hlayout : TssLayout s.kvm := hkvm ▸ tssLayout hrun hn
  have hlt := hlayout.tssGfn_lt
  have hbase := hlayout.rmodeTssBase_eq
  have haddr : tssAddress s.kvm = tssGfn s.kvm * 4096 := rfl
  constructor
  · rintro ⟨htr, s', hs', -⟩
    rw [trBase_enterRmode, hbase, ← BitVec.toInt_inj, BitVec.toInt_signExtend_of_le (by decide)] at htr
    by_contra hbig
    -- the base is right again at the top of the address space
    have hneg : (BitVec.ofNat 32 (tssAddress s.kvm)).toInt < 0 := by
      rw [BitVec.toInt_eq_toNat_cond, BitVec.toInt_eq_toNat_cond, BitVec.toNat_ofNat, BitVec.toNat_ofNat] at htr
      rw [BitVec.toInt_eq_toNat_cond, BitVec.toNat_ofNat]
      split at htr <;> split at htr <;> split <;> omega
    -- and the frame number is not
    have hfn : 2 ^ 52 ≤ (((rmodeTssBase s.kvm).sshiftRight pageShift).signExtend 64).toNat := by
      have hint := toInt_tssFn (rmodeTssBase s.kvm)
      have hle := BitVec.le_toInt (rmodeTssBase s.kvm)
      rw [hbase] at hint hle ⊢
      rw [BitVec.toInt_eq_toNat_cond] at hint
      split at hint <;> omega
    unfold initRmodeTss at hs'
    dsimp only at hs'
    rw [hlayout.gfnToPageOrNull_none hfn] at hs'
    cases hs'
  · intro hsmall
    have hint : (BitVec.ofNat 32 (tssAddress s.kvm)).toInt = tssAddress s.kvm := by
      rw [BitVec.toInt_eq_toNat_cond, BitVec.toNat_ofNat]
      split <;> omega
    refine ⟨?_, hlayout.initialised ?_⟩
    · rw [trBase_enterRmode, hbase, ← BitVec.toInt_inj, BitVec.toInt_signExtend_of_le (by decide), hint,
        BitVec.toInt_eq_toNat_cond, BitVec.toNat_ofNat]
      split <;> omega
    · rw [← BitVec.toInt_inj, toInt_tssFn, hbase, hint, BitVec.toInt_eq_toNat_cond, BitVec.toNat_ofNat]
      split <;> omega

/-! ### Three pages at an address -/

/-- Slot 0 with three pages at this address. -/
def threePages (addr : BitVec 64) : KvmMemoryRegion := { onePage with guestPhysAddr := addr, memorySize := 0x3000 }

theorem threePageAllocs_fresh : threePageAllocs.Fresh [] := by
  refine ⟨fun _ _ => List.not_mem_nil, fun b hb => ⟨List.not_mem_nil, ?_⟩, fun _ _ _ => List.not_mem_nil,
    consecutive_pages (fun _ => rfl) (by decide)⟩
  obtain rfl := Option.some.inj hb
  decide

/-- A machine in which a thread has created the slot. -/
theorem threePages_created {addr : BitVec 64} (hsane : (threePages addr).sanityChecks = some 0)
    (hcheck : checkRegion MemSystem.opened.kvm (threePages addr) 0 = none)
    (hok : (allocRegion threePageAllocs (newSlot (threePages addr) emptySlot)).ok = true) :
    ∃ m, MemRun .opened m ∧ m.kvm.memslots 0 = (allocRegion threePageAllocs (newSlot (threePages addr) emptySlot)).slot := by
  obtain ⟨m, hrun, -, hcommits, hkvm⟩ := call_commits (s := .opened) (t := 0) (fun c hc => by cases hc) hsane hcheck
    threePageAllocs_fresh hok rfl
  refine ⟨m, .of_threadSteps hrun (hcommits ▸ by decide), ?_⟩
  rw [hkvm]
  rfl

theorem rmodeTss_iff_zero : ∃ m, MemRun .opened m ∧ tssAddress m.kvm = 0 ∧
    (TssPlaced { (default : KvmVcpu) with kvm := m.kvm } ↔ tssAddress m.kvm < 2 ^ 31) := by
  obtain ⟨m, hrun, hslot⟩ := @threePages_created 0 rfl rfl rfl
  have haddr : tssAddress m.kvm = 0 := by
    unfold tssAddress tssGfn
    rw [hslot]
    rfl
  exact ⟨m, hrun, haddr, rmodeTss_iff _ hrun rfl (hslot ▸ by decide)⟩

/-- At 2 GiB the base of TR is extended by the sign. -/
theorem tss_at_two_gigabytes : ¬∀ (m : MemSystem) (s : KvmVcpu), MemRun .opened m → s.kvm = m.kvm →
    3 ≤ (m.kvm.memslots 0).npages → TssPlaced s := by
  intro h
  obtain ⟨m, hrun, hslot⟩ := @threePages_created 0x80000000 rfl rfl rfl
  have hplaced := h m { (default : KvmVcpu) with kvm := m.kvm } hrun rfl (hslot ▸ by decide)
  have hbase := hplaced.base
  rw [trBase_enterRmode] at hbase
  unfold rmodeTssBase tssAddress tssGfn at hbase
  dsimp only at hbase
  rw [hslot] at hbase
  exact absurd hbase (by decide)

end LearnKvm
