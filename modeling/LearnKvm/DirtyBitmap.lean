import LearnKvm.Lib.AccessLog
import LearnKvm.MemoryCalls

/-!
# The bounds of the dirty bitmap

The bitmap of a slot is allocated in longs (`dirtyBytes`), `mark_page_dirty` accesses it in longs, and KVM_GET_DIRTY_LOG
computes its size in bytes (`logSize`), which it copies and clears.  The loop that looks for a bit takes that number of
bytes for the number of longs, so it runs over the end unless it meets a bit first (`scanWords_inBounds`); sizes that do
not fit into an `int` or `unsigned` go wrong as well.

`markPageDirtyAccesses` and `getDirtyLogAccesses` are the functions with a record of the bytes of bitmaps they touch.  What
lies behind the bytes of a bitmap are more bits of `Kvm.bitmap`.
-/

namespace LearnKvm

open AccessLog (Traced)

/-! ### Sizes -/

/-- `ALIGN(x, a)`. -/
def align (x a : Nat) : Nat := (x + a - 1) / a * a

/-- The number of bytes that are allocated for the bitmap of a slot, an `unsigned`. -/
def dirtyBytes (npages : Nat) : Nat := align npages 64 / 8 % 2 ^ 32

/-- `n` in KVM_GET_DIRTY_LOG, an `int`. -/
def logSize (npages : Nat) : Int := (BitVec.ofNat 32 (align npages 8 / 8)).toInt

/-! ### The functions -/

/-- Bytes of the bitmap of a slot. -/
structure BitmapAccess where
  slot : Fin 4
  start : Nat
  size : Nat

/-- The access stays within so many bytes. -/
def BitmapAccess.InBounds (a : BitmapAccess) (bytes : Nat) : Prop := a.start + a.size ≤ bytes

abbrev BitmapOp (β : Type) := Traced Kvm BitmapAccess β

/-- `mark_page_dirty` on the slot of the frame: a bit is tested and set in its long. -/
def markSlotDirty (bits : Nat → Bool) (i : Fin 4) (memslot : KvmMemorySlot) (relGfn : Nat) : BitmapOp Unit :=
  if memslot.dirtyBitmap = 0 then pure ()
  else do
    Traced.touch ⟨i, relGfn / 64 * 8, 8⟩
    if bits relGfn then pure ()
    else
      Traced.touch ⟨i, relGfn / 64 * 8, 8⟩
      Traced.modify fun kvm => setBit kvm relGfn memslot.dirtyBitmap

def markPageDirtyAccesses (gfn : Nat) : BitmapOp Unit := do
  let kvm ← Traced.get
  match gfnToMemslot kvm gfn with
  | none => pure ()
  | some i =>
    markSlotDirty (kvm.bitmap (kvm.memslots i).dirtyBitmap) i (kvm.memslots i) (gfn - (kvm.memslots i).baseGfn)

/-- The loop `for (i = 0; !any && i < n; ++i) any = memslot->dirty_bitmap[i]`. -/
def scanWords (slot : Fin 4) (bits : Nat → Bool) : List Nat → BitmapOp Bool
  | [] => pure false
  | i :: rest => do
    Traced.touch ⟨slot, 8 * i, 8⟩
    if bitmapWord bits i then pure true else scanWords slot bits rest

/-- What `copy_to_user` does: the bytes that it reads, and whether it has copied them all. -/
structure CopyResult where
  read : Nat
  ok : Bool

/-- It reads no more than it has been asked for. -/
def CopyWithin (copyToUser : Int → CopyResult) : Prop := ∀ n : Nat, (copyToUser n).read ≤ n

/-- The copy and, if a bit has been found, `memset`; `n` is positive then. -/
def copyDirtyLog (copyToUser : Int → CopyResult) (i : Fin 4) (memslot : KvmMemorySlot) (any : Bool) : BitmapOp Int := do
  let n := logSize memslot.npages
  Traced.touch ⟨i, 0, (copyToUser n).read⟩
  if !(copyToUser n).ok then pure (-efault)
  else if any then
    Traced.touch ⟨i, 0, n.toNat⟩
    Traced.modify fun kvm => clearBitmap kvm memslot n.toNat
    pure 0
  else pure 0

def readSlotLog (copyToUser : Int → CopyResult) (bits : Nat → Bool) (i : Fin 4) (memslot : KvmMemorySlot) : BitmapOp Int :=
  if memslot.dirtyBitmap = 0 then pure (-enoent)
  else do
    let any ← scanWords i bits (List.range (logSize memslot.npages).toNat)
    copyDirtyLog copyToUser i memslot any

theorem slot_lt {slot : BitVec 32} (h : ¬kvmMemorySlots ≤ slot.toNat) : slot.toNat < 4 := Nat.lt_of_not_le h

/-- KVM_GET_DIRTY_LOG between `++kvm->busy` and `--kvm->busy`. -/
def readDirtyLog (copyToUser : Int → CopyResult) (slot : BitVec 32) : BitmapOp Int :=
  if h : kvmMemorySlots ≤ slot.toNat then pure (-einval)
  else do
    let i : Fin 4 := ⟨slot.toNat, slot_lt h⟩
    let kvm ← Traced.get
    readSlotLog copyToUser (kvm.bitmap (kvm.memslots i).dirtyBitmap) i (kvm.memslots i)

def getDirtyLogAccesses (copyToUser : Int → CopyResult) (slot : BitVec 32) : BitmapOp Int := do
  Traced.modify fun kvm => { kvm with busy := kvm.busy + 1#32 }
  let r ← readDirtyLog copyToUser slot
  Traced.modify fun kvm => { kvm with busy := kvm.busy - 1#32 }
  pure r

variable {kvm : Kvm} {i : Fin 4} {copyToUser : Int → CopyResult} {npages : Nat} {bits : Nat → Bool}

/-- Without the record this is `mark_page_dirty`. -/
theorem markPageDirtyAccesses_state (kvm : Kvm) (gfn : Nat) :
    ((markPageDirtyAccesses gfn).run kvm).state = markPageDirty kvm gfn := by
  unfold markPageDirtyAccesses markPageDirty
  simp only [Traced.bind_run, Traced.get_run]
  cases gfnToMemslot kvm gfn with
  | none => rfl
  | some i =>
    unfold markSlotDirty
    dsimp only
    split
    · rfl
    · simp only [Traced.bind_run, Traced.touch_run]
      split <;> rfl

theorem scanWords_value (slot : Fin 4) (bits : Nat → Bool) (l : List Nat) (kvm : Kvm) :
    ((scanWords slot bits l).run kvm).value = l.any (bitmapWord bits) ∧ ((scanWords slot bits l).run kvm).state = kvm := by
  induction l with
  | nil => exact ⟨rfl, rfl⟩
  | cons i l ih =>
    unfold scanWords
    simp only [Traced.bind_run, Traced.touch_run, List.any_cons]
    cases bitmapWord bits i with
    | true => exact ⟨rfl, rfl⟩
    | false => exact ih

/-- The loop stays within `w` longs if it makes no more rounds, or meets a bit there. -/
theorem scanWords_inBounds (slot : Fin 4) (bits : Nat → Bool) (kvm : Kvm) {w k : Nat} (hk : k ≤ w) (m : Nat) :
    (∀ a ∈ ((scanWords slot bits (List.range' k m)).run kvm).log, a.InBounds (8 * w)) ↔
      k + m ≤ w ∨ ∃ j, k ≤ j ∧ j < w ∧ bitmapWord bits j = true := by
  induction m generalizing k with
  | zero => exact iff_of_true (fun a ha => nomatch ha) (Or.inl hk)
  | succ m ih =>
    rw [List.range'_succ]
    unfold scanWords
    simp only [Traced.bind_run, Traced.touch_run, List.singleton_append, List.forall_mem_cons]
    have hfirst : (BitmapAccess.mk slot (8 * k) 8).InBounds (8 * w) ↔ k < w := by
      unfold BitmapAccess.InBounds
      dsimp only
      omega
    rw [hfirst]
    by_cases hw : k < w
    · rw [and_iff_right hw]
      cases hword : bitmapWord bits k with
      | true => exact iff_of_true (fun a ha => nomatch ha) (Or.inr ⟨k, le_rfl, hw, hword⟩)
      | false =>
        simp only [Bool.false_eq_true, if_false]
        rw [ih hw]
        refine or_congr (by omega) ⟨fun ⟨j, hj, h⟩ => ⟨j, by omega, h⟩, fun ⟨j, hj, hjw, h⟩ => ⟨j, ?_, hjw, h⟩⟩
        have : j ≠ k := by
          rintro rfl
          rw [hword] at h
          cases h
        omega
    · refine iff_of_false (fun h => hw h.1) ?_
      rintro (h | ⟨j, hj, hjw, -⟩) <;> omega

theorem bitmapWord_iff (bits : Nat → Bool) (w : Nat) :
    (∃ j, j < w ∧ bitmapWord bits j = true) ↔ ∃ nr, nr < 64 * w ∧ bits nr = true := by
  unfold bitmapWord
  simp only [List.any_eq_true, List.mem_range]
  constructor
  · rintro ⟨j, hj, k, hk, h⟩
    exact ⟨64 * j + k, by omega, h⟩
  · rintro ⟨nr, hnr, h⟩
    refine ⟨nr / 64, by omega, nr % 64, by omega, ?_⟩
    rwa [Nat.div_add_mod]

/-! ### The sizes agree -/

theorem dirtyBytes_of_le (h : npages ≤ 2 ^ 35 - 64) : dirtyBytes npages = 8 * ((npages + 63) / 64) := by
  unfold dirtyBytes align
  omega

/-- The `unsigned` wraps around. -/
theorem dirtyBytes_of_gt (h : 2 ^ 35 - 64 < npages) : dirtyBytes npages < (npages - 1) / 64 * 8 + 8 := by
  unfold dirtyBytes
  have := Nat.mod_lt (align npages 64 / 8) (Nat.two_pow_pos 32)
  omega

theorem logSize_of_le (h : npages ≤ 2 ^ 34 - 8) : logSize npages = ((npages + 7) / 8 : Nat) := by
  unfold logSize align
  rw [BitVec.toInt_eq_toNat_cond, BitVec.toNat_ofNat]
  split <;> omega

/-- The `int` is negative. -/
theorem logSize_of_gt (h : 2 ^ 34 - 8 < npages) (h' : npages ≤ 2 ^ 35 - 64) : logSize npages < 0 := by
  unfold logSize align
  rw [BitVec.toInt_eq_toNat_cond, BitVec.toNat_ofNat]
  split <;> omega

/-! ### What a call does -/

theorem mem_markPageDirtyAccesses {kvm : Kvm} {gfn : Nat} {a : BitmapAccess}
    (ha : a ∈ ((markPageDirtyAccesses gfn).run kvm).log) :
    ∃ i, gfnToMemslot kvm gfn = some i ∧ a = ⟨i, (gfn - (kvm.memslots i).baseGfn) / 64 * 8, 8⟩ := by
  unfold markPageDirtyAccesses at ha
  simp only [Traced.bind_run, Traced.get_run, List.nil_append] at ha
  cases hslot : gfnToMemslot kvm gfn with
  | none =>
    rw [hslot] at ha
    exact nomatch ha
  | some i =>
    rw [hslot] at ha
    refine ⟨i, rfl, ?_⟩
    unfold markSlotDirty at ha
    dsimp only at ha
    split at ha
    · exact nomatch ha
    · simp only [Traced.bind_run, Traced.touch_run, List.singleton_append, List.mem_cons] at ha
      rcases ha with ha | ha
      · exact ha
      · split at ha
        · exact nomatch ha
        · simpa using ha

theorem markPageDirtyAccesses_mem {kvm : Kvm} {gfn : Nat} {i : Fin 4} (hslot : gfnToMemslot kvm gfn = some i)
    (hb : (kvm.memslots i).dirtyBitmap ≠ 0) :
    ⟨i, (gfn - (kvm.memslots i).baseGfn) / 64 * 8, 8⟩ ∈ ((markPageDirtyAccesses gfn).run kvm).log := by
  unfold markPageDirtyAccesses
  simp only [Traced.bind_run, Traced.get_run, List.nil_append]
  rw [hslot]
  unfold markSlotDirty
  dsimp only
  rw [if_neg hb]
  exact List.mem_cons_self

/-- Marking pages of a slot stays in its bitmap unless the size of the bitmap has wrapped around. -/
theorem mark_inBounds (hslots : SlotsDisjoint kvm.memslots)
    (hn : ∀ i : Fin 4, 0 < (kvm.memslots i).npages → i.val < kvm.nmemslots) (hb : (kvm.memslots i).dirtyBitmap ≠ 0) :
    (∀ gfn, ∀ a ∈ ((markPageDirtyAccesses gfn).run kvm).log, a.slot = i →
      a.InBounds (dirtyBytes (kvm.memslots i).npages)) ↔ (kvm.memslots i).npages ≤ 2 ^ 35 - 64 := by
  constructor
  · intro h
    by_contra hgt
    -- the last page of the slot
    generalize hgfn : (kvm.memslots i).baseGfn + (kvm.memslots i).npages - 1 = gfn
    have hcontains : (kvm.memslots i).contains gfn = true := by
      unfold KvmMemorySlot.contains
      simp only [Bool.and_eq_true, decide_eq_true_eq]
      omega
    have hslot := (gfnToMemslot_iff hslots hn gfn i).2 hcontains
    have hin := h gfn _ (markPageDirtyAccesses_mem hslot hb) rfl
    unfold BitmapAccess.InBounds at hin
    have hlast : gfn - (kvm.memslots i).baseGfn = (kvm.memslots i).npages - 1 := by omega
    rw [hlast] at hin
    have := dirtyBytes_of_gt (Nat.lt_of_not_le hgt)
    dsimp only at hin
    omega
  · intro hle gfn a ha hai
    obtain ⟨j, hslot, rfl⟩ := mem_markPageDirtyAccesses ha
    obtain rfl : j = i := hai
    have hcontains := (gfnToMemslot_iff hslots hn gfn j).1 hslot
    unfold KvmMemorySlot.contains at hcontains
    simp only [Bool.and_eq_true, decide_eq_true_eq] at hcontains
    unfold BitmapAccess.InBounds
    rw [dirtyBytes_of_le hle]
    dsimp only
    omega

/-- The accesses of KVM_GET_DIRTY_LOG, its result and the bitmap that it leaves. -/
theorem getDirtyLogAccesses_run (copyToUser : Int → CopyResult) (hb : (kvm.memslots i).dirtyBitmap ≠ 0) {n : Int} {any : Bool}
    (hn : n = logSize (kvm.memslots i).npages)
    (hany : any = (List.range n.toNat).any (bitmapWord (kvm.bitmap (kvm.memslots i).dirtyBitmap))) :
    let out := (getDirtyLogAccesses copyToUser (BitVec.ofNat 32 i.val)).run kvm
    out.log = ((scanWords i (kvm.bitmap (kvm.memslots i).dirtyBitmap) (List.range n.toNat)).run
        { kvm with busy := kvm.busy + 1#32 }).log ++
      ⟨i, 0, (copyToUser n).read⟩ :: (if (copyToUser n).ok && any then [⟨i, 0, n.toNat⟩] else []) ∧
    out.value = (if (copyToUser n).ok then 0 else -efault) ∧
    out.state.bitmap = if (copyToUser n).ok && any then (clearBitmap kvm (kvm.memslots i) n.toNat).bitmap else kvm.bitmap := by
  have hi : ¬kvmMemorySlots ≤ (BitVec.ofNat 32 i.val).toNat := by
    rw [BitVec.toNat_ofNat]
    have := i.isLt
    unfold kvmMemorySlots
    omega
  have hslot : (⟨(BitVec.ofNat 32 i.val).toNat, slot_lt hi⟩ : Fin 4) = i := by
    apply Fin.ext
    show (BitVec.ofNat 32 i.val).toNat = i.val
    rw [BitVec.toNat_ofNat]
    have := i.isLt
    omega
  unfold getDirtyLogAccesses readDirtyLog
  rw [dif_neg hi]
  dsimp only
  rw [hslot]
  simp only [Traced.bind_run, Traced.modify_run, Traced.get_run, Traced.pure_run, List.nil_append, List.append_nil]
  unfold readSlotLog
  rw [if_neg hb]
  simp only [Traced.bind_run]
  rw [(scanWords_value i _ _ _).1, (scanWords_value i _ _ _).2, ← hn, ← hany]
  unfold copyDirtyLog
  simp only [Traced.bind_run, Traced.touch_run]
  rw [← hn]
  cases (copyToUser n).ok with
  | false => exact ⟨rfl, rfl, rfl⟩
  | true =>
    cases any with
    | false => exact ⟨rfl, rfl, rfl⟩
    | true => exact ⟨rfl, rfl, rfl⟩

/-! ### When the bounds are kept -/

/-- What is asked of the bitmap of the slot: pages of the slot are marked in it, the call stays in it, its loop finds a bit
if there is one, and after a call that succeeds there is none. -/
structure DirtyBitmapKept (kvm : Kvm) (copyToUser : Int → CopyResult) (i : Fin 4) : Prop where
  mark : ∀ gfn, ∀ a ∈ ((markPageDirtyAccesses gfn).run kvm).log, a.slot = i →
    a.InBounds (dirtyBytes (kvm.memslots i).npages)
  log : ∀ a ∈ ((getDirtyLogAccesses copyToUser (BitVec.ofNat 32 i.val)).run kvm).log,
    a.InBounds (dirtyBytes (kvm.memslots i).npages)
  scan : (∃ nr < (kvm.memslots i).npages, kvm.bitmap (kvm.memslots i).dirtyBitmap nr = true) →
    scanBitmap kvm (kvm.memslots i) (logSize (kvm.memslots i).npages).toNat = true
  clear : ((getDirtyLogAccesses copyToUser (BitVec.ofNat 32 i.val)).run kvm).value = 0 →
    (∃ nr < (kvm.memslots i).npages, kvm.bitmap (kvm.memslots i).dirtyBitmap nr = true) → ∀ nr < (kvm.memslots i).npages,
      ((getDirtyLogAccesses copyToUser (BitVec.ofNat 32 i.val)).run kvm).state.bitmap (kvm.memslots i).dirtyBitmap nr = false

/-- The slot has at most eight pages, or a bit of its bitmap is set; or its `n` is negative, no bit is set, and
`copy_to_user` fails before the end of the bitmap. -/
def ScanEnds (npages : Nat) (bits : Nat → Bool) (copyToUser : Int → CopyResult) : Prop :=
  npages ≤ 2 ^ 34 - 8 ∧ (npages ≤ 8 ∨ ∃ nr < 8 * dirtyBytes npages, bits nr = true) ∨
    2 ^ 34 - 8 < npages ∧ npages ≤ 2 ^ 35 - 64 ∧ (∀ nr < npages, bits nr = false) ∧
      (copyToUser (logSize npages)).read ≤ dirtyBytes npages

/-- A set bit is in a word that is not zero. -/
theorem any_bitmapWord {n nr : Nat} (hnr : nr < 64 * n) (h : bits nr = true) : (List.range n).any (bitmapWord bits) = true := by
  obtain ⟨j, hj, hword⟩ := (bitmapWord_iff bits n).2 ⟨nr, hnr, h⟩
  exact List.any_eq_true.2 ⟨j, List.mem_range.2 hj, hword⟩

section Kept

variable (hbits : kvm.bitmap (kvm.memslots i).dirtyBitmap = bits) (hnpages : (kvm.memslots i).npages = npages)
  (hb : (kvm.memslots i).dirtyBitmap ≠ 0)
  (hmark : ∀ gfn, ∀ a ∈ ((markPageDirtyAccesses gfn).run kvm).log, a.slot = i →
    a.InBounds (dirtyBytes (kvm.memslots i).npages))

include hbits hnpages hb hmark

/-- When the sizes fit, only the loop can leave the bitmap. -/
theorem bitmapKept_of_le (hle : npages ≤ 2 ^ 34 - 8) (hcopy : CopyWithin copyToUser) :
    DirtyBitmapKept kvm copyToUser i ↔ npages ≤ 8 ∨ ∃ nr < 8 * dirtyBytes npages, bits nr = true := by
  obtain ⟨hlog, hvalue, hstate⟩ := getDirtyLogAccesses_run copyToUser hb rfl rfl
  rw [hnpages, logSize_of_le hle, Int.toNat_natCast, hbits] at hlog hstate
  rw [hnpages, logSize_of_le hle] at hvalue
  have hscan := fun kvm' => scanWords_inBounds i bits kvm' (Nat.zero_le ((npages + 63) / 64)) ((npages + 7) / 8)
  rw [← List.range_eq_range'] at hscan
  have hbytes := dirtyBytes_of_le (show npages ≤ 2 ^ 35 - 64 by omega)
  have hread := hcopy ((npages + 7) / 8)
  have hcond : (npages ≤ 8 ∨ ∃ nr < 8 * dirtyBytes npages, bits nr = true) ↔
      (0 + (npages + 7) / 8 ≤ (npages + 63) / 64 ∨
        ∃ j, 0 ≤ j ∧ j < (npages + 63) / 64 ∧ bitmapWord bits j = true) := by
    rw [hbytes, ← Nat.mul_assoc]
    refine or_congr (by omega) ?_
    rw [← bitmapWord_iff]
    simp
  rw [hcond, ← hscan { kvm with busy := kvm.busy + 1#32 }, ← hbytes]
  constructor
  · intro h a ha
    refine hnpages ▸ h.log a ?_
    rw [hlog]
    exact List.mem_append_left _ ha
  · intro h
    refine ⟨hmark, fun a ha => ?_, ?_, ?_⟩ <;> rw [hnpages]
    · rw [hlog, List.mem_append, List.mem_cons] at ha
      rcases ha with ha | rfl | ha
      · exact h a ha
      · unfold BitmapAccess.InBounds
        dsimp only
        omega
      · split at ha
        · obtain rfl := List.mem_singleton.1 ha
          unfold BitmapAccess.InBounds
          dsimp only
          omega
        · exact nomatch ha
    · rintro ⟨nr, hnr, hbit⟩
      unfold scanBitmap
      rw [logSize_of_le hle, Int.toNat_natCast, hbits]
      exact any_bitmapWord (by omega) (hbits ▸ hbit)
    · rintro hzero ⟨nr, hnr, hbit⟩ nr' hnr'
      have hok : (copyToUser ((npages + 7) / 8 : Nat)).ok = true := by
        by_contra hno
        rw [hvalue, if_neg hno] at hzero
        exact absurd hzero (by decide)
      have hany : (List.range ((npages + 7) / 8)).any (bitmapWord bits) = true := any_bitmapWord (by omega) (hbits ▸ hbit)
      rw [hstate, hok, hany, Bool.and_true, if_pos rfl]
      exact if_pos ⟨rfl, by omega⟩

/-- When `n` is negative the loop looks at nothing. -/
theorem bitmapKept_of_gt (hgt : 2 ^ 34 - 8 < npages) (hle : npages ≤ 2 ^ 35 - 64) :
    DirtyBitmapKept kvm copyToUser i ↔
      (∀ nr < npages, bits nr = false) ∧ (copyToUser (logSize npages)).read ≤ dirtyBytes npages := by
  obtain ⟨hlog, hvalue, hstate⟩ := getDirtyLogAccesses_run copyToUser hb rfl rfl
  have hzero : (logSize npages).toNat = 0 := Int.toNat_of_nonpos (le_of_lt (logSize_of_gt hgt hle))
  rw [hnpages, hzero] at hlog
  have hread : (BitmapAccess.mk i 0 (copyToUser (logSize npages)).read).InBounds (dirtyBytes npages) ↔
      (copyToUser (logSize npages)).read ≤ dirtyBytes npages := by
    unfold BitmapAccess.InBounds
    rw [Nat.zero_add]
  have hlog' : ((getDirtyLogAccesses copyToUser (BitVec.ofNat 32 i.val)).run kvm).log =
      [⟨i, 0, (copyToUser (logSize npages)).read⟩] := by
    rw [hlog]
    simp [scanWords]
  have hscan : scanBitmap kvm (kvm.memslots i) (logSize npages).toNat = false := by
    rw [hzero]
    rfl
  rw [← hread]
  constructor
  · intro h
    refine ⟨fun nr hnr => ?_, ?_⟩
    · by_contra hbit
      rw [Bool.not_eq_false] at hbit
      have := h.scan ⟨nr, hnpages ▸ hnr, hbits ▸ hbit⟩
      rw [hnpages, hscan] at this
      cases this
    · have := h.log _ (hlog' ▸ List.mem_singleton_self _)
      rwa [hnpages] at this
  · rintro ⟨hno, hin⟩
    have hempty : ¬∃ nr < npages, kvm.bitmap (kvm.memslots i).dirtyBitmap nr = true := by
      rintro ⟨nr, hnr, hbit⟩
      rw [hbits, hno nr hnr] at hbit
      cases hbit
    refine ⟨hmark, fun a ha => ?_, ?_, ?_⟩ <;> rw [hnpages]
    · rw [hlog'] at ha
      obtain rfl := List.mem_singleton.1 ha
      exact hin
    · exact fun h => absurd h hempty
    · exact fun _ h => absurd h hempty

end Kept

/-- **The bounds of the dirty bitmap.**  They are kept just if the loop that looks for a set bit ends before the bitmap
does, which is so for at most eight pages and for bitmaps that are not empty. -/
theorem bitmapKept_iff {s : MemSystem} (h : MemRun .opened s) (hb : (s.kvm.memslots i).dirtyBitmap ≠ 0)
    (hcopy : CopyWithin copyToUser) :
    DirtyBitmapKept s.kvm copyToUser i ↔
      ScanEnds (s.kvm.memslots i).npages (s.kvm.bitmap (s.kvm.memslots i).dirtyBitmap) copyToUser := by
  obtain ⟨-, hslots, hnmemslots, -⟩ := memInv_opened.run h
  have hmark := mark_inBounds hslots hnmemslots hb
  unfold ScanEnds
  by_cases h35 : (s.kvm.memslots i).npages ≤ 2 ^ 35 - 64
  · by_cases h34 : (s.kvm.memslots i).npages ≤ 2 ^ 34 - 8
    · rw [bitmapKept_of_le rfl rfl hb (hmark.2 h35) h34 hcopy]
      simp only [h34, true_and, Nat.not_lt.2 h34, false_and, or_false]
    · rw [bitmapKept_of_gt rfl rfl hb (hmark.2 h35) (Nat.lt_of_not_le h34) h35]
      simp only [h34, false_and, false_or, Nat.lt_of_not_le h34, h35, true_and]
  · refine iff_of_false (fun hkept => h35 (hmark.1 hkept.mark)) ?_
    rintro (⟨h34, -⟩ | ⟨-, hle, -⟩) <;> omega

/-! ### An empty bitmap of nine pages -/

def ninePages : KvmMemoryRegion := { onePage with flags := 1, memorySize := 0x9000 }

def ninePageAllocs : RegionAllocs where
  array := some 1
  page := fun i => if i < 9 then some (BitVec.ofNat 40 (i + 1000)) else none
  bitmap := some 2
  array_ne := onePageAllocs.array_ne
  bitmap_ne := bitmapAddress_ne

theorem ninePageAllocs_fresh : ninePageAllocs.Fresh [] := by
  refine ⟨fun _ _ => List.not_mem_nil, fun b hb => ⟨List.not_mem_nil, ?_⟩, fun _ _ _ => List.not_mem_nil,
    consecutive_pages (fun _ => rfl) (by decide)⟩
  obtain rfl := Option.some.inj hb
  decide

/-- A thread creates the slot. -/
theorem ninePages_created : ∃ s, MemRun .opened s ∧ (s.kvm.memslots 0).npages = 9 ∧ (s.kvm.memslots 0).dirtyBitmap = 2 ∧
    s.kvm.bitmap 2 = fun _ => false := by
  obtain ⟨s, hrun, -, hcommits, hkvm⟩ := call_commits (s := .opened) (t := 0) (fun c hc => by cases hc)
    (show ninePages.sanityChecks = some 0 from rfl) rfl ninePageAllocs_fresh rfl rfl
  refine ⟨s, .of_threadSteps hrun (by rw [hcommits]; decide), ?_, ?_, ?_⟩ <;> rw [hkvm] <;> rfl

/-- Everything is copied. -/
def copyAll (n : Int) : CopyResult := { read := n.toNat, ok := true }

theorem copyAll_within : CopyWithin copyAll := fun n => le_of_eq (Int.toNat_natCast n)

theorem bitmapKept_iff_ninePages : ∃ s, MemRun .opened s ∧ (DirtyBitmapKept s.kvm copyAll 0 ↔
    ScanEnds (s.kvm.memslots 0).npages (s.kvm.bitmap (s.kvm.memslots 0).dirtyBitmap) copyAll) := by
  obtain ⟨s, hrun, -, hbitmap, -⟩ := ninePages_created
  exact ⟨s, hrun, bitmapKept_iff hrun (by rw [hbitmap]; decide) copyAll_within⟩

/-- The loop reads a second long where one has been allocated. -/
theorem scan_overruns : ¬∀ (s : MemSystem) (i : Fin 4) (copyToUser : Int → CopyResult), MemRun .opened s →
    (s.kvm.memslots i).dirtyBitmap ≠ 0 → CopyWithin copyToUser → DirtyBitmapKept s.kvm copyToUser i := by
  intro h
  obtain ⟨s, hrun, hnpages, hbitmap, hbits⟩ := ninePages_created
  have hkept := h s 0 copyAll hrun (by rw [hbitmap]; decide) copyAll_within
  rcases (bitmapKept_of_le (hbitmap ▸ hbits) hnpages (by rw [hbitmap]; decide) hkept.mark (by decide) copyAll_within).1 hkept
    with h9 | ⟨nr, -, hbit⟩
  · exact absurd h9 (by decide)
  · cases hbit

end LearnKvm
