import Mathlib.Data.Set.Insert
import Mathlib.Order.Bounds.Defs
import LearnKvm.Lib.Bits

/-!
# Two-level bit sets

A set of numbers below `n * w` is kept in `n` words of `w` bits, with a summary word of `w` bits: bit `k` of the summary
says that word `k` is not zero (`TwoLevelSet.Summarised`).  The smallest element is found with two searches for the
lowest set bit, in the summary and in the word that it names (`TwoLevelSet.first_isLeast`).
-/

namespace TwoLevelSet

variable {w n : Nat}

/-! ### The lowest set bit -/

/-- The number of the lowest set bit; there is none in 0. -/
def ffs (x : BitVec w) : Option Nat := (List.range w).find? fun i => x.hasBit i

theorem ffs_eq_none_iff {x : BitVec w} : ffs x = none ↔ x = 0#w := by
  unfold ffs
  rw [List.find?_eq_none]
  constructor
  · intro h
    apply BitVec.eq_of_hasBit
    intro i hi
    simpa using h i (List.mem_range.2 hi)
  · intro h i _
    simp [h]

theorem exists_ffs {x : BitVec w} (h : x ≠ 0#w) : ∃ i, ffs x = some i := by
  cases hx : ffs x with
  | none => exact absurd (ffs_eq_none_iff.1 hx) h
  | some i => exact ⟨i, rfl⟩

/-- The bit that is found is set, and no bit below it. -/
theorem ffs_spec {x : BitVec w} {i : Nat} (h : ffs x = some i) :
    i < w ∧ x.hasBit i = true ∧ ∀ j < i, x.hasBit j = false := by
  unfold ffs at h
  obtain ⟨hi, hbelow⟩ := List.find?_range_eq_some.1 h
  refine ⟨List.mem_range.1 hbelow.1, hi, fun j hj => ?_⟩
  have := hbelow.2 j hj
  simpa using this

/-! ### Sets of numbers -/

structure TwoLevel (w : Nat) where
  summary : BitVec w
  words : Nat → BitVec w

namespace TwoLevel

variable {s : TwoLevel w} {i j k : Nat}

/-- A number is given by its word and its bit. -/
theorem div_eq_and_mod_eq_iff {b : Nat} (hb : b < w) : j / w = k ∧ j % w = b ↔ j = k * w + b := by
  constructor
  · rintro ⟨rfl, rfl⟩
    exact (Nat.div_add_mod' j w).symm
  · rintro rfl
    rw [Nat.add_comm, Nat.add_mul_div_right _ _ (by omega), Nat.add_mul_mod_self_right, Nat.div_eq_of_lt hb,
      Nat.mod_eq_of_lt hb, Nat.zero_add]
    exact ⟨rfl, rfl⟩

/-- The numbers below `n * w` whose bit is set. -/
def toSet (n : Nat) (s : TwoLevel w) : Set Nat := {i | i < n * w ∧ (s.words (i / w)).hasBit (i % w) = true}

/-- Each bit of the summary stands for a word that is not zero. -/
def Summarised (n : Nat) (s : TwoLevel w) : Prop := ∀ k, s.summary.hasBit k = true ↔ k < n ∧ s.words k ≠ 0#w

def insert (s : TwoLevel w) (i : Nat) : TwoLevel w where
  summary := s.summary ||| 1#w <<< (i / w)
  words := Function.update s.words (i / w) (s.words (i / w) ||| 1#w <<< (i % w))

/-- Clear bit `b` of word `k`, and the bit of the summary when the word becomes zero. -/
def remove (s : TwoLevel w) (k b : Nat) : TwoLevel w :=
  let word := s.words k &&& ~~~(1#w <<< b)
  { summary := if word = 0#w then s.summary &&& ~~~(1#w <<< k) else s.summary
    words := Function.update s.words k word }

theorem summarised_empty : Summarised n ⟨0#w, fun _ => 0#w⟩ := by
  intro k
  simp

theorem toSet_empty : toSet n ⟨0#w, fun _ => 0#w⟩ = ∅ := by
  ext i
  simp [toSet]

theorem hasBit_insert (hw : 0 < w) (k b : Nat) :
    ((s.insert i).words k).hasBit b = ((s.words k).hasBit b || decide (k = i / w ∧ b = i % w)) := by
  have hlt : i % w < w := Nat.mod_lt i hw
  unfold insert
  by_cases hk : k = i / w
  · subst hk
    simp [Bits.hasBit_one_shiftLeft hlt]
  · simp [hk]

theorem toSet_insert (hi : i < n * w) : (s.insert i).toSet n = Set.insert i (s.toSet n) := by
  have hw : 0 < w := Nat.pos_of_ne_zero fun h => by simp [h] at hi
  ext j
  show (j < n * w ∧ _) ↔ j = i ∨ (j < n * w ∧ _)
  rw [hasBit_insert hw]
  simp only [div_eq_and_mod_eq_iff (Nat.mod_lt i hw), Nat.div_add_mod', Bool.or_eq_true, decide_eq_true_eq]
  constructor
  · rintro ⟨hj, hbit | rfl⟩
    · exact Or.inr ⟨hj, hbit⟩
    · exact Or.inl rfl
  · rintro (rfl | ⟨hj, hbit⟩)
    · exact ⟨hi, Or.inr rfl⟩
    · exact ⟨hj, Or.inl hbit⟩

theorem Summarised.insert (h : Summarised n s) (hn : n ≤ w) (hi : i < n * w) : Summarised n (s.insert i) := by
  have hw : 0 < w := Nat.pos_of_ne_zero fun h => by simp [h] at hi
  have hword : i / w < n := Nat.div_lt_of_lt_mul (by rwa [Nat.mul_comm])
  intro k
  have hsummary : (s.insert i).summary.hasBit k = (s.summary.hasBit k || decide (k = i / w)) := by
    unfold TwoLevel.insert
    simp [Bits.hasBit_one_shiftLeft (by omega : i / w < w)]
  rw [hsummary]
  by_cases hk : k = i / w
  · have hset : ((s.insert i).words k).hasBit (i % w) = true := by simp [hasBit_insert hw, hk]
    have hne := BitVec.ne_zero_of_hasBit hset
    simp [hk] at hne ⊢
    exact ⟨hword, hne⟩
  · have hsame : (s.insert i).words k = s.words k := Function.update_of_ne hk ..
    rw [hsame]
    simpa [hk] using h k

theorem hasBit_remove {b : Nat} (hb : b < w) (j c : Nat) :
    ((s.remove k b).words j).hasBit c = ((s.words j).hasBit c && !decide (j = k ∧ c = b)) := by
  unfold remove
  by_cases hj : j = k
  · subst hj
    by_cases hc : c < w
    · simp [Bits.hasBit_one_shiftLeft hb, hc]
    · simp [BitVec.hasBit_of_ge (s.words j) (Nat.le_of_not_lt hc)]
  · simp [hj]

theorem toSet_remove {b : Nat} (hb : b < w) : (s.remove k b).toSet n = s.toSet n \ {k * w + b} := by
  ext j
  show (j < n * w ∧ _) ↔ (j < n * w ∧ _) ∧ j ≠ k * w + b
  rw [hasBit_remove hb]
  simp only [div_eq_and_mod_eq_iff hb, Bool.and_eq_true, Bool.not_eq_true', decide_eq_false_iff_not]
  exact and_assoc.symm

theorem Summarised.remove {b : Nat} (h : Summarised n s) (hn : n ≤ w) (hk : k < n) : Summarised n (s.remove k b) := by
  intro j
  by_cases hj : j = k
  · subst hj
    have hword : (s.remove j b).words j = s.words j &&& ~~~(1#w <<< b) := Function.update_self ..
    rw [hword]
    unfold TwoLevel.remove
    by_cases hzero : s.words j &&& ~~~(1#w <<< b) = 0#w
    · simp [hzero, Bits.hasBit_one_shiftLeft (by omega : j < w)]
    · have hne : s.words j ≠ 0#w := by
        intro h0
        simp [h0] at hzero
      simpa [hzero, hk] using (h j).2 ⟨hk, hne⟩
  · have hsame : (s.remove k b).words j = s.words j := Function.update_of_ne hj ..
    have hsummary : (s.remove k b).summary.hasBit j = s.summary.hasBit j := by
      unfold TwoLevel.remove
      dsimp only
      split
      · rw [BitVec.hasBit_and, BitVec.hasBit_not, Bits.hasBit_one_shiftLeft (by omega : k < w)]
        by_cases hjw : j < w
        · simp [hj, hjw]
        · simp [BitVec.hasBit_of_ge s.summary (Nat.le_of_not_lt hjw)]
      · rfl
    rw [hsame, hsummary]
    exact h j

/-- **The two searches find the smallest element.** -/
theorem Summarised.first_isLeast (h : Summarised n s) (hne : s.summary ≠ 0#w) :
    ∃ k b, ffs s.summary = some k ∧ k < n ∧ s.words k ≠ 0#w ∧ ffs (s.words k) = some b ∧ b < w ∧
      IsLeast (s.toSet n) (k * w + b) := by
  obtain ⟨k, hk⟩ := exists_ffs hne
  obtain ⟨-, hkbit, hkleast⟩ := ffs_spec hk
  obtain ⟨hkn, hword⟩ := (h k).1 hkbit
  obtain ⟨b, hb⟩ := exists_ffs hword
  obtain ⟨hbw, hbbit, hbleast⟩ := ffs_spec hb
  refine ⟨k, b, hk, hkn, hword, hb, hbw, ⟨?_, ?_⟩, ?_⟩
  · calc k * w + b < k * w + w := by omega
      _ = (k + 1) * w := by rw [Nat.add_mul, Nat.one_mul]
      _ ≤ n * w := Nat.mul_le_mul_right w hkn
  · obtain ⟨hdiv, hmod⟩ := (div_eq_and_mod_eq_iff hbw).2 (Eq.refl (k * w + b))
    rw [hdiv, hmod]
    exact hbbit
  · rintro j ⟨hj, hjbit⟩
    have hjword : j / w < n := Nat.div_lt_of_lt_mul (by rwa [Nat.mul_comm])
    have hle : k ≤ j / w := by
      by_contra hlt
      have hsum := (h (j / w)).2 ⟨hjword, BitVec.ne_zero_of_hasBit hjbit⟩
      rw [hkleast _ (by omega)] at hsum
      cases hsum
    have hdiv := Nat.div_add_mod' j w
    rcases Nat.eq_or_lt_of_le hle with heq | hlt
    · have hble : b ≤ j % w := by
        by_contra hlt
        rw [← heq, hbleast _ (by omega)] at hjbit
        cases hjbit
      rw [heq]
      omega
    · have hmul : (k + 1) * w ≤ j / w * w := Nat.mul_le_mul_right w hlt
      rw [Nat.add_mul] at hmul
      omega

end TwoLevel

end TwoLevelSet
