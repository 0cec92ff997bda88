import LearnKvm.Lib.Bits

/-!
# Fields packed in a word

Several fields share a word, each at a place of its own.  If the values fit in their places, shifting them there and
joining them loses nothing: each can be taken out again (`pack_ushiftRight_and`), and the word is zero outside one field
just if the other values are (`pack_and_not_eq_zero`).
-/

namespace Packing

variable {ι : Type} {w : Nat}

/-- Places in a word of `w` bits for fields of given widths. -/
structure Layout (width : ι → Nat) (w : Nat) where
  shift : ι → Nat
  inside : ∀ i, shift i + width i ≤ w
  disjoint : ∀ i j, i ≠ j → shift i + width i ≤ shift j ∨ shift j + width j ≤ shift i

/-- The values fit in fields of these widths. -/
def Fits {v : Nat} (width : ι → Nat) (value : ι → BitVec v) : Prop := ∀ i k, width i ≤ k → (value i).hasBit k = false

theorem Fits.setWidth {v : Nat} {width : ι → Nat} {value : ι → BitVec v} (h : Fits width value) :
    Fits width fun i => (value i).setWidth w := by
  intro i k hk
  rw [BitVec.hasBit_setWidth, h i k hk, Bool.and_false]

namespace Layout

variable {width : ι → Nat} (L : Layout width w) (value : ι → BitVec w) (l : List ι) {i : ι}

/-- The fields of the list joined in one word. -/
def pack : BitVec w := l.foldr (fun i x => value i <<< L.shift i ||| x) 0#w

theorem hasBit_pack (k : Nat) : (L.pack value l).hasBit k = l.any fun i => (value i <<< L.shift i).hasBit k := by
  induction l with
  | nil => exact BitVec.hasBit_zero k
  | cons i l ih =>
    rw [List.any_cons, ← ih]
    exact BitVec.hasBit_or _ _ k

variable {value l}

/-- In the place of a field there are only bits of its own. -/
theorem hasBit_shifted {j : ι} (h : Fits width value) (hij : i ≠ j) {k : Nat} (hk : k < width i) :
    (value j <<< L.shift j).hasBit (L.shift i + k) = false := by
  rw [BitVec.hasBit_shiftLeft]
  by_cases hlow : L.shift i + k < L.shift j
  · simp [hlow]
  · have hdisjoint := L.disjoint i j hij
    rw [h j _ (by omega), Bool.and_false]

theorem hasBit_pack_shift (h : Fits width value) (hi : i ∈ l) {k : Nat} (hk : k < width i) :
    (L.pack value l).hasBit (L.shift i + k) = (value i).hasBit k := by
  have hinside := L.inside i
  have hown : (value i <<< L.shift i).hasBit (L.shift i + k) = (value i).hasBit k := by
    rw [BitVec.hasBit_shiftLeft, Nat.add_sub_cancel_left]
    simp [show L.shift i + k < w by omega]
  rw [hasBit_pack]
  cases hbit : (value i).hasBit k with
  | true => exact List.any_eq_true.2 ⟨i, hi, hown.trans hbit⟩
  | false =>
    refine List.any_eq_false.2 fun j _ => ?_
    by_cases hij : i = j
    · subst hij
      rw [hown, hbit]
      exact Bool.false_ne_true
    · rw [hasBit_shifted L h hij hk]
      exact Bool.false_ne_true

/-- A field is taken out by a shift and a mask of its width. -/
theorem pack_ushiftRight_and (h : Fits width value) (hi : i ∈ l) {m : BitVec w}
    (hm : ∀ k < w, m.hasBit k = decide (k < width i)) : (L.pack value l >>> L.shift i) &&& m = value i := by
  apply BitVec.eq_of_hasBit
  intro k hk
  rw [BitVec.hasBit_and, BitVec.hasBit_ushiftRight, hm k hk]
  by_cases hlt : k < width i
  · rw [hasBit_pack_shift L h hi hlt, decide_eq_true hlt, Bool.and_true]
  · rw [decide_eq_false hlt, Bool.and_false, h i k (by omega)]

/-- The word has nothing outside the field `i` just if the other values are zero. -/
theorem pack_and_not_eq_zero (h : Fits width value) {m : BitVec w}
    (hm : ∀ k < w, m.hasBit k = decide (L.shift i ≤ k ∧ k < L.shift i + width i)) :
    L.pack value l &&& ~~~m = 0#w ↔ ∀ j ∈ l, j ≠ i → value j = 0#w := by
  constructor
  · intro hzero j hj hji
    apply BitVec.eq_of_hasBit
    intro k _
    rw [BitVec.hasBit_zero]
    by_cases hk : k < width j
    · have hinside := L.inside j
      have hdisjoint := L.disjoint i j (Ne.symm hji)
      have hw : L.shift j + k < w := by omega
      have hout : ¬(L.shift i ≤ L.shift j + k ∧ L.shift j + k < L.shift i + width i) := by omega
      have hbit := congrArg (fun x => x.hasBit (L.shift j + k)) hzero
      simp only [BitVec.hasBit_and, BitVec.hasBit_not, hasBit_pack_shift L h hj hk] at hbit
      rw [hm _ hw, decide_eq_false hout, decide_eq_true hw] at hbit
      simpa using hbit
    · exact h j k (by omega)
  · intro hzero
    apply BitVec.eq_of_hasBit
    intro k hk
    rw [BitVec.hasBit_and, BitVec.hasBit_not, hasBit_pack, hm k hk]
    by_cases hin : L.shift i ≤ k ∧ k < L.shift i + width i
    · simp [hin]
    · have hnone : (l.any fun j => (value j <<< L.shift j).hasBit k) = false := by
        refine List.any_eq_false.2 fun j hj => ?_
        rw [BitVec.hasBit_shiftLeft]
        by_cases hji : j = i
        · subst hji
          by_cases hlow : k < L.shift j
          · simp [hlow]
          · rw [h j _ (by omega), Bool.and_false]
            exact Bool.false_ne_true
        · rw [hzero j hj hji, BitVec.hasBit_zero, Bool.and_false]
          exact Bool.false_ne_true
      rw [hnone, Bool.false_and]
      exact (BitVec.hasBit_zero k).symm

end Layout

end Packing
