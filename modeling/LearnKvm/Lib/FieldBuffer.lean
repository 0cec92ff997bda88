import Mathlib.Data.BitVec
import Mathlib.Data.List.Forall2

/-!
# Buffers filled and read field by field

A writer is a list of fields (`Field`): each puts its bytes at the current position of a buffer and moves the position on by
its size, which may leave a gap behind the bytes.  A reader is a list of setters (`Setter`): each takes bytes from the
current position, changes a state with them and moves on by a size of its own.

`writeFields_field` and `writeFields_gap` say what a written buffer holds.  A reader whose setters agree with the fields in size
(`Aligned`) receives the bytes of each field, `readFields_writeFields`; where the sizes differ, the positions drift apart.
-/

namespace FieldBuffer

abbrev Buffer := Nat → BitVec 8

/-! ### Words in bytes -/

/-- The `k`th byte of a little-endian number. -/
def byte (x k : Nat) : BitVec 8 := BitVec.ofNat 8 (x / 256 ^ k)

/-- The number in the first `n` bytes. -/
def word (b : Buffer) : Nat → Nat
  | 0 => 0
  | n + 1 => (b 0).toNat + 256 * word (fun k => b (k + 1)) n

theorem word_congr {b b' : Buffer} {n : Nat} (h : ∀ k < n, b k = b' k) : word b n = word b' n := by
  induction n generalizing b b' with
  | zero => rfl
  | succ n ih =>
    unfold word
    rw [h 0 (by omega), ih fun k hk => h (k + 1) (by omega)]

theorem word_lt (b : Buffer) (n : Nat) : word b n < 256 ^ n := by
  induction n generalizing b with
  | zero => exact Nat.one_pos
  | succ n ih =>
    have hhead := (b 0).isLt
    have htail := ih fun k => b (k + 1)
    rw [Nat.pow_succ]
    unfold word
    omega

theorem word_byte (x n : Nat) : word (byte x) n = x % 256 ^ n := by
  induction n generalizing x with
  | zero => rw [Nat.pow_zero, Nat.mod_one]; rfl
  | succ n ih =>
    have hshift : (fun k => byte x (k + 1)) = byte (x / 256) := by
      funext k
      unfold byte
      rw [Nat.pow_succ, Nat.mul_comm, Nat.div_div_eq_div_mul]
    have hlow : (byte x 0).toNat = x % 256 := by simp [byte]
    unfold word
    rw [hshift, ih, hlow, Nat.pow_succ, Nat.mul_comm (256 ^ n), Nat.mod_mul]

/-- A word is read as `x` iff the bytes are those of `x`. -/
theorem word_eq_iff (b : Buffer) {n x : Nat} (hx : x < 256 ^ n) : word b n = x ↔ ∀ k < n, b k = byte x k := by
  induction n generalizing b x with
  | zero =>
    have : x = 0 := by simpa using hx
    simp [this, word]
  | succ n ih =>
    have hdiv : x / 256 < 256 ^ n := Nat.div_lt_of_lt_mul (by rwa [Nat.mul_comm, ← Nat.pow_succ])
    have hhead : (b 0).toNat + 256 * word (fun k => b (k + 1)) n = x ↔
        b 0 = byte x 0 ∧ word (fun k => b (k + 1)) n = x / 256 := by
      have hlt := (b 0).isLt
      rw [← BitVec.toNat_inj, show (byte x 0).toNat = x % 256 by simp [byte]]
      omega
    have htail : ∀ k, byte (x / 256) k = byte x (k + 1) := by
      intro k
      unfold byte
      rw [Nat.pow_succ, Nat.mul_comm, Nat.div_div_eq_div_mul]
    unfold word
    rw [hhead, ih _ hdiv]
    constructor
    · rintro ⟨h0, hk⟩ (_ | k) hlt
      · exact h0
      · exact (hk k (by omega)).trans (htail k)
    · intro h
      exact ⟨h 0 (by omega), fun k hk => (h (k + 1) (by omega)).trans (htail k).symm⟩

/-! ### Writing -/

structure Field where
  len : Nat
  size : Nat
  bytes : Buffer
  fits : len ≤ size

/-- A buffer and the position of the next field. -/
structure Cursor where
  buf : Buffer
  pos : Nat

def Field.put (c : Cursor) (f : Field) : Cursor where
  buf k := if c.pos ≤ k ∧ k < c.pos + f.len then f.bytes (k - c.pos) else c.buf k
  pos := c.pos + f.size

def writeFields (c : Cursor) (fs : List Field) : Cursor := fs.foldl Field.put c

def extent (fs : List Field) : Nat := (fs.map Field.size).sum

theorem extent_append (fs gs : List Field) : extent (fs ++ gs) = extent fs + extent gs := by
  simp [extent]

theorem writeFields_append (c : Cursor) (fs gs : List Field) : writeFields c (fs ++ gs) = writeFields (writeFields c fs) gs :=
  List.foldl_append

@[simp] theorem writeFields_pos (c : Cursor) (fs : List Field) : (writeFields c fs).pos = c.pos + extent fs := by
  induction fs generalizing c with
  | nil => rfl
  | cons f fs ih =>
    have := ih (Field.put c f)
    simp only [writeFields, List.foldl_cons, Field.put, extent, List.map_cons, List.sum_cons] at this ⊢
    omega

theorem writeFields_outside (c : Cursor) (fs : List Field) {k : Nat} (h : k < c.pos ∨ c.pos + extent fs ≤ k) :
    (writeFields c fs).buf k = c.buf k := by
  induction fs generalizing c with
  | nil => rfl
  | cons f fs ih =>
    have hext : extent (f :: fs) = f.size + extent fs := by simp [extent]
    have hfits := f.fits
    have hput : (Field.put c f).buf k = c.buf k := if_neg (by omega)
    have hpos : (Field.put c f).pos = c.pos + f.size := rfl
    exact (ih (Field.put c f) (by omega)).trans hput

/-- A byte of a field. -/
theorem writeFields_field (c : Cursor) (pre : List Field) (f : Field) (post : List Field) {k : Nat} (h : k < f.len) :
    (writeFields c (pre ++ f :: post)).buf (c.pos + extent pre + k) = f.bytes k := by
  have hfits := f.fits
  rw [writeFields_append]
  refine (writeFields_outside (Field.put (writeFields c pre) f) post (.inl ?_)).trans ?_
  · simp only [Field.put, writeFields_pos]
    omega
  · simp only [Field.put, writeFields_pos]
    rw [if_pos (by omega)]
    congr 1
    omega

/-- A byte of the gap behind a field. -/
theorem writeFields_gap (c : Cursor) (pre : List Field) (f : Field) (post : List Field) {k : Nat} (h : f.len ≤ k)
    (hk : k < f.size) :
    (writeFields c (pre ++ f :: post)).buf (c.pos + extent pre + k) = c.buf (c.pos + extent pre + k) := by
  rw [writeFields_append]
  refine (writeFields_outside (Field.put (writeFields c pre) f) post (.inl ?_)).trans ?_
  · simp only [Field.put, writeFields_pos]
    omega
  · simp only [Field.put, writeFields_pos]
    rw [if_neg (by omega)]
    exact writeFields_outside c pre (.inr (by omega))

/-! ### Reading -/

variable {σ : Type*}

/-- A setter depends on the bytes it takes. -/
structure Setter (σ : Type*) where
  len : Nat
  size : Nat
  set : Buffer → σ → σ
  local_bytes : ∀ b b', (∀ k < len, b k = b' k) → set b = set b'

def readFields (b : Buffer) : Nat → List (Setter σ) → σ → σ
  | _, [], s => s
  | p, g :: gs, s => readFields b (p + g.size) gs (g.set (fun k => b (p + k)) s)

theorem readFields_append (b : Buffer) (p : Nat) (gs hs : List (Setter σ)) (s : σ) :
    readFields b p (gs ++ hs) s = readFields b (p + (gs.map Setter.size).sum) hs (readFields b p gs s) := by
  induction gs generalizing p s with
  | nil => rfl
  | cons g gs ih =>
    simp only [List.cons_append, readFields, List.map_cons, List.sum_cons]
    rw [ih, Nat.add_assoc]

/-- A setter takes no more than the field has, and both move on alike. -/
structure Aligned (g : Setter σ) (f : Field) : Prop where
  len : g.len ≤ f.len
  size : g.size = f.size

/-- The state after each setter has received the bytes of its field. -/
def handOver : List (Setter σ) → List Field → σ → σ
  | g :: gs, f :: fs, s => handOver gs fs (g.set f.bytes s)
  | _, _, s => s

/-- An aligned reader receives what was written. -/
theorem readFields_writeFields (c : Cursor) {gs : List (Setter σ)} {fs : List Field} (h : List.Forall₂ Aligned gs fs)
    (post : List Field) (s : σ) : readFields (writeFields c (fs ++ post)).buf c.pos gs s = handOver gs fs s := by
  induction h generalizing c s with
  | nil => rfl
  | @cons g f gs fs hgf _ ih =>
    have hset : g.set (fun k => (writeFields c (f :: fs ++ post)).buf (c.pos + k)) = g.set f.bytes := by
      refine g.local_bytes _ _ fun k hk => ?_
      exact writeFields_field c [] f (fs ++ post) (Nat.lt_of_lt_of_le hk hgf.len)
    have hpos : c.pos + g.size = (Field.put c f).pos := by rw [hgf.size]; rfl
    simp only [readFields, handOver]
    rw [hset, hpos]
    exact ih (Field.put c f) _

end FieldBuffer
